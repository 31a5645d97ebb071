import Mathlib.Data.List.Basic
import Mathlib.Tactic.Common

/-!
# Texts that a comma and a space keep apart

A cursor moves over a value and knows how many parentheses are open, whether it stands in quotes,
and whether it is right behind a comma outside of both. A text is sealed if the cursor reaches its
end outside quotes and parentheses without meeting a comma and a space there. Sealed texts can be
joined with a comma and a space and told apart again.
-/

namespace AtomicCss.Proofs

inductive Quote
  | single
  | double
  deriving DecidableEq

def Quote.char : Quote → Char
  | single => '\''
  | double => '"'

/-- Where in a value the cursor stands: behind a backslash it is `escaped`. -/
inductive Mode
  | free
  | comma
  | quoted (quote : Quote)
  | escaped (quote : Option Quote)
  deriving DecidableEq

structure Cursor where
  depth : Nat
  mode : Mode
  deriving DecidableEq

namespace Cursor

/-- A character outside quotes. -/
def outside? (depth : Nat) (c : Char) : Option Cursor :=
  if c = '\\' then some ⟨depth, .escaped none⟩
  else if c = '"' then some ⟨depth, .quoted .double⟩
  else if c = '\'' then some ⟨depth, .quoted .single⟩
  else if c = '(' then some ⟨depth + 1, .free⟩
  else if c = ')' then if depth = 0 then none else some ⟨depth - 1, .free⟩
  else if c = ',' ∧ depth = 0 then some ⟨depth, .comma⟩
  else some ⟨depth, .free⟩

/-- One character further. There is no way over a space behind a comma, nor over a parenthesis
that closes without having been opened. -/
def step? (r : Cursor) (c : Char) : Option Cursor :=
  match r.mode with
  | .escaped none => some ⟨r.depth, .free⟩
  | .escaped (some q) => some ⟨r.depth, .quoted q⟩
  | .quoted q =>
    if c = '\\' then some ⟨r.depth, .escaped (some q)⟩
    else if c = q.char then some ⟨r.depth, .free⟩
    else some r
  | .comma => if c = ' ' then none else outside? r.depth c
  | .free => outside? r.depth c

def over? (r : Cursor) (text : List Char) : Option Cursor :=
  text.foldlM step? r

def start : Cursor := ⟨0, .free⟩

/-- Outside quotes, and behind a comma only outside parentheses too. -/
def Ready (r : Cursor) : Prop :=
  r.mode = .free ∨ r = ⟨0, .comma⟩

/-- The same place with one more parenthesis around it. -/
def inside (r : Cursor) : Cursor :=
  ⟨r.depth + 1, if r.mode = .comma then .free else r.mode⟩

end Cursor

open Cursor

def Sealed (text : List Char) : Prop :=
  ∃ r, Ready r ∧ r.depth = 0 ∧ start.over? text = some r

/-- A text that leaves nothing open. -/
def Balanced (text : List Char) : Prop :=
  start.over? text = some start

/-- A balanced text that can also be read behind a comma, since it does not begin with a space. -/
def Level (text : List Char) : Prop :=
  (⟨0, .comma⟩ : Cursor).over? text = some start

/-- A text that leaves nothing open when it stands in parentheses. -/
def Enclosed (text : List Char) : Prop :=
  (⟨1, .free⟩ : Cursor).over? text = some ⟨1, .free⟩

@[simp] lemma over?_nil (r : Cursor) : r.over? [] = some r := rfl

lemma over?_cons (r : Cursor) (c : Char) (cs : List Char) :
    r.over? (c :: cs) = (r.step? c).bind fun s => s.over? cs := rfl

lemma over?_append (r : Cursor) (s t : List Char) :
    r.over? (s ++ t) = (r.over? s).bind fun u => u.over? t := by
  unfold over?
  rw [List.foldlM_append]
  rfl

lemma over?_append_of_eq {r u : Cursor} {s : List Char} (h : r.over? s = some u) (t : List Char) :
    r.over? (s ++ t) = u.over? t := by
  rw [over?_append, h, Option.bind_some]

/-- What is met behind a comma could be met anywhere. -/
lemma step?_of_comma {c : Char} {s : Cursor} (h : (⟨0, .comma⟩ : Cursor).step? c = some s) :
    start.step? c = some s := by
  unfold step? at h ⊢
  dsimp only [start] at h ⊢
  split at h
  · cases h
  · exact h

/-- Only a parenthesis changes how many are open. -/
lemma step?_depth {r s : Cursor} {c : Char} (h : r.step? c = some s) (hopen : c ≠ '(')
    (hclose : c ≠ ')') : s.depth = r.depth := by
  have houtside : ∀ {depth : Nat}, outside? depth c = some s → s.depth = depth := by
    intro depth h
    simp only [outside?, hopen, hclose, if_false] at h
    grind
  obtain ⟨depth, mode⟩ := r
  cases mode with
  | free => exact houtside h
  | comma =>
    unfold step? at h
    dsimp only at h
    split at h
    · cases h
    · exact houtside h
  | quoted q =>
    unfold step? at h
    dsimp only at h
    grind
  | escaped quote =>
    cases quote <;> cases h <;> rfl

lemma over?_depth {r s : Cursor} {text : List Char} (h : r.over? text = some s)
    (hopen : '(' ∉ text) (hclose : ')' ∉ text) : s.depth = r.depth := by
  induction text generalizing r with
  | nil =>
    cases h
    rfl
  | cons c cs ih =>
    obtain ⟨u, hu, h⟩ := Option.bind_eq_some_iff.1 h
    have hdepth : u.depth = r.depth := by
      refine step?_depth hu ?_ ?_
      · rintro rfl
        exact hopen List.mem_cons_self
      · rintro rfl
        exact hclose List.mem_cons_self
    rw [← hdepth]
    exact ih h (fun hc => hopen (List.mem_cons_of_mem _ hc))
      fun hc => hclose (List.mem_cons_of_mem _ hc)

lemma outside?_inside {depth : Nat} {c : Char} {s : Cursor} (h : outside? depth c = some s) :
    outside? (depth + 1) c = some s.inside := by
  unfold outside? at h ⊢
  split at h
  · rename_i hc
    rw [if_pos hc]
    cases h
    rfl
  rename_i hc
  rw [if_neg hc]
  split at h
  · rename_i hq
    rw [if_pos hq]
    cases h
    rfl
  rename_i hq
  rw [if_neg hq]
  split at h
  · rename_i hs
    rw [if_pos hs]
    cases h
    rfl
  rename_i hs
  rw [if_neg hs]
  split at h
  · rename_i ho
    rw [if_pos ho]
    cases h
    rfl
  rename_i ho
  rw [if_neg ho]
  split at h
  · rename_i hclose
    split at h
    · cases h
    · rename_i hdepth
      rw [if_pos hclose, if_neg (Nat.succ_ne_zero depth)]
      cases h
      have heq : depth + 1 - 1 = depth - 1 + 1 := by omega
      rw [heq]
      rfl
  rename_i hclose
  rw [if_neg hclose, if_neg fun h => Nat.succ_ne_zero depth h.2]
  split at h
  · cases h
    rfl
  · cases h
    rfl

lemma step?_inside {r s : Cursor} {c : Char} (h : r.step? c = some s) :
    r.inside.step? c = some s.inside := by
  obtain ⟨depth, mode⟩ := r
  cases mode with
  | free => exact outside?_inside h
  | comma =>
    unfold step? at h
    dsimp only at h
    split at h
    · cases h
    · exact outside?_inside h
  | quoted q =>
    unfold step? at h ⊢
    dsimp only [inside] at h ⊢
    split at h
    · rename_i hc
      cases h
      simp [hc]
    · rename_i hc
      split at h
      · rename_i hq
        cases h
        subst hq
        simp [hc]
      · rename_i hq
        cases h
        simp [hc, hq]
  | escaped quote =>
    cases quote <;> cases h <;> rfl

/-- What can be read can also be read inside a parenthesis. -/
lemma over?_inside {r s : Cursor} {text : List Char} (h : r.over? text = some s) :
    r.inside.over? text = some s.inside := by
  induction text generalizing r with
  | nil =>
    cases h
    rfl
  | cons c cs ih =>
    rw [over?_cons] at h ⊢
    obtain ⟨u, hu, h⟩ := Option.bind_eq_some_iff.1 h
    rw [step?_inside hu]
    exact ih h

lemma Level.balanced {text : List Char} (h : Level text) : Balanced text := by
  cases text with
  | nil => cases h
  | cons c cs =>
    obtain ⟨u, hu, hrest⟩ := Option.bind_eq_some_iff.1 h
    unfold Balanced
    rw [over?_cons, step?_of_comma hu]
    exact hrest

lemma level_of_balanced {c : Char} {cs : List Char} (h : Balanced (c :: cs)) (hc : c ≠ ' ') :
    Level (c :: cs) := by
  have hstep : (⟨0, .comma⟩ : Cursor).step? c = start.step? c := by
    simp [step?, hc, start]
  unfold Level
  rw [over?_cons, hstep]
  exact h

/-- A balanced text can be read at any depth. -/
lemma Balanced.over? {text : List Char} (h : Balanced text) (depth : Nat) :
    (⟨depth, .free⟩ : Cursor).over? text = some ⟨depth, .free⟩ := by
  induction depth with
  | zero => exact h
  | succ depth ih => exact over?_inside ih

lemma Balanced.enclosed {text : List Char} (h : Balanced text) : Enclosed text :=
  h.over? 1

/-- An enclosed text can be read inside any number of parentheses. -/
lemma Enclosed.over? {text : List Char} (h : Enclosed text) (depth : Nat) :
    (⟨depth + 1, .free⟩ : Cursor).over? text = some ⟨depth + 1, .free⟩ := by
  induction depth with
  | zero => exact h
  | succ depth ih => exact over?_inside ih

lemma Level.over? {text : List Char} (h : Level text) {r : Cursor} (hr : r.Ready) :
    r.over? text = some ⟨r.depth, .free⟩ := by
  obtain ⟨depth, mode⟩ := r
  rcases hr with hmode | heq
  · obtain rfl : mode = .free := hmode
    exact h.balanced.over? depth
  · obtain ⟨rfl, rfl⟩ := Cursor.mk.inj heq
    exact h

lemma Level.append_balanced {s t : List Char} (hs : Level s) (ht : Balanced t) :
    Level (s ++ t) := by
  unfold Level
  rw [over?_append_of_eq hs]
  exact ht

lemma Level.append {s t : List Char} (hs : Level s) (ht : Level t) : Level (s ++ t) :=
  hs.append_balanced ht.balanced

lemma Balanced.sealed {text : List Char} (h : Balanced text) : Sealed text :=
  ⟨start, .inl rfl, rfl, h⟩

lemma Sealed.append {s t : List Char} (hs : Sealed s) (ht : Level t) : Sealed (s ++ t) := by
  obtain ⟨r, hready, hdepth, hr⟩ := hs
  refine ⟨⟨0, .free⟩, .inl rfl, rfl, ?_⟩
  rw [over?_append_of_eq hr, ht.over? hready, hdepth]

/-- Texts are searched character by character, rather than by trying all characters there are. -/
instance (priority := high) decidableForallMem (P : Char → Prop) [DecidablePred P]
    (text : List Char) : Decidable (∀ c ∈ text, P c) :=
  List.decidableBAll P text

/-- Characters that mean nothing to the cursor. -/
def IsQuiet (c : Char) : Prop :=
  c ≠ '\\' ∧ c ≠ '"' ∧ c ≠ '\'' ∧ c ≠ '(' ∧ c ≠ ')' ∧ c ≠ ',' ∧ c ≠ ' '

instance (c : Char) : Decidable (IsQuiet c) :=
  inferInstanceAs (Decidable (_ ∧ _))

lemma outside?_quiet {c : Char} (hc : IsQuiet c) (depth : Nat) :
    outside? depth c = some ⟨depth, .free⟩ := by
  obtain ⟨h1, h2, h3, h4, h5, h6, -⟩ := hc
  simp [outside?, h1, h2, h3, h4, h5, h6]

lemma step?_quiet {c : Char} (hc : IsQuiet c) {r : Cursor} (hr : r.Ready) :
    r.step? c = some ⟨r.depth, .free⟩ := by
  obtain ⟨depth, mode⟩ := r
  rcases hr with hmode | heq
  · obtain rfl : mode = .free := hmode
    exact outside?_quiet hc depth
  · obtain ⟨rfl, rfl⟩ := Cursor.mk.inj heq
    have hspace : c ≠ ' ' := hc.2.2.2.2.2.2
    simp only [step?, hspace, if_false]
    exact outside?_quiet hc 0

lemma balanced_of_quiet {text : List Char} (h : ∀ c ∈ text, IsQuiet c) : Balanced text := by
  unfold Balanced
  induction text with
  | nil => rfl
  | cons c cs ih =>
    rw [over?_cons, step?_quiet (h c List.mem_cons_self) (.inl rfl)]
    exact ih fun d hd => h d (List.mem_cons_of_mem _ hd)

lemma level_of_quiet {text : List Char} (hne : text ≠ []) (h : ∀ c ∈ text, IsQuiet c) :
    Level text := by
  cases text with
  | nil => exact (hne rfl).elim
  | cons c cs =>
    have hc : c ≠ ' ' := (h c List.mem_cons_self).2.2.2.2.2.2
    exact level_of_balanced (balanced_of_quiet h) hc

/-- Behind a sealed text the cursor does not get over a comma and a space. -/
lemma over?_separator {s : List Char} (hs : Sealed s) (t : List Char) :
    start.over? (s ++ ([',', ' '] ++ t)) = none := by
  obtain ⟨⟨depth, mode⟩, hready, hdepth, hr⟩ := hs
  obtain rfl : depth = 0 := hdepth
  rw [over?_append_of_eq hr]
  rcases hready with hmode | heq
  · obtain rfl : mode = .free := hmode
    rfl
  · obtain ⟨-, rfl⟩ := Cursor.mk.inj heq
    rfl

/-- Texts with a comma and a space between them. -/
def joined (texts : List (List Char)) : List Char :=
  [',', ' '].intercalate texts

lemma joined_cons {s t : List Char} {texts : List (List Char)} :
    joined (s :: t :: texts) = s ++ ([',', ' '] ++ joined (t :: texts)) := by
  simp [joined, List.intercalate]

/-- Of two sealed texts in front of the same text, neither goes on where the other ends. -/
lemma eq_of_separated {s t u v : List Char} (hs : Sealed s) (ht : Sealed t)
    (h : s ++ ([',', ' '] ++ u) = t ++ ([',', ' '] ++ v)) : s = t ∧ u = v := by
  have hlonger : ∀ {s t u v : List Char}, Sealed t → Sealed s → ∀ a, s = t ++ a →
      [',', ' '] ++ v = a ++ ([',', ' '] ++ u) → s = t ∧ u = v := by
    intro s t u v ht hs a hst ha
    match a with
    | [] =>
      simp only [List.nil_append] at ha
      exact ⟨by simpa using hst, (List.append_cancel_left ha).symm⟩
    | [c] => simp at ha
    | c :: d :: a =>
      -- the longer text would hold the separator
      simp only [List.cons_append, List.nil_append, List.cons.injEq] at ha
      obtain ⟨rfl, rfl, rfl⟩ := ha
      obtain ⟨r, _, _, hr⟩ := hs
      rw [hst] at hr
      have hnone := over?_separator ht a
      simp only [List.cons_append, List.nil_append] at hnone
      rw [hnone] at hr
      cases hr
  rcases List.append_eq_append_iff.1 h with ⟨a, hts, ha⟩ | ⟨a, hst, ha⟩
  · obtain ⟨heq, huv⟩ := hlonger hs ht a hts ha
    exact ⟨heq.symm, huv.symm⟩
  · exact hlonger ht hs a hst ha

lemma not_sealed_joined {s t : List Char} {texts : List (List Char)} (hs : Sealed s) :
    ¬Sealed (joined (s :: t :: texts)) := by
  rintro ⟨r, _, _, hr⟩
  rw [joined_cons, over?_separator hs] at hr
  cases hr

/-- Sealed texts can be told apart when they are joined. -/
theorem joined_inj {us vs : List (List Char)} (hus : ∀ u ∈ us, Sealed u)
    (hvs : ∀ v ∈ vs, Sealed v) (hu : us ≠ []) (hv : vs ≠ []) (h : joined us = joined vs) :
    us = vs := by
  induction us generalizing vs with
  | nil => exact (hu rfl).elim
  | cons u us ih =>
    cases vs with
    | nil => exact (hv rfl).elim
    | cons v vs =>
      have hsu := hus u List.mem_cons_self
      have hsv := hvs v List.mem_cons_self
      have hone : ∀ w, joined [w] = w := fun w => by simp [joined, List.intercalate]
      cases us with
      | nil =>
        cases vs with
        | nil => rw [hone, hone] at h; rw [h]
        | cons v' vs =>
          rw [hone] at h
          exact (not_sealed_joined hsv (h ▸ hsu)).elim
      | cons u' us =>
        cases vs with
        | nil =>
          rw [hone] at h
          exact (not_sealed_joined hsu (h ▸ hsv)).elim
        | cons v' vs =>
          rw [joined_cons, joined_cons] at h
          obtain ⟨rfl, hrest⟩ := eq_of_separated hsu hsv h
          rw [ih (fun w hw => hus w (List.mem_cons_of_mem _ hw))
            (fun w hw => hvs w (List.mem_cons_of_mem _ hw)) (by simp) (by simp) hrest]

end AtomicCss.Proofs
