import AtomicCss.Proofs.ByteScan
import AtomicCss.Condition.Basic
import Mathlib.Order.Bounds.Basic

/-!
# The parts of a suffix around its pseudo-element

A pseudo-element begins at the first two colons outside parentheses and ends at the next colon
outside the parentheses that it opens itself. It is cut out of the suffix there, so the suffix is
what stands in front of it, the pseudo-element and what stands behind it, whatever parentheses the
suffix leaves open or closes too often.
-/

namespace AtomicCss.Proofs

open Condition Text

/-- A text with its name and rest, split at the first colon outside the parentheses of the name. -/
structure SpanParts (depth : ℕ) (cs name rest : List Char) : Prop where
  whole : cs = name ++ rest
  hidden : ∀ front back, name = front ++ ':' :: back → front.foldl depthAfter depth ≠ 0
  ends : rest = [] ∨ rest.head? = some ':' ∧ name.foldl depthAfter depth = 0

/-- The first two colons outside parentheses, with the name behind them. -/
structure FirstColons (depth : ℕ) (cs before name rest : List Char) : Prop where
  whole : cs = before ++ ':' :: ':' :: (name ++ rest)
  outside : before.foldl depthAfter depth = 0
  first : ∀ front back, cs = front ++ ':' :: ':' :: back → front.foldl depthAfter depth = 0 →
    before.length ≤ front.length
  name : SpanParts 0 (name ++ rest) name rest

/-- No two colons of a text stand outside parentheses. -/
def HidesPairs (depth : ℕ) (cs : List Char) : Prop :=
  ∀ front back, cs = front ++ ':' :: ':' :: back → front.foldl depthAfter depth ≠ 0

section

variable {before name rest : List Char}

lemma pseudoSpan_parts (cs : List Char) : ∀ depth,
    SpanParts depth cs (pseudoSpan depth cs).1 (pseudoSpan depth cs).2 := by
  induction cs with
  | nil =>
    intro depth
    exact ⟨rfl, by simp [pseudoSpan], .inl rfl⟩
  | cons c cs ih =>
    intro depth
    rw [pseudoSpan]
    split
    · rename_i hcolon
      exact ⟨rfl, by simp, .inr ⟨by rw [hcolon.1]; rfl, hcolon.2⟩⟩
    · rename_i hcolon
      obtain ⟨hwhole, hhidden, hends⟩ := ih (depthAfter depth c)
      refine ⟨congrArg (c :: ·) hwhole, fun front back hname => ?_, hends⟩
      cases front with
      | nil =>
        intro hdepth
        exact hcolon ⟨(List.cons.inj hname).1, hdepth⟩
      | cons d front =>
        obtain ⟨rfl, hrest⟩ := List.cons.inj hname
        exact hhidden front back hrest

/-- The search goes from character to character until two colons stand outside parentheses. -/
lemma findPseudoElement?_cases (cs : List Char) : ∀ depth,
    findPseudoElement? depth cs = none ∧ HidesPairs depth cs ∨
      ∃ before name rest, findPseudoElement? depth cs = some (before, ':' :: ':' :: name, rest) ∧
        FirstColons depth cs before name rest := by
  induction cs with
  | nil =>
    intro depth
    exact .inl ⟨rfl, fun front back hsplit => by simp at hsplit⟩
  | cons c cs ih =>
    intro depth
    rw [findPseudoElement?]
    split
    · rename_i hcolons
      obtain ⟨rfl, rfl, hhead⟩ := hcolons
      obtain ⟨cs, rfl⟩ := List.head?_eq_some_iff.1 hhead
      have hspan := pseudoSpan_parts cs 0
      rw [List.tail_cons]
      generalize pseudoSpan 0 cs = parts at hspan ⊢
      obtain ⟨name, rest⟩ := parts
      obtain rfl := hspan.whole
      exact .inr ⟨[], name, rest, rfl, rfl, rfl, fun _ _ _ _ => Nat.zero_le _, hspan⟩
    · rename_i hcolons
      -- two colons of the text are the first two characters, or two colons of the rest
      have hlater : ∀ front back, c :: cs = front ++ ':' :: ':' :: back →
          front.foldl depthAfter depth = 0 → ∃ front', front = c :: front' := by
        intro front back hsplit hdepth
        cases front with
        | nil =>
          obtain ⟨rfl, rfl⟩ := List.cons.inj hsplit
          exact (hcolons ⟨rfl, hdepth, rfl⟩).elim
        | cons d front => exact ⟨front, by rw [(List.cons.inj hsplit).1]⟩
      rcases ih (depthAfter depth c) with ⟨hnone, hhides⟩ | ⟨before, name, rest, hsome, hfirst⟩
      · refine .inl ⟨by rw [hnone]; rfl, fun front back hsplit hdepth => ?_⟩
        obtain ⟨front, rfl⟩ := hlater front back hsplit hdepth
        exact hhides front back (List.cons.inj hsplit).2 hdepth
      · refine .inr ⟨c :: before, name, rest, by rw [hsome]; rfl, ?_⟩
        refine ⟨congrArg (c :: ·) hfirst.whole, hfirst.outside, ?_, hfirst.name⟩
        intro front back hsplit hdepth
        obtain ⟨front, rfl⟩ := hlater front back hsplit hdepth
        exact Nat.succ_le_succ (hfirst.first front back (List.cons.inj hsplit).2 hdepth)

end

/-- A suffix that is cut at the first two colons outside parentheses and at the next colon outside
the parentheses of the name behind them. Both cuts are made between characters. -/
structure PseudoElementParts (suffix before name behind : String) : Prop where
  whole : suffix = before ++ ("::" ++ name) ++ behind
  first : IsLeast {offset | ColonsAt suffix offset} before.utf8ByteSize
  hidesBefore : ∀ offset, ¬ColonsAt before offset
  hidesName : ∀ offset, ¬ColonAt name offset
  stops : behind = "" ∨ behind.toList.head? = some ':' ∧ openBehind name name.utf8ByteSize = 0
  begins : (⟨before.utf8ByteSize⟩ : String.Pos.Raw).IsValid suffix
  ends : (⟨before.utf8ByteSize + ("::" ++ name).utf8ByteSize⟩ : String.Pos.Raw).IsValid suffix

lemma isValid_of_append {text front back : String} (h : text = front ++ back) :
    (⟨front.utf8ByteSize⟩ : String.Pos.Raw).IsValid text :=
  String.Pos.Raw.isValid_iff_exists_append.2 ⟨front, back, h, rfl⟩

lemma FirstColons.parts {suffix : String} {before name rest : List Char}
    (h : FirstColons 0 suffix.toList before name rest) :
    PseudoElementParts suffix (String.ofList before) (String.ofList name) (String.ofList rest) := by
  have hwhole : suffix = String.ofList before ++ ("::" ++ String.ofList name) ++
      String.ofList rest := by
    rw [← String.toList_inj, h.whole]
    simp
  refine ⟨hwhole, ⟨?_, ?_⟩, ?_, ?_, ?_, ?_, ?_⟩
  · exact colonsAt_iff.2 ⟨before, _, h.whole, rfl, h.outside⟩
  · intro offset hcolons
    obtain ⟨front, back, hsplit, rfl, hdepth⟩ := colonsAt_iff.1 hcolons
    obtain ⟨more, rfl⟩ : before <+: front :=
      List.prefix_of_prefix_length_le ⟨_, h.whole.symm⟩ ⟨_, hsplit.symm⟩
        (h.first front back hsplit hdepth)
    rw [String.ofList_append, String.utf8ByteSize_append]
    exact Nat.le_add_right _ _
  · intro offset hcolons
    obtain ⟨front, back, hbefore, _, hdepth⟩ := colonsAt_iff.1 hcolons
    rw [String.toList_ofList] at hbefore
    -- such colons would come before the first ones of the suffix
    have hle := h.first front (back ++ ':' :: ':' :: (name ++ rest))
      (by rw [h.whole, hbefore]; simp) hdepth
    rw [hbefore, List.length_append, List.length_cons] at hle
    omega
  · intro offset hcolon
    obtain ⟨front, back, hname, _, hdepth⟩ := colonAt_iff.1 hcolon
    rw [String.toList_ofList] at hname
    exact h.name.hidden front back hname hdepth
  · rcases h.name.ends with rfl | ⟨hhead, hdepth⟩
    · exact .inl rfl
    · right
      have hname : (String.ofList name).toList = name ++ [] := by
        rw [String.toList_ofList, List.append_nil]
      rw [String.toList_ofList, openBehind_front hname]
      exact ⟨hhead, hdepth⟩
  · rw [String.append_assoc] at hwhole
    exact isValid_of_append hwhole
  · rw [← String.utf8ByteSize_append]
    exact isValid_of_append hwhole

/-- A suffix without two colons outside parentheses has no pseudo-element and is left as it stands.
In any other, the first such colons begin the pseudo-element, and the rest is what stands around
it. -/
theorem splitPseudoElement_partition (suffix : String) :
    (splitPseudoElement suffix = (none, suffix) ↔ ∀ offset, ¬ColonsAt suffix offset) ∧
      (splitPseudoElement suffix = (none, suffix) ∨ ∃ before name behind,
        splitPseudoElement suffix = (some ("::" ++ name), before ++ behind) ∧
          PseudoElementParts suffix before name behind) := by
  rcases findPseudoElement?_cases suffix.toList 0 with
    ⟨hnone, hhides⟩ | ⟨before, name, rest, hsome, hfirst⟩
  · have hleft : splitPseudoElement suffix = (none, suffix) := by
      rw [splitPseudoElement, hnone]
    refine ⟨iff_of_true hleft fun offset hcolons => ?_, .inl hleft⟩
    obtain ⟨front, back, hsplit, _, hdepth⟩ := colonsAt_iff.1 hcolons
    exact hhides front back hsplit hdepth
  · have hparts := hfirst.parts
    have hpseudo : String.ofList (':' :: ':' :: name) = "::" ++ String.ofList name := by
      rw [← String.toList_inj]
      simp
    have hcut : splitPseudoElement suffix =
        (some ("::" ++ String.ofList name), String.ofList before ++ String.ofList rest) := by
      rw [splitPseudoElement, hsome]
      dsimp only
      rw [hpseudo, String.ofList_append]
    refine ⟨iff_of_false ?_ fun hnowhere => hnowhere _ hparts.first.1, .inr ⟨_, _, _, hcut, hparts⟩⟩
    rw [hcut]
    exact fun hsame => Option.some_ne_none _ (Prod.mk.inj hsame).1

/-- Letters of two bytes, a parenthesis too many in front, and a colon inside the pseudo-element. -/
example : splitPseudoElement ":größe)::part(a:b):hover" =
    (some "::part(a:b)", ":größe):hover") := by
  decide +kernel

end AtomicCss.Proofs
