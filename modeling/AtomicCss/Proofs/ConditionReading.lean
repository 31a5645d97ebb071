import AtomicCss.Proofs.MarkedParts
import AtomicCss.Proofs.Parentheses
import AtomicCss.Proofs.TightRules
import Mathlib.Logic.Relation

/-!
# Conditions read back

Reading the canonical text of a condition gives the condition again, at-rules with a suffix behind
them are read as these two parts, and blanks that separate nothing in an at-rule make no difference.
What tightening writes depends on the blanks of a text only through which characters have a blank
between them; the ends of a text are treated like the inside of parentheses.
-/

namespace AtomicCss.Proofs

open Condition Text

/-- A text of blanks. -/
def IsBlanks (blanks : List Char) : Prop :=
  ∀ c ∈ blanks, isBlank c = true

instance (blanks : List Char) : Decidable (IsBlanks blanks) :=
  inferInstanceAs (Decidable (∀ c ∈ blanks, _))

/-- One change of blanks that means nothing in an at-rule: some blanks in the place of others, or
blanks just inside parentheses or at an end of the text. -/
inductive Respaced : List Char → List Char → Prop
  | run (front back : List Char) {blanks others : List Char} : IsBlanks blanks → IsBlanks others →
    blanks ≠ [] → others ≠ [] → Respaced (front ++ blanks ++ back) (front ++ others ++ back)
  | opened (front back : List Char) {blanks others : List Char} :
    IsBlanks blanks → IsBlanks others →
    Respaced (front ++ '(' :: (blanks ++ back)) (front ++ '(' :: (others ++ back))
  | closing (front back : List Char) {blanks others : List Char} :
    IsBlanks blanks → IsBlanks others →
    Respaced (front ++ blanks ++ ')' :: back) (front ++ others ++ ')' :: back)
  | start (back : List Char) {blanks others : List Char} : IsBlanks blanks → IsBlanks others →
    Respaced (blanks ++ back) (others ++ back)
  | stop (front : List Char) {blanks others : List Char} : IsBlanks blanks → IsBlanks others →
    Respaced (front ++ blanks) (front ++ others)

/-- At-rules as they may be written: from an `@` on, perhaps behind blanks, and without a colon
outside parentheses. -/
@[mk_iff]
structure IsRuleText (cs : List Char) : Prop where
  opens : (trim cs).head? = some '@'
  colons : HidesColons cs

instance (cs : List Char) : Decidable (IsRuleText cs) :=
  decidable_of_iff (_ ∧ _) (isRuleText_iff cs).symm

/-- Whether blanks were passed since the last character, behind a text. -/
def pendingBehind (pending : Bool) (cs : List Char) : Bool :=
  cs.foldl (fun _ c => isBlank c) pending

section

variable {cs a b front written blanks : List Char} {pending : Bool}

lemma pendingBehind_blanks (h : IsBlanks blanks) (hne : blanks ≠ []) (pending : Bool) :
    pendingBehind pending blanks = true := by
  induction blanks generalizing pending with
  | nil => exact (hne rfl).elim
  | cons c cs ih =>
    obtain ⟨hc, hcs⟩ := List.forall_mem_cons.1 h
    rcases eq_or_ne cs [] with rfl | hrest
    · exact hc
    · exact ih hcs hrest _

lemma writeTight_blanks (h : IsBlanks blanks) (written : List Char) (pending : Bool) :
    writeTight written pending blanks = written := by
  induction blanks generalizing pending with
  | nil => rfl
  | cons c cs ih =>
    obtain ⟨hc, hcs⟩ := List.forall_mem_cons.1 h
    rw [writeTight_blank hc, ih hcs]

/-- Tightening goes on behind a text with what it has written and whether a space is due. -/
lemma writeTight_behind (a b written : List Char) (pending : Bool) :
    writeTight written pending (a ++ b) =
      writeTight (writeTight written pending a) (pendingBehind pending a) b := by
  induction a generalizing written pending with
  | nil => rfl
  | cons c cs ih =>
    have hstep : pendingBehind pending (c :: cs) = pendingBehind (isBlank c) cs := rfl
    rw [List.cons_append, hstep]
    cases hc : isBlank c with
    | true => rw [writeTight_blank hc, writeTight_blank hc, ih]
    | false => rw [writeTight_ink hc, writeTight_ink hc, ih]

/-- Behind an opening parenthesis no space is due. -/
lemma writeTight_opened (h : written.getLast? = some '(') (cs : List Char) (p q : Bool) :
    writeTight written p cs = writeTight written q cs := by
  have hspaced : ∀ p c, spaced written p c = written ++ [c] := fun p c =>
    if_neg (by simp [h])
  cases cs with
  | nil => rfl
  | cons c cs =>
    cases hc : isBlank c with
    | true => rw [writeTight_blank hc, writeTight_blank hc]
    | false => rw [writeTight_ink hc, writeTight_ink hc, hspaced, hspaced]

/-- None is due in front of a closing one. -/
lemma writeTight_closing (written cs : List Char) (p q : Bool) :
    writeTight written p (')' :: cs) = writeTight written q (')' :: cs) := by
  have hclose : isBlank ')' = false := by decide
  have hspaced : ∀ p, spaced written p ')' = written ++ [')'] := fun p => if_neg (by simp)
  rw [writeTight_ink hclose, writeTight_ink hclose, hspaced, hspaced]

lemma getLast?_spaced (written : List Char) (pending : Bool) (c : Char) :
    (spaced written pending c).getLast? = some c := by
  unfold spaced
  split <;> simp

/-- A change of blanks that means nothing is not seen in what is written behind an opening
parenthesis. -/
lemma Respaced.writeTight_eq (h : Respaced a b) (hwritten : written.getLast? = some '(')
    (pending : Bool) : writeTight written pending a = writeTight written pending b := by
  have hopen : isBlank '(' = false := by decide
  cases h with
  | run front back hblanks hothers hne hne' =>
    simp only [writeTight_behind, writeTight_blanks hblanks, writeTight_blanks hothers,
      List.append_assoc, pendingBehind_blanks hblanks hne, pendingBehind_blanks hothers hne']
  | opened front back hblanks hothers =>
    rw [writeTight_behind, writeTight_behind, writeTight_ink hopen, writeTight_ink hopen,
      writeTight_behind, writeTight_behind, writeTight_blanks hblanks, writeTight_blanks hothers]
    exact writeTight_opened (getLast?_spaced _ _ _) _ _ _
  | closing front back hblanks hothers =>
    simp only [writeTight_behind, writeTight_blanks hblanks, writeTight_blanks hothers,
      List.append_assoc]
    exact writeTight_closing _ _ _ _
  | start back hblanks hothers =>
    rw [writeTight_behind, writeTight_behind, writeTight_blanks hblanks,
      writeTight_blanks hothers]
    exact writeTight_opened hwritten _ _ _
  | stop front hblanks hothers =>
    rw [writeTight_behind, writeTight_behind, writeTight_blanks hblanks,
      writeTight_blanks hothers]

lemma blanks_takeWhile (cs : List Char) : IsBlanks (cs.takeWhile isBlank) :=
  fun _ hc => List.mem_takeWhile_imp hc

lemma blanks_rest (cs : List Char) : ∃ blanks, IsBlanks blanks ∧ cs = trimEnd cs ++ blanks := by
  obtain ⟨blanks, heq, hblanks⟩ := trimEnd_append cs
  exact ⟨blanks, hblanks, heq⟩

lemma trimmed_trim (cs : List Char) : Trimmed (trim cs) where
  head := by
    intro c hc
    cases hstart : trimStart cs with
    | nil =>
      rw [trim, hstart] at hc
      cases hc
    | cons d rest =>
      have hd : isBlank d = false := by
        have hfirst := List.head?_dropWhile_not isBlank cs
        unfold trimStart at hstart
        simpa [hstart] using hfirst
      have hhead := head_trimEnd hd (hstart ▸ rfl : (trimStart cs).head? = some d)
      rw [trim, hhead] at hc
      exact Option.some.inj hc ▸ hd
  last := not_endsBlank_trimEnd _

/-- Tightening a text is writing it behind an opening parenthesis: its ends are like the inside of
one. -/
lemma writeTight_open (cs : List Char) : writeTight ['('] false cs = '(' :: tightened cs := by
  obtain ⟨blanks, hblanks, hend⟩ := blanks_rest (trimStart cs)
  have hstart : cs = cs.takeWhile isBlank ++ trimStart cs := List.takeWhile_append_dropWhile.symm
  have hinner : writeTight ['('] false cs = writeTight ['('] false (trim cs) := by
    conv_lhs => rw [hstart, hend]
    rw [writeTight_behind, writeTight_blanks (blanks_takeWhile cs), writeTight_behind,
      writeTight_blanks hblanks]
    exact writeTight_opened rfl _ _ _
  rw [hinner, tightened]
  cases htrim : trim cs with
  | nil => rfl
  | cons c rest =>
    have hc : isBlank c = false := (trimmed_trim cs).head c (by rw [htrim]; rfl)
    have hopen : spaced ['('] false c = ['('] ++ spaced [] false c := rfl
    rw [writeTight_ink hc, writeTight_ink hc, hopen,
      writeTight_prefix _ _ (spaced_ne_nil _ _ _)]
    rfl

/-- Nor is it seen in the tight text. -/
lemma tightened_eq_of_respaced (h : Relation.ReflTransGen Respaced a b) :
    tightened a = tightened b := by
  induction h with
  | refl => rfl
  | tail _ hstep ih =>
    have hwritten : ['('].getLast? = some '(' := rfl
    have heq := hstep.writeTight_eq hwritten false
    rw [writeTight_open, writeTight_open] at heq
    exact ih.trans (List.cons.inj heq).2

lemma trim_trim (cs : List Char) : trim (trim cs) = trim cs :=
  trim_of_trimmed (trimmed_trim cs)

lemma tightened_tightened (h : cs.head? = some '@') : tightened (tightened cs) = tightened cs := by
  have hat : isBlank '@' = false := by decide
  rw [tightened, trim, trimStart_of_head hat (head_tightened h),
    trimEnd_of_not_endsBlank (tight_tightened cs).ends, (tight_tightened cs).fixed]

lemma parseText_trim (cs : List Char) : parseText (trim cs) = parseText cs := by
  unfold parseText
  rw [trim_trim]

lemma checkBalanced_eq_ok_iff : checkBalanced cs = .ok () ↔ imbalance? 0 cs = none := by
  unfold checkBalanced
  cases imbalance? 0 cs <;> simp

lemma toList_key (suffix rules : List Char) :
    (Condition.key ⟨textOf? suffix, textOf? rules⟩).toList = rules ++ suffix := by
  rw [Condition.key, String.toList_append, toList_textOf?, toList_textOf?]

/-- Tight at-rules and a suffix without blanks at its end are read as these. -/
lemma parseText_tightened {rules suffix : List Char} (hrules : IsRules rules)
    (hhead : rules.head? = some '@') (hsuffix : IsSuffix suffix) (hend : ¬EndsBlank suffix)
    (hlong : 1 < (tightened rules).length) :
    parseText (tightened rules ++ suffix) = .ok ⟨textOf? suffix, textOf? (tightened rules)⟩ := by
  have hopens := head_tightened hhead
  have htrim : trim (tightened rules ++ suffix) = tightened rules ++ suffix := by
    refine trim_of_trimmed ⟨fun c hc => ?_, ?_⟩
    · rw [List.head?_append, hopens, Option.some_or] at hc
      exact Option.some.inj hc ▸ (by decide)
    · rcases eq_or_ne suffix [] with rfl | hne
      · rw [List.append_nil]
        exact (tight_tightened rules).ends
      · rwa [endsBlank_append hne]
  have hparts : Parts (trim (tightened rules ++ suffix)) (tightened rules) suffix :=
    ⟨htrim, isRules_tightened hrules, hsuffix⟩
  rw [parseText_of_parts hparts, tightened_tightened hhead]
  exact ⟨.inr hlong, rfl⟩

lemma textOf?_of_ne_nil (h : cs ≠ []) : textOf? cs = some (String.ofList cs) :=
  if_neg (by simpa using h)

lemma tightened_ne_nil (h : cs.head? = some '@') : tightened cs ≠ [] := by
  intro hnil
  have hhead := head_tightened h
  rw [hnil] at hhead
  cases hhead

/-- What is read begins with at-rules, or it is all suffix. -/
lemma parts_of_parseText {c : Condition} (h : parseText cs = .ok c) :
    (∃ rules suffix, Parts (trim cs) rules suffix ∧ rules.head? = some '@' ∧
      1 < (tightened rules).length ∧ c = ⟨textOf? suffix, textOf? (tightened rules)⟩) ∨
    ((trim cs).head? ≠ some '@' ∧ c = ⟨textOf? (trim cs), none⟩) := by
  unfold parseText at h
  split at h
  · rename_i hnil
    cases h
    rw [hnil]
    exact .inr ⟨nofun, rfl⟩
  · rename_i rest hat
    dsimp only at h
    split at h
    · cases h
    · rename_i rules suffix hsplit
      obtain ⟨_, hrules, h⟩ := bind_eq_ok h
      obtain ⟨_, hsuffix, h⟩ := bind_eq_ok h
      have hhead := head_splitSuffix? hsplit
      obtain ⟨heq, hcolons, hcolon⟩ := splitSuffix?_parts hsplit
      split at h
      · cases h
      · rename_i hlong
        cases h
        refine .inl ⟨rules, suffix, ⟨hat.trans heq, ⟨.inr hhead, ?_, hcolons⟩, ?_, ?_⟩, hhead,
          Nat.not_le.1 hlong, ?_⟩
        · exact checkBalanced_eq_ok_iff.1 hrules
        · exact hcolon.imp_right And.left
        · exact checkBalanced_eq_ok_iff.1 hsuffix
        · rw [textOf?_of_ne_nil (tightened_ne_nil hhead)]
          rfl
  · rename_i hnil hat
    obtain ⟨_, _, h⟩ := bind_eq_ok h
    cases h
    refine .inr ⟨fun hhead => ?_, by rw [textOf?_of_ne_nil (by simpa using hnil)]⟩
    obtain ⟨rest, hrest⟩ := List.head?_eq_some_iff.1 hhead
    exact hat rest hrest

/-- The canonical text of a condition that was read is read as this condition. -/
lemma parseText_key {c : Condition} (h : parseText cs = .ok c) :
    parseText c.key.toList = .ok c := by
  rcases parts_of_parseText h with ⟨rules, suffix, hparts, hhead, hlong, rfl⟩ | ⟨_, rfl⟩
  · have hend : ¬EndsBlank suffix := by
      rcases eq_or_ne suffix [] with rfl | hne
      · exact (tight_tightened []).ends
      · have hlast := (trimmed_trim cs).last
        rwa [hparts.eq, endsBlank_append hne] at hlast
    rw [toList_key]
    exact parseText_tightened hparts.rules hhead hparts.suffix hend hlong
  · have hkey : (Condition.key ⟨textOf? (trim cs), none⟩).toList = trim cs :=
      toList_key (trim cs) []
    rw [hkey, parseText_trim, h]

lemma isBalanced_inked : IsBalanced (inked cs) ↔ IsBalanced cs := by
  rw [isBalanced_iff, isBalanced_iff, imbalance?_inked]

lemma IsBlanks.isBalanced_append (h : IsBlanks blanks) (cs : List Char) :
    IsBalanced (blanks ++ cs) ↔ IsBalanced cs := by
  rw [← isBalanced_inked, inked_append, inked_of_blanks h, List.nil_append, isBalanced_inked]

/-- Blanks in front open and close nothing. -/
lemma HidesColons.behind_blanks {back : List Char} (h : HidesColons (blanks ++ cs ++ back))
    (hblanks : IsBlanks blanks) : HidesColons cs := by
  rintro before c behind rfl hcolon hbalanced
  refine h (blanks ++ before) c (behind ++ back) (by simp) hcolon ?_
  exact (hblanks.isBalanced_append before).2 hbalanced

lemma append_trim (cs : List Char) :
    ∃ blanks, cs = cs.takeWhile isBlank ++ trim cs ++ blanks := by
  obtain ⟨blanks, _, hend⟩ := blanks_rest (trimStart cs)
  refine ⟨blanks, ?_⟩
  rw [List.append_assoc, trim, ← hend]
  exact List.takeWhile_append_dropWhile.symm

lemma IsRuleText.trim (h : IsRuleText cs) : IsRuleText (trim cs) where
  opens := by rw [trim_trim, h.opens]
  colons := by
    obtain ⟨blanks, hcs⟩ := append_trim cs
    have hcolons := h.colons
    rw [hcs] at hcolons
    exact hcolons.behind_blanks (blanks_takeWhile cs)

lemma trim_trimStart (cs : List Char) : Text.trim (trimStart cs) = Text.trim cs := by
  rw [Text.trim, trimStart, trimStart, List.dropWhile_idempotent]
  rfl

/-- The at-rules without the blanks in front of them. -/
lemma IsRuleText.isRules (h : IsRuleText cs) (hbalanced : IsBalanced cs) :
    IsRules (trimStart cs) := by
  have hcs : cs = cs.takeWhile isBlank ++ trimStart cs ++ [] := by
    rw [List.append_nil]
    exact List.takeWhile_append_dropWhile.symm
  have hcolons := h.colons
  rw [hcs] at hcolons
  refine isRules_of_isBalanced ?_ ?_ (hcolons.behind_blanks (blanks_takeWhile cs))
  · obtain ⟨blanks, _, hend⟩ := blanks_rest (trimStart cs)
    have hopens := h.opens
    rw [Text.trim] at hopens
    rw [hend, List.head?_append, hopens, Option.some_or]
  · rw [hcs, List.append_nil] at hbalanced
    exact ((blanks_takeWhile cs).isBalanced_append _).1 hbalanced

lemma tightened_trim (cs : List Char) : tightened (Text.trim cs) = tightened cs := by
  rw [tightened, trim_trim, tightened]

/-- Which at-rules are read, and as what, is seen in the tight text. -/
lemma IsRuleText.parseText_eq_ok_iff (h : IsRuleText cs) {c : Condition} :
    parseText cs = .ok c ↔ IsBalanced (tightened cs) ∧ 1 < (tightened cs).length ∧
      c = ⟨none, some (String.ofList (tightened cs))⟩ := by
  have hrule : textOf? (tightened cs) = some (String.ofList (tightened cs)) := by
    rw [← tightened_trim]
    exact textOf?_of_ne_nil (tightened_ne_nil h.opens)
  have hbalanced : IsBalanced (tightened cs) ↔ IsBalanced (Text.trim cs) := by
    rw [← isBalanced_inked, inked_tightened, ← inked_trim, isBalanced_inked]
  rw [hbalanced]
  constructor
  · intro hparse
    rcases parts_of_parseText hparse with ⟨rules, suffix, hparts, _, hlong, rfl⟩ | ⟨hhead, _⟩
    · obtain rfl : suffix = [] := by
        refine hparts.suffix.opens.resolve_right fun hcolon => ?_
        obtain ⟨back, rfl⟩ := List.head?_eq_some_iff.1 hcolon
        exact h.trim.colons _ _ _ hparts.eq rfl (isBalanced_iff.2 hparts.rules.balanced)
      obtain rfl : Text.trim cs = rules := by rw [hparts.eq, List.append_nil]
      rw [tightened_trim] at hlong ⊢
      exact ⟨isBalanced_iff.2 hparts.rules.balanced, hlong, by rw [hrule]; rfl⟩
    · exact (hhead h.opens).elim
  · rintro ⟨htrim, hlong, rfl⟩
    have hparts : Parts (Text.trim cs) (Text.trim cs) [] :=
      ⟨(List.append_nil _).symm, isRules_of_isBalanced h.opens htrim h.trim.colons, isSuffix_nil⟩
    rw [parseText_of_parts hparts, tightened_trim, hrule]
    exact ⟨.inr hlong, rfl⟩

lemma one_lt_length_tightened (hhead : (Text.trim cs).head? = some '@')
    (hmore : ∃ c ∈ (Text.trim cs).tail, isBlank c = false) : 1 < (tightened cs).length := by
  obtain ⟨rest, hrest⟩ := List.head?_eq_some_iff.1 hhead
  obtain ⟨c, hc, hink⟩ := hmore
  have hinked : inked (tightened cs) = '@' :: inked rest := by
    rw [inked_tightened, ← inked_trim, hrest, inked_cons (by decide)]
  have hmem : c ∈ inked rest := by
    rw [hrest] at hc
    exact List.mem_filter.2 ⟨hc, by simp [hink]⟩
  have hlong : 0 < (inked rest).length := List.length_pos_of_mem hmem
  have hle : (inked (tightened cs)).length ≤ (tightened cs).length := List.length_filter_le _ _
  rw [hinked, List.length_cons] at hle
  omega

/-- At-rules and a suffix behind them are taken apart again. -/
lemma IsRuleText.parseText_append {suffix : List Char} (h : IsRuleText cs)
    (hbalanced : IsBalanced cs) (hmore : ∃ c ∈ (Text.trim cs).tail, isBlank c = false)
    (hhead : suffix.head? = some ':') (hsuffix : IsBalanced suffix) (hend : ¬EndsBlank suffix) :
    parseText (cs ++ suffix) =
      .ok ⟨some (String.ofList suffix), some (String.ofList (tightened cs))⟩ := by
  have hne : suffix ≠ [] := by
    rintro rfl
    cases hhead
  have hrules := h.isRules hbalanced
  have hopen : trimStart cs ≠ [] := by
    intro hnil
    have hopens := h.opens
    rw [Text.trim, hnil] at hopens
    cases hopens
  have htrim : Text.trim (cs ++ suffix) = trimStart cs ++ suffix := by
    rw [trim_of_not_endsBlank (by rwa [endsBlank_append hne]), trimStart,
      List.dropWhile_append, if_neg (by simpa [trimStart] using hopen)]
    rfl
  have hparts : Parts (Text.trim (cs ++ suffix)) (trimStart cs) suffix :=
    ⟨htrim, hrules, isSuffix_of_isBalanced hhead hsuffix⟩
  have htight : tightened (trimStart cs) = tightened cs := by
    rw [tightened, trim_trimStart, tightened]
  have hlong := one_lt_length_tightened h.opens hmore
  have hrule : tightened cs ≠ [] := List.ne_nil_of_length_pos (by omega)
  rw [parseText_of_parts hparts, htight, textOf?_of_ne_nil hne, textOf?_of_ne_nil hrule]
  exact ⟨.inr hlong, rfl⟩

end

/-- Reading is stable, and undoes the writing of at-rules with a suffix behind them. The canonical
text of a condition is read as the condition. At-rules that close what they open, and more than a
bare `@`, are tightened, and a suffix that follows them is taken as it stands. Of at-rules that
differ in blanks that mean nothing, one is read exactly if the other is, and as the same. -/
theorem parse_canonical :
    (∀ {written : String} {c : Condition}, parse written = .ok c → parse c.key = .ok c) ∧
    (∀ {rule suffix : String}, IsRuleText rule.toList → IsBalanced rule.toList →
      (∃ c ∈ (trim rule.toList).tail, isBlank c = false) → suffix.toList.head? = some ':' →
      IsBalanced suffix.toList → ¬EndsBlank suffix.toList →
      parse (rule ++ suffix) =
        .ok ⟨some suffix, some (String.ofList (tightened rule.toList))⟩) ∧
    ∀ {rule other : String}, IsRuleText rule.toList → IsRuleText other.toList →
      Relation.ReflTransGen Respaced rule.toList other.toList →
      ∀ c, parse rule = .ok c ↔ parse other = .ok c := by
  refine ⟨parseText_key, ?_, ?_⟩
  · intro rule suffix hrule hbalanced hmore hhead hsuffix hend
    have hparse := hrule.parseText_append hbalanced hmore hhead hsuffix hend
    rw [String.ofList_toList] at hparse
    rw [parse, String.toList_append, hparse]
  · intro rule other hrule hother hspaced c
    rw [parse, parse, hrule.parseText_eq_ok_iff, hother.parseText_eq_ok_iff,
      tightened_eq_of_respaced hspaced]

/-- A rule with more blanks than it needs, read with a suffix and without. -/
theorem parse_canonical_media :
    parse ("@media ( print )" ++ ":hover") = .ok ⟨some ":hover", some "@media (print)"⟩ ∧
      parse "@media (print):hover" = .ok ⟨some ":hover", some "@media (print)"⟩ ∧
      ∀ c, parse "@media (print)" = .ok c ↔ parse "@media ( print )" = .ok c := by
  have htight : String.ofList (tightened "@media ( print )".toList) = "@media (print)" := by decide
  have hread : parse ("@media ( print )" ++ ":hover") =
      .ok ⟨some ":hover", some "@media (print)"⟩ := by
    have hend : ¬EndsBlank ":hover".toList := by
      rintro ⟨c, hlast, hblank⟩
      obtain rfl : 'r' = c := Option.some.inj hlast
      cases hblank
    rw [← htight]
    exact parse_canonical.2.1 (by decide) (by decide) ⟨'m', by decide⟩ rfl (by decide) hend
  refine ⟨hread, parse_canonical.1 hread, parse_canonical.2.2 (by decide) (by decide) ?_⟩
  have hblank : IsBlanks [' '] := by decide
  have hnone : IsBlanks [] := by decide
  exact (Relation.ReflTransGen.single (.opened "@media ".toList "print)".toList hnone hblank)).tail
    (.closing "@media ( print".toList [] hnone hblank)

end AtomicCss.Proofs
