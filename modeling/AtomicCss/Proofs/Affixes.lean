import AtomicCss.Text.Affix
import Mathlib.Data.List.Infix
import Mathlib.Tactic.Common

/-!
# Beginnings, ends and parts of texts

What is cut off a text is found at its beginning, at its end or behind the first separator, and
what is looked for in a text is a part of it.
-/

namespace AtomicCss.Proofs

open Text

lemma isPrefixOf?_eq_none {start cs : List Char} (h : ¬start <+: cs) :
    start.isPrefixOf? cs = none := by
  cases hsome : start.isPrefixOf? cs with
  | none => rfl
  | some rest => exact (h ⟨rest, List.append_eq_of_isPrefixOf?_eq_some hsome⟩).elim

lemma isSuffixOf?_eq_none {last cs : List Char} (h : ¬last <:+ cs) :
    last.isSuffixOf? cs = none := by
  cases hsome : last.isSuffixOf? cs with
  | none => rfl
  | some body => exact (h ⟨body, List.append_eq_of_isSuffixOf?_eq_some hsome⟩).elim

/-- A text is split at the first separator. -/
lemma splitOnce?_eq_some {sep : Char} {cs before after : List Char}
    (h : splitOnce? sep cs = some (before, after)) :
    cs = before ++ sep :: after ∧ sep ∉ before := by
  induction cs generalizing before with
  | nil => cases h
  | cons c cs ih =>
    rw [splitOnce?] at h
    by_cases hc : c = sep
    · rw [if_pos hc] at h
      cases h
      exact ⟨congrArg (· :: after) hc, List.not_mem_nil⟩
    · rw [if_neg hc] at h
      obtain ⟨⟨front, back⟩, hrest, heq⟩ := Option.map_eq_some_iff.1 h
      cases heq
      obtain ⟨hfront, hnot⟩ := ih hrest
      exact ⟨congrArg (c :: ·) hfront, List.not_mem_cons_of_ne_of_not_mem (Ne.symm hc) hnot⟩

lemma splitOnce?_subset {sep : Char} {cs before after : List Char}
    (h : splitOnce? sep cs = some (before, after)) : before ⊆ cs ∧ after ⊆ cs := by
  obtain ⟨rfl, _⟩ := splitOnce?_eq_some h
  refine ⟨List.subset_append_left _ _, fun c hc => ?_⟩
  exact List.mem_append_right _ (List.mem_cons_of_mem _ hc)

lemma splitOnce?_of_not_mem {cs : List Char} {sep : Char} (h : sep ∉ cs) :
    splitOnce? sep cs = none := by
  induction cs with
  | nil => rfl
  | cons c cs ih =>
    obtain ⟨hc, hcs⟩ := List.ne_and_not_mem_of_not_mem_cons h
    rw [splitOnce?, if_neg (Ne.symm hc), ih hcs]
    rfl

lemma splitOnce?_append {before : List Char} {sep : Char} (h : sep ∉ before) (after : List Char) :
    splitOnce? sep (before ++ sep :: after) = some (before, after) := by
  induction before with
  | nil => simp [splitOnce?]
  | cons c cs ih =>
    obtain ⟨hc, hcs⟩ := List.ne_and_not_mem_of_not_mem_cons h
    rw [List.cons_append, splitOnce?, if_neg (Ne.symm hc), ih hcs]
    rfl

section

variable {value part cs : List Char}

lemma occursIn_iff : occursIn part cs = true ↔ part <:+: cs := by
  induction cs with
  | nil => simp [occursIn]
  | cons c cs ih =>
    rw [occursIn, Bool.or_eq_true, ih, List.isPrefixOf_iff_prefix, List.infix_cons_iff]

/-- A text whose last character is not in a tail does not reach into it. -/
lemma occursIn_append {c : Char} {tail : List Char} (hc : c ∉ tail) (front : List Char) :
    occursIn (front ++ [c]) (value ++ tail) = occursIn (front ++ [c]) value := by
  rw [Bool.eq_iff_iff, occursIn_iff, occursIn_iff]
  constructor
  · rintro ⟨before, behind, heq⟩
    rcases List.append_eq_append_iff.1 heq with ⟨rest, hvalue, _⟩ | ⟨rest, hfront, htail⟩
    · exact ⟨before, rest, hvalue.symm⟩
    · cases hrest : rest with
      | nil =>
        rw [hrest, List.append_nil] at hfront
        exact ⟨before, [], by rw [hfront, List.append_nil]⟩
      | cons d ds =>
        -- the last character of the text would be one of the tail
        have hlast := congrArg List.getLast? hfront
        rw [← List.append_assoc, List.getLast?_concat, hrest,
          List.getLast?_append_of_ne_nil _ (List.cons_ne_nil _ _)] at hlast
        have hmem : c ∈ d :: ds := List.mem_of_mem_getLast? hlast.symm
        rw [hrest] at htail
        exact (hc (htail ▸ List.mem_append_left _ hmem)).elim
  · exact fun h => h.trans (List.prefix_append _ _).isInfix

end

end AtomicCss.Proofs
