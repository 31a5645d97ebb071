import AtomicCss.Proofs.Flatten
import AtomicCss.Proofs.PseudoElementParts
import AtomicCss.Proofs.Tokens
import AtomicCss.Class.Rule

/-!
# Characters of conditions

The parts of a condition are made of the characters of the keys that it was composed from, and of
spaces. The at-rules begin with an `@`.
-/

namespace AtomicCss.Proofs

open Condition Declaration

section

variable {P : Char → Prop}

lemma splitSuffix?_subset {cs atRule suffix : List Char} {depth : Nat}
    (h : splitSuffix? depth cs = some (atRule, suffix)) : atRule ⊆ cs ∧ suffix ⊆ cs := by
  induction cs generalizing depth atRule with
  | nil =>
    cases h
    exact ⟨List.nil_subset _, List.nil_subset _⟩
  | cons c cs ih =>
    have hkeep : ∀ {depth},
        ((splitSuffix? depth cs).map fun (parts : List Char × List Char) =>
          (c :: parts.1, parts.2)) = some (atRule, suffix) →
        atRule ⊆ c :: cs ∧ suffix ⊆ c :: cs := by
      intro depth h
      obtain ⟨⟨front, back⟩, hparts, heq⟩ := Option.map_eq_some_iff.1 h
      cases heq
      obtain ⟨hfront, hback⟩ := ih hparts
      exact ⟨List.cons_subset_cons c hfront, List.subset_cons_of_subset c hback⟩
    unfold splitSuffix? at h
    dsimp only at h
    split at h
    · exact hkeep h
    · split at h
      · split at h
        · cases h
        · exact hkeep h
      · split at h
        · cases h
          exact ⟨List.nil_subset _, List.Subset.refl _⟩
        · exact hkeep h

lemma forall_writeTight (hspace : P ' ') (cs : List Char) : ∀ {written : List Char}
    {pending : Bool}, (∀ c ∈ written, P c) → (∀ c ∈ cs, P c) →
    ∀ c ∈ writeTight written pending cs, P c := by
  induction cs with
  | nil => exact fun hwritten _ => hwritten
  | cons d ds ih =>
    intro written pending hwritten hcs
    have hd : P d := hcs d List.mem_cons_self
    have hds : ∀ c ∈ ds, P c := fun c hc => hcs c (List.mem_cons_of_mem _ hc)
    have hbehind : ∀ {more : List Char}, (∀ c ∈ more, P c) → ∀ c ∈ written ++ more, P c := by
      intro more hmore c hc
      rcases List.mem_append.1 hc with hc | hc
      · exact hwritten c hc
      · exact hmore c hc
    unfold writeTight
    split
    · exact ih hwritten hds
    · split
      · refine ih (hbehind ?_) hds
        simp [hspace, hd]
      · refine ih (hbehind ?_) hds
        simp [hd]

lemma forall_parse (hspace : P ' ') {written : String} {condition : Condition}
    (h : parse written = .ok condition) (hwritten : ∀ c ∈ written.toList, P c) :
    (∀ s, condition.suffix = some s → ∀ c ∈ s.toList, P c) ∧
      ∀ s, condition.atRule = some s → ∀ c ∈ s.toList, P c := by
  have htrim : ∀ c ∈ Text.trim written.toList, P c := fun c hc =>
    hwritten c (trim_subset _ hc)
  unfold parse parseText at h
  split at h
  · cases h
    constructor <;> intro _ hs <;> cases hs
  · rename_i rest heq
    dsimp only at h
    split at h
    · cases h
    · rename_i atRule suffix hsplit
      obtain ⟨hrule, hsuffix⟩ := splitSuffix?_subset hsplit
      rw [← heq] at hrule hsuffix
      obtain ⟨_, _, h⟩ := bind_eq_ok h
      obtain ⟨_, _, h⟩ := bind_eq_ok h
      split at h
      · cases h
      · cases h
        constructor
        · intro s hs c hc
          dsimp only at hs
          split at hs
          · cases hs
          · cases hs
            rw [String.toList_ofList] at hc
            exact htrim c (hsuffix hc)
        · intro s hs
          cases hs
          rw [String.toList_ofList]
          refine forall_writeTight hspace _ (List.forall_mem_nil _) fun c hc => ?_
          exact htrim c (hrule (trim_subset _ hc))
  · obtain ⟨_, _, h⟩ := bind_eq_ok h
    cases h
    refine ⟨fun s hs => ?_, fun s hs => by cases hs⟩
    cases hs
    rw [String.toList_ofList]
    exact htrim

lemma forall_compose (hspace : P ' ') {parent key composed : String}
    (h : compose parent key = .ok composed) (hparent : ∀ c ∈ parent.toList, P c)
    (hkey : ∀ c ∈ key.toList, P c) : ∀ c ∈ composed.toList, P c := by
  have hpart : ∀ {part : Option String}, (∀ s, part = some s → ∀ c ∈ s.toList, P c) →
      ∀ c ∈ (part.getD "").toList, P c := by
    intro part h
    cases part with
    | none => exact nofun
    | some s => exact h s rfl
  unfold compose at h
  split at h
  · obtain ⟨condition, hcondition, rfl⟩ := map_eq_ok h
    obtain ⟨hsuffix, hrule⟩ := forall_parse hspace hcondition hparent
    intro c hc
    simp only [String.toList_append, List.mem_append] at hc
    rcases hc with (hc | hc) | hc
    · exact hpart hrule c hc
    · exact hkey c hc
    · exact hpart hsuffix c hc
  · cases h
    unfold join
    split
    · exact hparent
    · intro c hc
      rw [String.toList_append] at hc
      rcases List.mem_append.1 hc with hc | hc
      · exact hparent c hc
      · exact hkey c hc

end

lemma findPseudoElement?_subset {depth : Nat} {cs before pseudo rest : List Char}
    (h : findPseudoElement? depth cs = some (before, pseudo, rest)) : pseudo ⊆ cs := by
  rcases findPseudoElement?_cases cs depth with ⟨hnone, _⟩ | ⟨front, name, back, hsome, hcolons⟩
  · rw [hnone] at h
    cases h
  · rw [hsome] at h
    cases h
    rw [hcolons.whole]
    refine List.subset_append_of_subset_right _ ?_
    exact List.cons_subset_cons _ (List.cons_subset_cons _ (List.subset_append_left _ _))

lemma pseudoElementOf?_subset {suffix : Option String} {pseudo : String}
    (h : pseudoElementOf? suffix = some pseudo) :
    ∃ s, suffix = some s ∧ pseudo.toList ⊆ s.toList := by
  obtain ⟨s, hs, h⟩ := Option.bind_eq_some_iff.1 h
  refine ⟨s, hs, ?_⟩
  unfold splitPseudoElement at h
  split at h
  · rename_i hfound
    cases h
    rw [String.toList_ofList]
    exact findPseudoElement?_subset hfound
  · cases h

/-- A text keeps its first character when it is trimmed, unless that is a blank. -/
lemma head_trim {c : Char} (hc : Text.isBlank c = false) (cs : List Char) :
    (Text.trim (c :: cs)).head? = some c := by
  have hstart : Text.trimStart (c :: cs) = c :: cs :=
    List.dropWhile_cons_of_neg (by simp [hc])
  obtain ⟨blanks, hend, hblanks⟩ := trimEnd_append (c :: cs)
  rw [Text.trim, hstart]
  cases htrim : Text.trimEnd (c :: cs) with
  | nil =>
    rw [htrim, List.nil_append] at hend
    rw [hblanks c (hend ▸ List.mem_cons_self)] at hc
    cases hc
  | cons d ds =>
    rw [htrim, List.cons_append] at hend
    rw [List.head?_cons, (List.cons.inj hend).1]

lemma head_writeTight (cs : List Char) {c : Char} : ∀ {written : List Char} {pending : Bool},
    written.head? = some c → (writeTight written pending cs).head? = some c := by
  induction cs with
  | nil => exact id
  | cons d ds ih =>
    intro written pending hwritten
    have hbehind : ∀ more, (written ++ more).head? = some c := by
      intro more
      rw [List.head?_append, hwritten, Option.some_or]
    unfold writeTight
    split
    · exact ih hwritten
    · split
      · exact ih (hbehind _)
      · exact ih (hbehind _)

lemma head_splitSuffix? {cs atRule suffix : List Char}
    (h : splitSuffix? 0 ('@' :: cs) = some (atRule, suffix)) :
    atRule.head? = some '@' := by
  have hkeep : splitSuffix? 0 ('@' :: cs) =
      (splitSuffix? 0 cs).map fun parts => ('@' :: parts.1, parts.2) := rfl
  rw [hkeep] at h
  obtain ⟨parts, _, heq⟩ := Option.map_eq_some_iff.1 h
  cases heq
  rfl

lemma head_tightened {cs : List Char} (h : cs.head? = some '@') :
    (tightened cs).head? = some '@' := by
  obtain ⟨rest, rfl⟩ := List.head?_eq_some_iff.1 h
  obtain ⟨more, hmore⟩ := List.head?_eq_some_iff.1 (head_trim (c := '@') (by decide) rest)
  rw [tightened, hmore]
  have hopen : (['@'] : List Char).head? = some '@' := rfl
  exact head_writeTight more hopen

/-- The at-rules of a condition that was read begin with an `@`. -/
lemma head_of_parse {written text : String} {condition : Condition}
    (h : parse written = .ok condition) (hrule : condition.atRule = some text) :
    text.toList.head? = some '@' := by
  unfold parse parseText at h
  split at h
  · cases h
    cases hrule
  · dsimp only at h
    split at h
    · cases h
    · rename_i atRule suffix hsplit
      obtain ⟨_, _, h⟩ := bind_eq_ok h
      obtain ⟨_, _, h⟩ := bind_eq_ok h
      split at h
      · cases h
      · cases h
        cases hrule
        rw [String.toList_ofList]
        exact head_tightened (head_splitSuffix? hsplit)
  · obtain ⟨_, _, h⟩ := bind_eq_ok h
    cases h
    cases hrule

end AtomicCss.Proofs
