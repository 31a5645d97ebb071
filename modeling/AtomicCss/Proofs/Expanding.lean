import AtomicCss.Proofs.ClassEntries
import AtomicCss.Proofs.Splitting

/-!
# Values of expanded shorthands

The longhands of an expanded shorthand get words of its value or keywords, so what holds of the
value's words and of plain words holds of their values.
-/

namespace AtomicCss.Proofs

open Expansion Declaration

section

variable {Q : List Char → Prop}

lemma sides?_forall {words values : List (List Char)} (h : sides? words = some values)
    (hwords : ∀ w ∈ words, Q w) : ∀ v ∈ values, Q v := by
  unfold sides? at h
  split at h <;> cases h <;> simp_all

/-- The parts of a line that were found satisfy `Q`. -/
def LineForall (Q : List Char → Prop) (line : Line) : Prop :=
  (∀ w, line.width = some w → Q w) ∧ (∀ w, line.style = some w → Q w) ∧
    ∀ w, line.color = some w → Q w

lemma lineFrom?_forall {words : List (List Char)} {line result : Line}
    (h : lineFrom? line words = some result) (hwords : ∀ w ∈ words, Q w)
    (hline : LineForall Q line) : LineForall Q result := by
  induction words generalizing line with
  | nil =>
    cases h
    exact hline
  | cons word words ih =>
    have hword : ∀ w, some word = some w → Q w := by
      intro w hw
      cases hw
      exact hwords word List.mem_cons_self
    have hrest : ∀ w ∈ words, Q w := fun w hw => hwords w (List.mem_cons_of_mem _ hw)
    obtain ⟨hwidth, hstyle, hcolor⟩ := hline
    unfold lineFrom? at h
    split at h
    · split at h
      · cases h
      · exact ih h hrest ⟨hwidth, hword, hcolor⟩
    · split at h
      · split at h
        · cases h
        · exact ih h hrest ⟨hword, hstyle, hcolor⟩
      · split at h
        · cases h
        · exact ih h hrest ⟨hwidth, hstyle, hword⟩

/-- The words that expansions put in. -/
def keywords : List (List Char) :=
  ["medium".toList, "none".toList, "currentcolor".toList, "auto".toList, ['0'], ['1'], ['0', '%']]

variable (hkeywords : ∀ w ∈ keywords, Q w)

include hkeywords

lemma line?_forall {words values : List (List Char)} (h : line? words = some values)
    (hwords : ∀ w ∈ words, Q w) : ∀ v ∈ values, Q v := by
  have hinitial : ∀ line, LineForall Q line → ∀ v ∈ [line.width.getD "medium".toList,
      line.style.getD "none".toList, line.color.getD "currentcolor".toList], Q v := by
    rintro ⟨width, style, color⟩ ⟨hwidth, hstyle, hcolor⟩ v hv
    have hpart : ∀ (part : Option (List Char)) (default : List Char),
        (∀ w, part = some w → Q w) → Q default → Q (part.getD default) := by
      intro part default hpart hdefault
      cases part with
      | none => exact hdefault
      | some w => exact hpart w rfl
    simp only [List.mem_cons, List.not_mem_nil, or_false] at hv
    rcases hv with rfl | rfl | rfl
    · exact hpart _ _ hwidth (hkeywords _ (by simp [keywords]))
    · exact hpart _ _ hstyle (hkeywords _ (by simp [keywords]))
    · exact hpart _ _ hcolor (hkeywords _ (by simp [keywords]))
  unfold line? at h
  dsimp only at h
  split at h
  · cases h
  · split at h
    · cases h
      exact hinitial ⟨none, none, none⟩ ⟨nofun, nofun, nofun⟩
    · obtain ⟨line, hline, rfl⟩ := Option.map_eq_some_iff.1 h
      exact hinitial line (lineFrom?_forall hline hwords ⟨nofun, nofun, nofun⟩)

lemma flex?_forall {words values : List (List Char)} (h : flex? words = some values)
    (hwords : ∀ w ∈ words, Q w) : ∀ v ∈ values, Q v := by
  have hauto : Q ['a', 'u', 't', 'o'] := hkeywords _ (by simp [keywords])
  have hzero : Q ['0'] := hkeywords _ (by simp [keywords])
  have hone : Q ['1'] := hkeywords _ (by simp [keywords])
  have hpercent : Q ['0', '%'] := hkeywords _ (by simp [keywords])
  unfold flex? at h
  split at h
  · have hword := hwords _ List.mem_cons_self
    split at h
    · cases h
      simp [hauto, hzero]
    · split at h
      · cases h
        simp [hauto, hone]
      · split at h
        · cases h
          simp [hauto, hone, hzero]
        · split at h
          · cases h
            simp [hword, hone, hpercent]
          · cases h
            simp [hword, hone]
  · split at h
    · split at h
      · cases h
        simp_all
      · cases h
        simp_all
    · cases h
  · split at h
    · cases h
      simp_all
    · cases h
  · cases h

lemma values?_forall {form : Form} {body : List Char} {values : List (List Char)}
    (h : values? form body = some values)
    (hwords : ∀ sep, sep = ' ' ∨ sep = '/' → ∀ w ∈ Text.splitTopLevel sep body, Q w) :
    ∀ v ∈ values, Q v := by
  have hspaces := hwords ' ' (.inl rfl)
  have hslashes := hwords '/' (.inr rfl)
  have hauto : Q "auto".toList := hkeywords _ (by simp [keywords])
  cases form with
  | sides =>
    unfold values? at h
    dsimp only at h
    split at h
    · cases h
    · exact sides?_forall h hspaces
  | pair =>
    unfold values? at h
    dsimp only at h
    split at h <;> cases h <;> simp_all
  | span =>
    unfold values? at h
    dsimp only at h
    split at h <;> cases h <;> simp_all
  | line => exact line?_forall hkeywords h hspaces
  | border =>
    obtain ⟨parts, hparts, rfl⟩ := Option.map_eq_some_iff.1 h
    intro v hv
    obtain ⟨part, hpart, hv⟩ := List.mem_flatMap.1 hv
    rw [List.eq_of_mem_replicate hv]
    exact line?_forall hkeywords hparts hspaces part hpart
  | flex => exact flex?_forall hkeywords h hspaces

end

/-- A shorthand has its form and the longhands that it expands to from one row of the table. -/
lemma mem_expansions {property : String} {targets : List String}
    (h : targets? property = some targets) :
    ∃ form, form? property = some form ∧ (property, form, targets) ∈ expansions := by
  obtain ⟨⟨form, _⟩, hrow, rfl⟩ := Option.map_eq_some_iff.1 h
  refine ⟨form, by rw [form?, hrow]; rfl, ?_⟩
  obtain ⟨front, back, heq, _⟩ := List.lookup_eq_some_iff.1 hrow
  rw [heq]
  exact List.mem_append_right front List.mem_cons_self

/-- Form and longhands that were looked up one by one are of the same row. -/
lemma row_mem_expansions {property : String} {form : Form} {targets : List String}
    (hform : form? property = some form) (htargets : targets? property = some targets) :
    (property, form, targets) ∈ expansions := by
  obtain ⟨other, hother, hrow⟩ := mem_expansions htargets
  rw [hform] at hother
  cases hother
  exact hrow

lemma exists_targets {property : String} {form : Form} (h : form? property = some form) :
    ∃ targets, targets? property = some targets := by
  obtain ⟨row, hrow, _⟩ := Option.map_eq_some_iff.1 h
  exact ⟨row.2, by rw [targets?, hrow]; rfl⟩

/-- What stands in front of an `!important` is split into values, which are given to the longhands
in their order, each with the mark again. -/
lemma expand?_zip {property value : String} {parts : List (String × String)}
    (h : expand? property value = some parts) :
    ∃ form body mark values targets, form? property = some form ∧
      values? form body = some values ∧ targets? property = some targets ∧
      (value.toList = body ∧ ¬important <:+ body ∧ mark = [] ∨
        ∃ front, value.toList = front ++ important ∧ body = Text.trimEnd front ∧
          mark = important) ∧
      parts = targets.zip (values.map fun v => String.ofList (v ++ mark)) := by
  unfold expand? at h
  obtain ⟨form, hform, h⟩ := Option.bind_eq_some_iff.1 h
  dsimp only at h
  split at h
  · cases h
  · obtain ⟨values, hvalues, h⟩ := Option.bind_eq_some_iff.1 h
    obtain ⟨targets, htargets, h⟩ := Option.bind_eq_some_iff.1 h
    cases h
    cases hfront : important.isSuffixOf? value.toList with
    | none =>
      rw [hfront] at hvalues
      have hnone : ¬important <:+ value.toList := by
        rintro ⟨front, heq⟩
        rw [List.isSuffixOf?_eq_some_iff_append_eq.2 heq] at hfront
        cases hfront
      exact ⟨form, _, _, values, targets, hform, hvalues, htargets, .inl ⟨rfl, hnone, rfl⟩, rfl⟩
    | some front =>
      rw [hfront] at hvalues
      have heq := (List.append_eq_of_isSuffixOf?_eq_some hfront).symm
      exact ⟨form, _, _, values, targets, hform, hvalues, htargets, .inr ⟨front, heq, rfl, rfl⟩,
        rfl⟩

/-- Each part of an expansion has the name of a longhand and one of the values. -/
lemma expand?_parts {property value : String} {parts : List (String × String)}
    (h : expand? property value = some parts) :
    ∃ form body mark values, values? form body = some values ∧
      (value.toList = body ∧ mark = [] ∨
        ∃ front, value.toList = front ++ important ∧ body = Text.trimEnd front ∧
          mark = important) ∧
      ∀ part ∈ parts, (∃ targets, targets? property = some targets ∧ part.1 ∈ targets) ∧
        ∃ v ∈ values, part.2 = String.ofList (v ++ mark) := by
  obtain ⟨form, body, mark, values, targets, _, hvalues, htargets, hbody, rfl⟩ := expand?_zip h
  refine ⟨form, body, mark, values, hvalues, hbody.imp_left fun h => ⟨h.1, h.2.2⟩, ?_⟩
  rintro ⟨target, text⟩ hpart
  obtain ⟨htarget, htext⟩ := List.of_mem_zip hpart
  obtain ⟨v, hv, rfl⟩ := List.mem_map.1 htext
  exact ⟨⟨targets, htargets, htarget⟩, v, hv, rfl⟩

lemma inert_important : ∀ c ∈ important, IsInert c := by
  decide

lemma sealed_expand? {property value : String} {parts : List (String × String)}
    (h : expand? property value = some parts) (hsealed : Sealed value.toList)
    (hbackslash : '\\' ∉ value.toList) : ∀ part ∈ parts, Sealed part.2.toList := by
  have hkeywords : ∀ w ∈ keywords, Sealed w := by
    have hquiet : ∀ w ∈ keywords, ∀ c ∈ w, IsQuiet c := by decide
    exact fun w hw => (balanced_of_quiet (hquiet w hw)).sealed
  obtain ⟨form, body, mark, values, hvalues, hbody, hparts⟩ := expand?_parts h
  have hfront : Sealed body ∧ '\\' ∉ body ∧ ∀ v, Sealed v → Sealed (v ++ mark) := by
    rcases hbody with ⟨rfl, rfl⟩ | ⟨front, heq, rfl, rfl⟩
    · exact ⟨hsealed, hbackslash, fun v hv => by rwa [List.append_nil]⟩
    · rw [heq] at hsealed hbackslash
      have hnone : '\\' ∉ front := fun hmem => hbackslash (List.mem_append_left _ hmem)
      have hfront := hsealed.of_append hnone inert_important
      refine ⟨hfront.trimEnd hnone, fun hmem => hnone (trimEnd_subset _ hmem), fun v hv => ?_⟩
      refine hv.append (level_of_quiet ?_ ?_)
      · decide
      · decide
  obtain ⟨hfront, hnone, hmark⟩ := hfront
  have hsplit := values?_forall hkeywords hvalues fun sep hsep =>
    sealed_splitTopLevel hsep hfront hnone
  intro part hpart
  obtain ⟨_, v, hv, heq⟩ := hparts part hpart
  rw [heq, String.toList_ofList]
  exact hmark v (hsplit v hv)

lemma forall_expand? {P : Char → Prop} (hP : Common P) {property value : String}
    {parts : List (String × String)} (h : expand? property value = some parts)
    (hvalue : ∀ c ∈ value.toList, P c) : ∀ part ∈ parts, ∀ c ∈ part.2.toList, P c := by
  have hkeywords : ∀ w ∈ keywords, ∀ c ∈ w, P c := by
    have hcommon : ∀ w ∈ keywords, ∀ c ∈ w, IsCommon c := by decide
    exact fun w hw => hP.forall_mem (hcommon w hw)
  obtain ⟨form, body, mark, values, hvalues, hbody, hparts⟩ := expand?_parts h
  have hfront : (∀ c ∈ body, P c) ∧ ∀ c ∈ mark, P c := by
    rcases hbody with ⟨rfl, rfl⟩ | ⟨front, heq, rfl, rfl⟩
    · exact ⟨hvalue, List.forall_mem_nil _⟩
    · refine ⟨fun c hc => hvalue c ?_, hP.forall_mem (by decide)⟩
      rw [heq]
      exact List.mem_append_left _ (trimEnd_subset front hc)
  have hsplit := values?_forall (Q := fun w => ∀ c ∈ w, P c) hkeywords hvalues
    fun sep _ w hw c hc => hfront.1 c (splitTopLevel_subset w hw hc)
  intro part hpart c hc
  obtain ⟨_, v, hv, heq⟩ := hparts part hpart
  rw [heq, String.toList_ofList] at hc
  rcases List.mem_append.1 hc with hc | hc
  · exact hsplit v hv c hc
  · exact hfront.2 c hc

/-- Under the shorthand policy a declaration stays as it is, or its only value is expanded. -/
lemma underPolicy_cases {config : Config} {property : String} {value : Normalized}
    {part : String × Normalized} (h : part ∈ underPolicy config property value) :
    part = (property, value) ∨
      config.shorthands = .flatten ∧ Property.isShorthand property = true ∧
        ∃ text parts, value.values = [text] ∧ expand? property text = some parts ∧
          ∃ item ∈ parts, part = (item.1, ⟨[item.2]⟩) := by
  unfold underPolicy at h
  split at h
  · rename_i hpolicy
    simp only [Bool.and_eq_true, decide_eq_true_eq] at hpolicy
    split at h
    · rename_i parts hparts
      obtain ⟨text, htext, hexpand⟩ := Option.bind_eq_some_iff.1 hparts
      obtain ⟨item, hitem, rfl⟩ := List.mem_map.1 h
      refine .inr ⟨hpolicy.1, hpolicy.2, text, parts, ?_, hexpand, item, hitem, rfl⟩
      unfold Normalized.single? at htext
      split at htext
      · rename_i heq
        cases htext
        exact heq
      · cases htext
    · exact .inl (List.mem_singleton.1 h)
  · exact .inl (List.mem_singleton.1 h)

/-- Expansion needs values without backslashes. -/
lemma sealed_underPolicy {config : Config} {property : String} {value : Normalized}
    (hsealed : ∀ v ∈ value.values, Sealed v.toList)
    (hbackslash : config.shorthands = .flatten → Property.isShorthand property = true →
      ∀ v ∈ value.values, '\\' ∉ v.toList) :
    ∀ part ∈ underPolicy config property value, ∀ v ∈ part.2.values, Sealed v.toList := by
  intro part hpart
  rcases underPolicy_cases hpart with
    rfl | ⟨hpolicy, hshorthand, text, parts, hvalues, hexpand, item, hitem, rfl⟩
  · exact hsealed
  · intro v hv
    rw [List.mem_singleton.1 hv]
    have htext : text ∈ value.values := by
      rw [hvalues]
      exact List.mem_cons_self
    exact sealed_expand? hexpand (hsealed text htext) (hbackslash hpolicy hshorthand text htext)
      item hitem

lemma forall_underPolicy {P : Char → Prop} (hP : Common P) {config : Config} {property : String}
    {value : Normalized} (hne : value.values ≠ [])
    (hvalue : ∀ v ∈ value.values, ∀ c ∈ v.toList, P c) :
    ∀ part ∈ underPolicy config property value,
      part.2.values ≠ [] ∧ ∀ v ∈ part.2.values, ∀ c ∈ v.toList, P c := by
  intro part hpart
  rcases underPolicy_cases hpart with rfl | ⟨_, _, text, parts, hvalues, hexpand, item, hitem, rfl⟩
  · exact ⟨hne, hvalue⟩
  · refine ⟨List.cons_ne_nil _ _, fun v hv => ?_⟩
    rw [List.mem_singleton.1 hv]
    have htext : text ∈ value.values := by
      rw [hvalues]
      exact List.mem_cons_self
    exact forall_expand? hP hexpand (hvalue text htext) item hitem

end AtomicCss.Proofs
