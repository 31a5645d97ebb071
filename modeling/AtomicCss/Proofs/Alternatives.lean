import AtomicCss.Proofs.NormalCharacters

/-!
# Lists of alternatives

The values of a declaration are the normalized alternatives, some of which are folded into one
withFallback variable. Folding puts a sealed text into the parentheses of another, so its result is
sealed again.
-/

namespace AtomicCss.Proofs

open Cursor Value

/-- A variable with a fallback. -/
def withFallback (var fallback : String) : String :=
  "var(" ++ String.ofList ((varArgument? var.toList).getD var.toList) ++ ", " ++ fallback ++ ")"

lemma nestVars_forall {Q : String → Prop}
    (hnest : ∀ v w, isPlainVar v = true → Q v → Q w → Q (withFallback v w)) {values : List String}
    (hne : values ≠ []) (hvars : ∀ v ∈ values.dropLast, isPlainVar v = true)
    (hvalues : ∀ v ∈ values, Q v) : Q (nestVars values) := by
  induction values with
  | nil => exact (hne rfl).elim
  | cons v values ih =>
    cases values with
    | nil => exact hvalues v List.mem_cons_self
    | cons w values =>
      refine hnest v _ (hvars v List.mem_cons_self) (hvalues v List.mem_cons_self) ?_
      apply ih (List.cons_ne_nil _ _)
      · intro u hu
        exact hvars u (List.mem_cons_of_mem _ hu)
      · intro u hu
        exact hvalues u (List.mem_cons_of_mem _ hu)

lemma foldVars_forall {Q : String → Prop}
    (hnest : ∀ v w, isPlainVar v = true → Q v → Q w → Q (withFallback v w)) {values : List String}
    (hne : values ≠ []) (hvalues : ∀ v ∈ values, Q v) :
    foldVars values ≠ [] ∧ ∀ v ∈ foldVars values, Q v := by
  have hrest : values.dropWhile (!isPlainVar ·) ⊆ values := (List.dropWhile_sublist _).subset
  unfold foldVars
  dsimp only
  split
  · exact ⟨hne, hvalues⟩
  · rename_i hsome
    -- the first value of the rest is a variable
    have hvars : (values.dropWhile (!isPlainVar ·)).takeWhile isPlainVar ≠ [] := by
      cases hdrop : values.dropWhile (!isPlainVar ·) with
      | nil => simp [hdrop] at hsome
      | cons v rest =>
        have hv := List.head?_dropWhile_not (!isPlainVar ·) values
        rw [hdrop] at hv
        have hv : isPlainVar v = true := by simpa using hv
        simp [hv]
    refine ⟨List.append_ne_nil_of_right_ne_nil _ (List.cons_ne_nil _ _), fun v hv => ?_⟩
    rcases List.mem_append.1 hv with hv | hv
    · exact hvalues v ((List.takeWhile_sublist _).subset hv)
    rcases List.mem_cons.1 hv with rfl | hv
    · apply nestVars_forall hnest (List.append_ne_nil_of_left_ne_nil hvars _)
      · intro u hu
        have hmem : u ∈ (values.dropWhile (!isPlainVar ·)).takeWhile isPlainVar := by
          cases hafter : (values.dropWhile (!isPlainVar ·)).dropWhile isPlainVar with
          | nil =>
            rw [hafter, List.take_nil, List.append_nil] at hu
            exact List.dropLast_subset _ hu
          | cons w after =>
            rw [hafter, List.take_succ_cons, List.take_zero, List.dropLast_concat] at hu
            exact hu
        exact List.all_eq_true.1 List.all_takeWhile u hmem
      · intro u hu
        refine hvalues u (hrest ?_)
        rcases List.mem_append.1 hu with hu | hu
        · exact (List.takeWhile_sublist _).subset hu
        · exact (List.dropWhile_sublist _).subset (List.mem_of_mem_take hu)
    · exact hvalues v (hrest ((List.dropWhile_sublist _).subset (List.mem_of_mem_drop hv)))

lemma eq_of_varArgument? {value name : List Char} (h : varArgument? value = some name) :
    value = ['v', 'a', 'r', '('] ++ (name ++ [')']) := by
  obtain ⟨rest, hrest, hname⟩ := Option.bind_eq_some_iff.1 h
  rw [← List.append_eq_of_isPrefixOf?_eq_some hrest, ← List.append_eq_of_isSuffixOf?_eq_some hname]

/-- The name of a variable has neither commas nor parentheses. -/
lemma varArgument_of_isPlainVar {v : String} (h : isPlainVar v = true) :
    ∃ name, varArgument? v.toList = some name ∧ ',' ∉ name ∧ '(' ∉ name ∧ ')' ∉ name := by
  unfold isPlainVar isPlainVarText at h
  split at h
  · rename_i name hname
    simp only [Bool.and_eq_true, Bool.not_eq_true', List.any_eq_false, Bool.or_eq_true,
      beq_iff_eq, not_or] at h
    refine ⟨name, hname, fun hc => ?_, fun hc => ?_, fun hc => ?_⟩
    · exact (h.2 _ hc).1.1.1 rfl
    · exact (h.2 _ hc).1.1.2 rfl
    · exact (h.2 _ hc).1.2 rfl
  · cases h

/-- Behind the name of a sealed variable a fallback can follow. -/
lemma over?_varName {name : List Char} (hsealed : Sealed (['v', 'a', 'r', '('] ++ (name ++ [')'])))
    (hopen : '(' ∉ name) (hclose : ')' ∉ name) :
    (⟨1, .free⟩ : Cursor).over? (name ++ [',', ' ']) = some ⟨1, .free⟩ := by
  obtain ⟨r, hready, hdepth, hr⟩ := hsealed
  change (⟨1, .free⟩ : Cursor).over? (name ++ [')']) = some r at hr
  rw [over?_append] at hr
  obtain ⟨u, hu, hr⟩ := Option.bind_eq_some_iff.1 hr
  obtain ⟨s, hs, hr⟩ := Option.bind_eq_some_iff.1 hr
  cases hr
  have hone : u.depth = 1 := over?_depth hu hopen hclose
  rw [over?_append_of_eq hu]
  obtain ⟨depth, mode⟩ := u
  obtain rfl : depth = 1 := hone
  cases mode with
  | free => rfl
  | comma => rfl
  | quoted q =>
    -- the parenthesis would stand in quotes
    have hstay : (⟨1, .quoted q⟩ : Cursor).step? ')' = some ⟨1, .quoted q⟩ := by
      cases q <;> rfl
    rw [hstay] at hs
    cases hs
    cases hdepth
  | escaped quote =>
    cases quote <;> cases hs <;> cases hdepth

/-- A fallback is put into the parentheses of a variable. -/
lemma sealed_withFallback {v w : String} (hplain : isPlainVar v = true) (hv : Sealed v.toList)
    (hw : Sealed w.toList) : Sealed (withFallback v w).toList := by
  obtain ⟨name, hname, _, hopen, hclose⟩ := varArgument_of_isPlainVar hplain
  rw [eq_of_varArgument? hname] at hv
  obtain ⟨r, hready, hdepth, hr⟩ := hw
  have hinside : (⟨1, .free⟩ : Cursor).over? w.toList = some ⟨1, .free⟩ := by
    have h := over?_inside hr
    obtain ⟨depth, mode⟩ := r
    obtain rfl : depth = 0 := hdepth
    rcases hready with hmode | heq
    · obtain rfl : mode = .free := hmode
      exact h
    · cases heq
      exact h
  have hlist : (withFallback v w).toList =
      ['v', 'a', 'r', '('] ++ ((name ++ [',', ' ']) ++ (w.toList ++ [')'])) := by
    unfold withFallback
    simp [hname]
  refine ⟨start, .inl rfl, rfl, ?_⟩
  rw [hlist]
  change (⟨1, .free⟩ : Cursor).over? ((name ++ [',', ' ']) ++ (w.toList ++ [')'])) = _
  rw [over?_append_of_eq (over?_varName hv hopen hclose), over?_append_of_eq hinside]
  rfl

lemma forall_withFallback {P : Char → Prop} (hP : Common P) {v w : String}
    (hplain : isPlainVar v = true) (hv : ∀ c ∈ v.toList, P c) (hw : ∀ c ∈ w.toList, P c) :
    ∀ c ∈ (withFallback v w).toList, P c := by
  obtain ⟨name, hname, -⟩ := varArgument_of_isPlainVar hplain
  have hcommon : ∀ c ∈ ['v', 'a', 'r', '(', ',', ' ', ')'], P c := hP.forall_mem (by decide)
  intro c hc
  have hcases : c ∈ ['v', 'a', 'r', '(', ',', ' ', ')'] ∨ c ∈ name ∨ c ∈ w.toList := by
    unfold withFallback at hc
    simp only [hname, Option.getD_some, String.toList_append, String.toList_ofList,
      List.mem_append] at hc
    rcases hc with (((hc | hc) | hc) | hc) | hc
    · exact .inl (List.mem_append_left [',', ' ', ')'] hc)
    · exact .inr (.inl hc)
    · refine .inl ?_
      revert c
      decide
    · exact .inr (.inr hc)
    · refine .inl ?_
      revert c
      decide
  rcases hcases with hc | hc | hc
  · exact hcommon c hc
  · apply hv
    rw [eq_of_varArgument? hname]
    exact List.mem_append_right _ (List.mem_append_left _ hc)
  · exact hw c hc

/-- The alternatives of a value. -/
def scalars : Value → List Scalar
  | .scalar value => [value]
  | .fallback values | .firstThatWorks values => values
  | _ => []

/-- What holds of every normalized alternative, and of a variable with a fallback for which it
holds, holds of all values of a declaration. -/
lemma normalizeLeaf_forall {Q : String → Prop} {property : String} {value : Value}
    {normalized : Normalized} (h : normalizeLeaf property value = .ok normalized)
    (hnest : ∀ v w, isPlainVar v = true → Q v → Q w → Q (withFallback v w))
    (hscalar : ∀ scalar ∈ scalars value, ∀ text, normalizeScalar property scalar = .ok text →
      Q text) :
    normalized.values ≠ [] ∧ ∀ v ∈ normalized.values, Q v := by
  have hlist : ∀ {values : List Scalar} {texts : List String},
      normalizeList property values = .ok texts → scalars value = values →
      texts ≠ [] ∧ ∀ v ∈ texts, Q v := by
    intro values texts htexts heq
    unfold normalizeList at htexts
    split at htexts
    · cases htexts
    · rename_i hne
      have hall := mapM_eq_ok htexts
      constructor
      · rintro rfl
        cases hall
        exact hne rfl
      · intro v hv
        obtain ⟨scalar, hs, htext⟩ := exists_of_forall₂ hall hv
        exact hscalar scalar (heq ▸ hs) v htext
  cases value with
  | scalar value =>
    obtain ⟨text, htext, rfl⟩ := map_eq_ok h
    refine ⟨List.cons_ne_nil _ _, fun v hv => ?_⟩
    rw [List.mem_singleton.1 hv]
    exact hscalar value List.mem_cons_self text htext
  | fallback values =>
    obtain ⟨texts, htexts, rfl⟩ := map_eq_ok h
    obtain ⟨hne, hall⟩ := hlist htexts rfl
    exact ⟨fun h => hne (List.reverse_eq_nil_iff.1 h), fun v hv => hall v (List.mem_reverse.1 hv)⟩
  | firstThatWorks values =>
    obtain ⟨texts, htexts, rfl⟩ := map_eq_ok h
    obtain ⟨hne, hall⟩ := hlist htexts rfl
    obtain ⟨hne, hall⟩ := foldVars_forall hnest hne hall
    exact ⟨fun h => hne (List.reverse_eq_nil_iff.1 h), fun v hv => hall v (List.mem_reverse.1 hv)⟩
  | unset => cases h
  | map entries => cases h

/-- The texts of the alternatives of a value. -/
def leafTexts (value : Value) : List String :=
  (scalars value).flatMap scalarTexts

lemma sealed_normalizeLeaf {property : String} {value : Value} {normalized : Normalized}
    (h : normalizeLeaf property value = .ok normalized)
    (hcontained : ∀ raw ∈ leafTexts value, ContainedText property raw.toList) :
    ∀ v ∈ normalized.values, Sealed v.toList := by
  refine (normalizeLeaf_forall h (fun _ _ => sealed_withFallback) fun scalar hs text htext => ?_).2
  apply sealed_normalizeScalar htext
  intro raw hraw
  exact hcontained raw (List.mem_flatMap_of_mem hs hraw)

lemma forall_normalizeLeaf {P : Char → Prop} (hP : Common P) {property : String} {value : Value}
    {normalized : Normalized} (h : normalizeLeaf property value = .ok normalized)
    (hvalue : ∀ raw ∈ leafTexts value, ∀ c ∈ raw.toList, P c)
    (hcontent : property = "content" → P '\\') :
    normalized.values ≠ [] ∧ ∀ v ∈ normalized.values, ∀ c ∈ v.toList, P c := by
  refine normalizeLeaf_forall h (fun _ _ => forall_withFallback hP) fun scalar hs text htext => ?_
  refine forall_normalizeScalar hP htext (fun raw hraw => ?_) hcontent
  exact hvalue raw (List.mem_flatMap_of_mem hs hraw)

end AtomicCss.Proofs
