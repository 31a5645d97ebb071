import AtomicCss.Proofs.Forbidden

/-!
# The conflict that is reported

What is gathered for a shorthand is just what it sets, at whatever remove. So the forbidding check
fails exactly if one property of the list sets another one, which the order of the list has no part
in. It reports the first property that sets another, with the first one that this sets.
-/

namespace AtomicCss.Proofs

open Property Expansion

/-- The first item of a list with a property. -/
structure IsFirst {α : Type} (P : α → Prop) (items : List α) (item : α) : Prop where
  holds : P item
  first : ∃ before after, items = before ++ item :: after ∧ ∀ other ∈ before, ¬P other

/-- Something that `s` sets stands in the list. -/
def SetsOneOf (properties : List String) (s : String) : Prop :=
  ∃ l ∈ properties, Sets s l

section

variable {s l : String} {properties : List String}

/-- Nothing is gathered beyond what a shorthand sets that sets the names. -/
lemma sets_of_mem_gather {depth : ℕ} {names found : List String} (hfound : ∀ m ∈ found, Sets s m)
    (hnames : ∀ m ∈ names, Sets s m) : ∀ m ∈ gather depth names found, Sets s m := by
  induction depth generalizing names found with
  | zero => exact hfound
  | succ depth ihdepth =>
    induction names with
    | nil => exact hfound
    | cons name rest ih =>
      obtain ⟨hname, hrest⟩ := List.forall_mem_cons.1 hnames
      rw [gather_cons]
      split
      · exact ih hrest
      · apply ihdepth
        · exact List.forall_mem_append.2 ⟨ih hrest, List.forall_mem_singleton.2 hname⟩
        · exact fun part hpart => .through hname (sets_of_mem_partsOf hpart)

/-- What is gathered for a shorthand is what it sets. -/
lemma mem_allLonghands_iff : l ∈ allLonghands s ↔ Sets s l :=
  ⟨sets_of_mem_gather (List.forall_mem_nil _) (fun _ => sets_of_mem_partsOf) l, mem_allLonghands_of_sets⟩

/-- No property sets itself, not even through others. -/
lemma ne_of_sets (h : Sets s l) : s ≠ l := by
  rintro rfl
  exact Nat.lt_irrefl _ (coarser_of_sets h).2

lemma isFirst_of_find? {p : String → Bool} (h : properties.find? p = some l) :
    IsFirst (fun l => p l = true) properties l := by
  obtain ⟨hl, before, after, hsplit, hbefore⟩ := List.find?_eq_some_iff_append.1 h
  exact ⟨hl, before, after, hsplit, fun other hother => by simpa using hbefore other hother⟩

lemma IsFirst.mem {α : Type} {P : α → Prop} {items : List α} {item : α}
    (h : IsFirst P items item) : item ∈ items := by
  obtain ⟨before, after, rfl, _⟩ := h.first
  exact List.mem_append_right _ List.mem_cons_self

/-- The first item is the only one of its kind. -/
lemma IsFirst.unique {α : Type} {P : α → Prop} {items : List α} {a b : α}
    (ha : IsFirst P items a) (hb : IsFirst P items b) : a = b := by
  obtain ⟨ha, before, after, rfl, hbefore⟩ := ha
  obtain ⟨hb, before', after', hsplit, hbefore'⟩ := hb
  rcases List.append_eq_append_iff.1 hsplit with ⟨more, rfl, hmore⟩ | ⟨more, rfl, hmore⟩
  · cases more with
    | nil => exact (List.cons.inj hmore).1
    | cons c cs =>
      obtain ⟨rfl, _⟩ := List.cons.inj hmore
      exact (hbefore' a (List.mem_append_right _ List.mem_cons_self) ha).elim
  · cases more with
    | nil => exact (List.cons.inj hmore).1.symm
    | cons c cs =>
      obtain ⟨rfl, _⟩ := List.cons.inj hmore
      exact (hbefore b (List.mem_append_right _ List.mem_cons_self) hb).elim

/-- What the check looks for with each property: the first property of the list that it sets. -/
def conflict? (properties : List String) (s : String) : Option (String × String) :=
  if isShorthand s then (properties.find? (allLonghands s).contains).map fun l => (s, l) else none

lemma conflict?_eq_none_iff : conflict? properties s = none ↔ ¬SetsOneOf properties s := by
  unfold conflict? SetsOneOf
  split
  · simp [mem_allLonghands_iff]
  · rename_i hs
    refine iff_of_true rfl ?_
    rintro ⟨l, _, hsets⟩
    exact hs (isShorthand_of_sets hsets)

lemma conflict?_eq_some {pair : String × String} (h : conflict? properties s = some pair) :
    ∃ l, pair = (s, l) ∧ IsFirst (Sets s) properties l := by
  unfold conflict? at h
  split at h
  · obtain ⟨l, hfound, rfl⟩ := Option.map_eq_some_iff.1 h
    refine ⟨l, rfl, ?_⟩
    simpa [mem_allLonghands_iff] using isFirst_of_find? hfound
  · cases h

/-- The properties stand beside each other if none of them sets one of them. -/
lemma compatible_iff : Compatible properties ↔ ∀ s ∈ properties, ¬SetsOneOf properties s := by
  refine forall₂_congr fun s _ => ?_
  constructor
  · rintro h ⟨l, hl, hsets⟩
    exact h (isShorthand_of_sets hsets) l hl (mem_allLonghands_iff.2 hsets)
  · exact fun h _ l hl hmem => h ⟨l, hl, mem_allLonghands_iff.1 hmem⟩

lemma compatible_of_perm {others : List String} (hperm : others.Perm properties)
    (h : Compatible others) : Compatible properties :=
  fun s hs hshorthand l hl => h s (hperm.mem_iff.2 hs) hshorthand l (hperm.mem_iff.2 hl)

variable {definition : String} {e : StyleError}

lemma exists_error_iff :
    (∃ e, checkForbidden definition properties = .error e) ↔ ¬Compatible properties := by
  have hpasses : checkForbidden definition properties = .ok () ↔ Compatible properties :=
    checkForbidden_eq_ok_iff
  rw [← hpasses]
  cases checkForbidden definition properties <;> simp

/-- The first conflict is the one that is reported. -/
lemma isFirst_of_error (h : checkForbidden definition properties = .error e) :
    ∃ s l, IsFirst (SetsOneOf properties) properties s ∧ IsFirst (Sets s) properties l ∧
      e = .invalid definition (.shorthandWithLonghand s l) [] := by
  unfold checkForbidden at h
  dsimp only at h
  split at h
  · rename_i s l hfound
    cases h
    change properties.findSome? (conflict? properties) = some (s, l) at hfound
    obtain ⟨before, first, after, hsplit, hpair, hbefore⟩ := List.findSome?_eq_some_iff.1 hfound
    obtain ⟨_, heq, hl⟩ := conflict?_eq_some hpair
    cases heq
    have hsets : SetsOneOf properties s := by
      by_contra hnone
      rw [conflict?_eq_none_iff.2 hnone] at hpair
      cases hpair
    have hfirst : ∀ other ∈ before, ¬SetsOneOf properties other :=
      fun other hother => conflict?_eq_none_iff.1 (hbefore other hother)
    exact ⟨s, l, ⟨hsets, before, after, hsplit, hfirst⟩, hl, rfl⟩
  · cases h

end

/-- The check fails exactly if one property of the list sets another one, at whatever remove. It
names the first that sets one of the list, and the first that this one sets. A list in another order
passes exactly if this one does. -/
theorem checkForbidden_names_first (definition : String) (properties : List String) :
    ((∃ e, checkForbidden definition properties = .error e) ↔
      ∃ s ∈ properties, ∃ l ∈ properties, s ≠ l ∧ Sets s l) ∧
    (∀ e, checkForbidden definition properties = .error e ↔
      ∃ s l, IsFirst (SetsOneOf properties) properties s ∧ IsFirst (Sets s) properties l ∧
        e = .invalid definition (.shorthandWithLonghand s l) []) ∧
    ∀ others, others.Perm properties →
      (checkForbidden definition others = .ok () ↔
        checkForbidden definition properties = .ok ()) := by
  refine ⟨?_, fun e => ⟨isFirst_of_error, ?_⟩, fun others hperm => ?_⟩
  · rw [exists_error_iff, compatible_iff]
    constructor
    · intro h
      by_contra hnone
      exact h fun s hs ⟨l, hl, hsets⟩ => hnone ⟨s, hs, l, hl, ne_of_sets hsets, hsets⟩
    · rintro ⟨s, hs, l, hl, _, hsets⟩ hnone
      exact hnone s hs ⟨l, hl, hsets⟩
  · rintro ⟨s, l, hs, hl, rfl⟩
    have hfails : ¬Compatible properties := fun h => compatible_iff.1 h s hs.mem hs.holds
    have hexists : ∃ e, checkForbidden definition properties = .error e :=
      exists_error_iff.2 hfails
    obtain ⟨e, he⟩ := hexists
    obtain ⟨s', l', hs', hl', rfl⟩ := isFirst_of_error he
    obtain rfl := hs.unique hs'
    obtain rfl := hl.unique hl'
    exact he
  · rw [checkForbidden_eq_ok_iff, checkForbidden_eq_ok_iff]
    exact ⟨compatible_of_perm hperm, compatible_of_perm hperm.symm⟩

/-- A longhand in front of the shorthand that sets it through another one, and two margins. -/
def mixedNames : List String :=
  ["color", "border-bottom-color", "margin-top", "border", "margin"]

theorem checkForbidden_names_first_border :
    checkForbidden "page" mixedNames =
        .error (.invalid "page" (.shorthandWithLonghand "border" "border-bottom-color") []) ∧
      mixedNames.reverse.Perm mixedNames ∧
      (checkForbidden "page" mixedNames.reverse = .ok () ↔
        checkForbidden "page" mixedNames = .ok ()) := by
  obtain ⟨_, herror, hperm⟩ := checkForbidden_names_first "page" mixedNames
  have hplain : ∀ names : List String, (∀ name ∈ names, isShorthand name = false) →
      ∀ name ∈ names, ¬SetsOneOf mixedNames name := by
    rintro names hnames name hname ⟨l, _, hsets⟩
    exact absurd (isShorthand_of_sets hsets) (by simp [hnames name hname])
  have hsets : Sets "border" "border-bottom-color" :=
    .through (m := "border-bottom") (.direct rfl (by decide)) (.direct rfl (by decide))
  have hfirst : IsFirst (SetsOneOf mixedNames) mixedNames "border" :=
    ⟨⟨_, by decide, hsets⟩, ["color", "border-bottom-color", "margin-top"], ["margin"], rfl,
      hplain _ (by decide +kernel)⟩
  have hfirst' : IsFirst (Sets "border") mixedNames "border-bottom-color" := by
    refine ⟨hsets, ["color"], ["margin-top", "border", "margin"], rfl, ?_⟩
    rintro other hother hcolor
    obtain rfl := List.mem_singleton.1 hother
    exact absurd (mem_allLonghands_iff.2 hcolor) (by decide +kernel)
  exact ⟨(herror _).2 ⟨_, _, hfirst, hfirst', rfl⟩, List.reverse_perm _,
    hperm _ (List.reverse_perm _)⟩

end AtomicCss.Proofs
