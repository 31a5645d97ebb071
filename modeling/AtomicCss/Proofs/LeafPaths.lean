import AtomicCss.Proofs.Flatten

/-!
# Leaves in written order

A nested map has its leaves at the ends of paths of keys. The condition of a leaf is composed from
the keys of its path, one behind the other. Flattening succeeds exactly if every key is a condition,
every nested map is a map of conditions and what has to be parsed on the way does parse; it then
meets the leaves in written order.
-/

namespace AtomicCss.Proofs

open Declaration

mutual

/-- The leaves of a value in written order, each behind the keys that lead to it. -/
def leafPaths : Value → List (List String × Value)
  | .map entries => leafPathsIn entries
  | value => [([], value)]

/-- The leaves of a map in written order, depth first. -/
def leafPathsIn : List (String × Value) → List (List String × Value)
  | [] => []
  | (key, value) :: rest =>
    (leafPaths value).map (fun leaf => (key :: leaf.1, leaf.2)) ++ leafPathsIn rest

end

/-- The condition composed from a parent's and the keys of a path. -/
def composed (parent : String) (path : List String) : Except CssFault String :=
  path.foldlM compose parent

/-- The maps that the paths through a map lead to, the empty path to the map itself. -/
inductive MapAt : List (String × Value) → List String → List (String × Value) → Prop
  | top (map : List (String × Value)) : MapAt map [] map
  | inside {key : String} {path : List String} {inner map deep : List (String × Value)} :
    (key, .map inner) ∈ map → MapAt inner path deep → MapAt map (key :: path) deep

/-- All keys are conditions, all nested maps hold conditions, and a condition can be parsed wherever
it belongs to a leaf or has an at-rule put behind it. -/
structure Flattens (parent : String) (map : List (String × Value)) : Prop where
  keys {path : List String} {deep : List (String × Value)} : MapAt map path deep →
    ∀ item ∈ deep, (ConditionKind.ofKey? item.1).isSome
  maps {path : List String} {deep inner : List (String × Value)} {key : String} :
    MapAt map path deep → (key, .map inner) ∈ deep → isConditionMap inner = true
  parents {path : List String} {deep : List (String × Value)} : MapAt map path deep →
    ∀ item ∈ deep, item.1.toList.head? = some '@' → ∃ condition,
      composed parent path = .ok condition ∧
        (condition ≠ "" → ∃ c, Condition.parse condition = .ok c)
  leaves : ∀ leaf ∈ leafPathsIn map, ∃ condition c,
    composed parent leaf.1 = .ok condition ∧ Condition.parse condition = .ok c

section

variable {parent key : String} {path : List String} {map : List (String × Value)}

lemma composed_cons_of_eq {condition : String} (h : compose parent key = .ok condition)
    (path : List String) : composed parent (key :: path) = composed condition path := by
  unfold composed
  rw [List.foldlM_cons, h]
  rfl

lemma leafPathsIn_eq_flatMap (map : List (String × Value)) : leafPathsIn map =
    map.flatMap fun item => (leafPaths item.2).map fun leaf => (item.1 :: leaf.1, leaf.2) := by
  induction map with
  | nil => rfl
  | cons item rest ih =>
    rw [leafPathsIn, ih]
    rfl

lemma mem_leafPathsIn {leaf : List String × Value} : leaf ∈ leafPathsIn map ↔
    ∃ item ∈ map, ∃ below ∈ leafPaths item.2, leaf = (item.1 :: below.1, below.2) := by
  simp [leafPathsIn_eq_flatMap, List.mem_flatMap, eq_comm]

/-- Only an at-rule behind a condition can fail to be composed. -/
lemma compose_eq_ok_iff : (∃ condition, compose parent key = .ok condition) ↔
    (key.toList.head? = some '@' → parent ≠ "" → ∃ c, Condition.parse parent = .ok c) := by
  unfold compose
  by_cases hat : key.toList.head? = some '@'
  · by_cases hparent : parent = ""
    · simp [hparent]
    · cases hparsed : Condition.parse parent <;> simp [hat, hparent, Except.map]
  · simp [hat]

lemma ne_nil_of_isConditionMap (h : isConditionMap map = true) : map ≠ [] := by
  rintro rfl
  cases h

/-- What flattening needs of a value under a condition. -/
def FitsUnder (condition : String) : Value → Prop
  | .map inner => isConditionMap inner = true ∧ Flattens condition inner
  | _ => ∃ c, Condition.parse condition = .ok c

lemma Flattens.fitsUnder {item : String × Value} (h : Flattens parent map) (hitem : item ∈ map) :
    (ConditionKind.ofKey? item.1).isSome ∧
      ∃ condition, compose parent item.1 = .ok condition ∧ FitsUnder condition item.2 := by
  obtain ⟨key, value⟩ := item
  refine ⟨h.keys (.top map) _ hitem, ?_⟩
  have hcompose : ∃ condition, compose parent key = .ok condition := by
    refine compose_eq_ok_iff.2 fun hat hparent => ?_
    obtain ⟨condition, heq, hparse⟩ := h.parents (.top map) _ hitem hat
    obtain rfl := Except.ok.inj heq
    exact hparse hparent
  obtain ⟨condition, hcompose⟩ := hcompose
  refine ⟨condition, hcompose, ?_⟩
  have hleaf : ∀ leaf ∈ leafPaths value, ∃ deep c, composed condition leaf.1 = .ok deep ∧
      Condition.parse deep = .ok c := by
    intro leaf hleaf
    rw [← composed_cons_of_eq hcompose]
    exact h.leaves _ (mem_leafPathsIn.2 ⟨_, hitem, leaf, hleaf, rfl⟩)
  cases value with
  | map inner =>
    refine ⟨h.maps (.top map) hitem, ?_, ?_, ?_, hleaf⟩
    · exact fun hdeep => h.keys (.inside hitem hdeep)
    · exact fun hdeep => h.maps (.inside hitem hdeep)
    · intro path deep hdeep item' hitem' hat
      rw [← composed_cons_of_eq hcompose]
      exact h.parents (.inside hitem hdeep) item' hitem' hat
  | unset | scalar | fallback | firstThatWorks =>
    obtain ⟨deep, c, heq, hparse⟩ := hleaf _ (List.mem_singleton_self _)
    obtain rfl := Except.ok.inj heq
    exact ⟨c, hparse⟩

/-- A map flattens if each of its entries fits under the condition of its key. -/
lemma flattens_iff : Flattens parent map ↔ ∀ item ∈ map, (ConditionKind.ofKey? item.1).isSome ∧
    ∃ condition, compose parent item.1 = .ok condition ∧ FitsUnder condition item.2 := by
  refine ⟨fun h item hitem => h.fitsUnder hitem, fun h => ⟨?_, ?_, ?_, ?_⟩⟩
  · intro path deep hdeep
    cases hdeep with
    | top => exact fun item hitem => (h item hitem).1
    | inside hmem hdeep =>
      obtain ⟨_, _, _, _, hinner⟩ := h _ hmem
      exact hinner.keys hdeep
  · intro path deep inner key hdeep hmem'
    cases hdeep with
    | top =>
      obtain ⟨_, _, _, hmap, _⟩ := h _ hmem'
      exact hmap
    | inside hmem hdeep =>
      obtain ⟨_, _, _, _, hinner⟩ := h _ hmem
      exact hinner.maps hdeep hmem'
  · intro path deep hdeep item hitem hat
    cases hdeep with
    | top =>
      obtain ⟨_, condition, hcompose, _⟩ := h item hitem
      exact ⟨parent, rfl, compose_eq_ok_iff.1 ⟨condition, hcompose⟩ hat⟩
    | inside hmem hdeep =>
      obtain ⟨_, condition, hcompose, _, hinner⟩ := h _ hmem
      rw [composed_cons_of_eq hcompose]
      exact hinner.parents hdeep item hitem hat
  · intro leaf hleaf
    obtain ⟨⟨key, value⟩, hitem, below, hbelow, rfl⟩ := mem_leafPathsIn.1 hleaf
    obtain ⟨_, condition, hcompose, hfits⟩ := h _ hitem
    rw [composed_cons_of_eq hcompose]
    cases value with
    | map inner => exact hfits.2.leaves below hbelow
    | unset | scalar | fallback | firstThatWorks =>
      obtain rfl := List.mem_singleton.1 hbelow
      obtain ⟨c, hparse⟩ := hfits
      exact ⟨condition, c, rfl, hparse⟩

/-- A leaf found at the end of a path, under the canonical text of its condition. -/
def FoundAt (parent : String) (leaf : List String × Value) (item : String × Leaf) : Prop :=
  ∃ condition c, composed parent leaf.1 = .ok condition ∧ Condition.parse condition = .ok c ∧
    item = (c.key, ⟨condition, leaf.2⟩)

lemma FoundAt.cons {condition : String} {leaf : List String × Value} {item : String × Leaf}
    (hcompose : compose parent key = .ok condition) (h : FoundAt condition leaf item) :
    FoundAt parent (key :: leaf.1, leaf.2) item := by
  obtain ⟨deep, c, heq, hparse, rfl⟩ := h
  exact ⟨deep, c, (composed_cons_of_eq hcompose leaf.1).trans heq, hparse, rfl⟩

end

mutual

lemma leafPaths_ne_nil {condition : String} : ∀ {value : Value}, FitsUnder condition value →
    leafPaths value ≠ []
  | .map _, h => leafPathsIn_ne_nil (ne_nil_of_isConditionMap h.1) h.2
  | .unset, _ | .scalar _, _ | .fallback _, _ | .firstThatWorks _, _ => List.cons_ne_nil _ _

/-- A map of conditions has a leaf, since its nested maps are not empty either. -/
lemma leafPathsIn_ne_nil {parent : String} : ∀ {map : List (String × Value)}, map ≠ [] →
    Flattens parent map → leafPathsIn map ≠ []
  | [], hne, _ => (hne rfl).elim
  | (key, value) :: rest, _, h => by
    obtain ⟨_, condition, _, hfits⟩ := h.fitsUnder List.mem_cons_self
    rw [leafPathsIn]
    exact List.append_ne_nil_of_left_ne_nil (by simpa using leafPaths_ne_nil hfits) _

end

variable {definition property : String}

-- the induction is on the nested maps, in step with the two functions
mutual

lemma exists_leavesOf_iff (key condition : String) : ∀ value : Value,
    (∃ found, leavesOf definition property key condition value = .ok found) ↔
      FitsUnder condition value
  | .map inner => by
    rw [leavesOf, FitsUnder]
    split
    · rename_i hmap
      rw [exists_leavesIn_iff condition inner]
      simp [hmap]
    · rename_i hmap
      simp [hmap]
  | .unset | .scalar _ | .fallback _ | .firstThatWorks _ => by
    rw [leavesOf, FitsUnder]
    · cases Condition.parse condition <;> simp
    all_goals simp

lemma exists_leavesIn_iff (parent : String) : ∀ map : List (String × Value),
    (∃ found, leavesIn definition property parent map = .ok found) ↔ Flattens parent map
  | [] => by
    rw [leavesIn, flattens_iff]
    simp
  | (key, value) :: rest => by
    have hrest := exists_leavesIn_iff parent rest
    rw [flattens_iff] at hrest
    rw [leavesIn, flattens_iff, List.forall_mem_cons, ← hrest]
    cases hkind : ConditionKind.ofKey? key with
    | none => simp
    | some kind =>
      cases hcompose : compose parent key with
      | error fault => simp
      | ok condition =>
        have hvalue := exists_leavesOf_iff key condition value
        simp only [Option.isNone_some, Bool.false_eq_true, if_false, Option.isSome_some, true_and,
          Except.ok.injEq, exists_eq_left', ← hvalue]
        cases leavesOf definition property key condition value with
        | error e => simp [Bind.bind, Except.bind]
        | ok leaves =>
          cases leavesIn definition property parent rest <;> simp [Bind.bind, Except.bind]

end

mutual

lemma found_of_leavesOf {key condition : String} : ∀ (value : Value)
    {found : List (String × Leaf)}, leavesOf definition property key condition value = .ok found →
    List.Forall₂ (FoundAt condition) (leafPaths value) found
  | .map inner, found, h => by
    rw [leavesOf] at h
    split at h
    · exact found_of_leavesIn inner h
    · cases h
  | .unset, found, h | .scalar _, found, h | .fallback _, found, h
  | .firstThatWorks _, found, h => by
    rw [leavesOf] at h
    · split at h
      · rename_i c hparse
        cases h
        exact .cons ⟨condition, c, rfl, hparse, rfl⟩ .nil
      · cases h
    all_goals simp

/-- Flattening meets the leaves in written order. -/
lemma found_of_leavesIn {parent : String} : ∀ (map : List (String × Value))
    {found : List (String × Leaf)}, leavesIn definition property parent map = .ok found →
    List.Forall₂ (FoundAt parent) (leafPathsIn map) found
  | [], found, h => by
    rw [leavesIn] at h
    cases h
    exact .nil
  | (key, value) :: rest, found, h => by
    rw [leavesIn] at h
    split at h
    · cases h
    · split at h
      · cases h
      · rename_i condition hcompose
        obtain ⟨leaves, hleaves, h⟩ := bind_eq_ok h
        obtain ⟨more, hmore, h⟩ := bind_eq_ok h
        cases h
        have hvalue := found_of_leavesOf value hleaves
        rw [leafPathsIn]
        refine List.rel_append ?_ (found_of_leavesIn rest hmore)
        rw [List.forall₂_map_left_iff]
        exact hvalue.imp fun _ _ hfound => hfound.cons hcompose

end

end AtomicCss.Proofs
