import AtomicCss.Class.Declaration
import AtomicCss.Proofs.Keyed
import AtomicCss.Proofs.Processing

/-!
# Flattened conditions

What a read condition looks like, and where the leaves of a nested map come from. Flattening keeps
one leaf for every condition that the written texts mean.
-/

namespace AtomicCss.Proofs

open Keyed Declaration

/-- Parts of a read condition are never empty. -/
lemma nonempty_of_parse {written : String} {c : Condition}
    (h : Condition.parse written = .ok c) :
    (∀ s, c.suffix = some s → s.isEmpty = false) ∧ ∀ s, c.atRule = some s → s.isEmpty = false := by
  have hlist : ∀ cs : List Char, cs ≠ [] → (String.ofList cs).isEmpty = false := by
    intro cs hcs
    simpa using hcs
  unfold Condition.parse Condition.parseText at h
  split at h
  · cases h
    constructor
    · intro s hs
      cases hs
    · intro s hs
      cases hs
  · dsimp only at h
    split at h
    · cases h
    · rename_i atRule suffix _
      obtain ⟨_, _, h⟩ := bind_eq_ok h
      obtain ⟨_, _, h⟩ := bind_eq_ok h
      split at h
      · cases h
      · rename_i hlength
        cases h
        constructor
        · intro s hs
          dsimp only at hs
          split at hs
          · cases hs
          · rename_i hsuffix
            cases hs
            exact hlist _ fun heq => hsuffix (by rw [heq]; rfl)
        · intro s hs
          cases hs
          apply hlist
          intro heq
          rw [heq] at hlength
          exact hlength (by decide)
  · rename_i hnil _
    obtain ⟨_, _, h⟩ := bind_eq_ok h
    cases h
    constructor
    · intro s hs
      cases hs
      exact hlist _ hnil
    · intro s hs
      cases hs

/-- The leaves below a condition, with the texts composed on the way to them. All keys on the way
are conditions. -/
inductive LeafIn : String → List (String × Value) → Leaf → Prop
  | here {parent key condition : String} {value : Value} {map : List (String × Value)} :
    (key, value) ∈ map → (ConditionKind.ofKey? key).isSome → compose parent key = .ok condition →
    LeafIn parent map ⟨condition, value⟩
  | inside {parent key condition : String} {inner map : List (String × Value)} {leaf : Leaf} :
    (key, .map inner) ∈ map → (ConditionKind.ofKey? key).isSome →
    compose parent key = .ok condition → LeafIn condition inner leaf → LeafIn parent map leaf

lemma LeafIn.cons {parent : String} {map : List (String × Value)} {leaf : Leaf}
    (h : LeafIn parent map leaf) (item : String × Value) : LeafIn parent (item :: map) leaf := by
  cases h with
  | here hmem hkind hcompose => exact .here (List.mem_cons_of_mem _ hmem) hkind hcompose
  | inside hmem hkind hcompose hleaf =>
    exact .inside (List.mem_cons_of_mem _ hmem) hkind hcompose hleaf

/-- A leaf stands under the canonical text of its condition. -/
def Canonical (item : String × Leaf) : Prop :=
  ∃ c, Condition.parse item.2.condition = .ok c ∧ item.1 = c.key

-- the induction is on the nested maps, in step with the two functions
mutual

lemma leavesOf_spec {definition property : String} : ∀ {key condition : String} (value : Value)
    {found : List (String × Leaf)},
    leavesOf definition property key condition value = .ok found → ∀ item ∈ found,
      Canonical item ∧ (item.2 = ⟨condition, value⟩ ∨
        ∃ inner, value = .map inner ∧ LeafIn condition inner item.2)
  | key, condition, .map inner, found, h, item, hi => by
    rw [leavesOf] at h
    split at h
    · obtain ⟨hcanonical, hleaf⟩ := leavesIn_spec inner h item hi
      exact ⟨hcanonical, .inr ⟨inner, rfl, hleaf⟩⟩
    · cases h
  | key, condition, .unset, found, h, item, hi
  | key, condition, .scalar _, found, h, item, hi
  | key, condition, .fallback _, found, h, item, hi
  | key, condition, .firstThatWorks _, found, h, item, hi => by
    rw [leavesOf] at h
    · split at h
      · rename_i c hc
        cases h
        rw [List.mem_singleton.1 hi]
        exact ⟨⟨c, hc, rfl⟩, .inl rfl⟩
      · cases h
    · intro entries heq
      cases heq

lemma leavesIn_spec {definition property : String} : ∀ {parent : String}
    (map : List (String × Value)) {found : List (String × Leaf)},
    leavesIn definition property parent map = .ok found → ∀ item ∈ found,
      Canonical item ∧ LeafIn parent map item.2
  | parent, [], found, h, item, hi => by
    rw [leavesIn] at h
    cases h
    cases hi
  | parent, (key, value) :: rest, found, h, item, hi => by
    rw [leavesIn] at h
    split at h
    · cases h
    · rename_i hkey
      have hkind : (ConditionKind.ofKey? key).isSome := by
        simpa [Option.isSome_iff_ne_none] using hkey
      split at h
      · cases h
      · rename_i condition hcompose
        obtain ⟨leaves, hleaves, h⟩ := bind_eq_ok h
        obtain ⟨more, hmore, h⟩ := bind_eq_ok h
        cases h
        rcases List.mem_append.1 hi with hi | hi
        · obtain ⟨hcanonical, hleaf⟩ := leavesOf_spec value hleaves item hi
          refine ⟨hcanonical, ?_⟩
          rcases hleaf with hleaf | ⟨inner, rfl, hleaf⟩
          · rw [hleaf]
            exact .here List.mem_cons_self hkind hcompose
          · exact .inside List.mem_cons_self hkind hcompose hleaf
        · obtain ⟨hcanonical, hleaf⟩ := leavesIn_spec rest hmore item hi
          exact ⟨hcanonical, hleaf.cons _⟩

end

/-- The leaves of a map, each under its own canonical text. -/
lemma flat_of_flatten {definition property : String} {map : List (String × Value)}
    {leaves : List Leaf} (h : flatten definition property map = .ok leaves) :
    ∃ flat : Keyed String Leaf, leaves = flat.map Prod.snd ∧ (keys flat).Nodup ∧
      ∀ item ∈ flat, Canonical item ∧ LeafIn "" map item.2 := by
  obtain ⟨found, hfound, rfl⟩ := map_eq_ok h
  refine ⟨_, rfl, ?_⟩
  have hspec := leavesIn_spec map hfound
  clear h hfound
  suffices hfold : ∀ flat : Keyed String Leaf, (keys flat).Nodup →
      (∀ item ∈ flat, Canonical item ∧ LeafIn "" map item.2) →
      (keys (found.foldl (fun flat leaf => renew flat leaf.1 leaf.2) flat)).Nodup ∧
        ∀ item ∈ found.foldl (fun flat leaf => renew flat leaf.1 leaf.2) flat,
          Canonical item ∧ LeafIn "" map item.2 by
    exact hfold [] List.nodup_nil (by simp)
  induction found with
  | nil => exact fun flat hnodup hflat => ⟨hnodup, hflat⟩
  | cons head rest ih =>
    intro flat hnodup hflat
    apply ih (fun item hi => hspec item (List.mem_cons_of_mem _ hi)) _
      (nodup_keys_renew hnodup head.1 head.2)
    intro item hi
    rcases List.mem_append.1 hi with hi | hi
    · exact hflat item (List.mem_filter.1 hi).1
    · rw [List.mem_singleton.1 hi]
      exact hspec head List.mem_cons_self

lemma leafIn_of_flatten {definition property : String} {map : List (String × Value)}
    {leaves : List Leaf} (h : flatten definition property map = .ok leaves) {leaf : Leaf}
    (hleaf : leaf ∈ leaves) : LeafIn "" map leaf := by
  obtain ⟨flat, rfl, _, hflat⟩ := flat_of_flatten h
  obtain ⟨item, hitem, rfl⟩ := List.mem_map.1 hleaf
  exact (hflat item hitem).2

/-- No two leaves mean the same condition. -/
lemma leaf_eq_of_flatten {definition property : String} {map : List (String × Value)}
    {leaves : List Leaf} (h : flatten definition property map = .ok leaves) {a b : Leaf}
    (ha : a ∈ leaves) (hb : b ∈ leaves) {c : Condition}
    (hca : Condition.parse a.condition = .ok c) (hcb : Condition.parse b.condition = .ok c) :
    a = b := by
  obtain ⟨flat, rfl, hnodup, hflat⟩ := flat_of_flatten h
  obtain ⟨⟨ka, a⟩, hia, rfl⟩ := List.mem_map.1 ha
  obtain ⟨⟨kb, b⟩, hib, rfl⟩ := List.mem_map.1 hb
  obtain ⟨ca, hpa, rfl⟩ := (hflat _ hia).1
  obtain ⟨cb, hpb, rfl⟩ := (hflat _ hib).1
  obtain rfl := Except.ok.inj (hpa.symm.trans hca)
  obtain rfl := Except.ok.inj (hpb.symm.trans hcb)
  exact Option.some.inj ((get?_of_mem hnodup hia).symm.trans (get?_of_mem hnodup hib))

end AtomicCss.Proofs
