import AtomicCss.Proofs.ConditionBundle
import AtomicCss.Proofs.ConditionParts
import AtomicCss.Proofs.Unsetting

/-!
# Pseudo-elements as groups and as conditions

A pseudo-element can hold a group of properties, or stand as the outermost condition of one
property. The leaves are the same, each with the pseudo-element between the parts of its condition;
this is a renaming of keys that keeps them apart. So the entries are the same, in the same order,
although the slots have other keys.
-/

namespace AtomicCss.Proofs

open Keyed Declaration

/-- Renaming the keys of the items renames those of the bundles. -/
lemma bundled_map {f : String → String} {items : List (String × Entry)}
    (hf : KeepsApart f (keys items) (keys items)) :
    bundled (items.map (Prod.map f id)) =
      (bundled items).map (Prod.map id (List.map (Prod.map f id))) := by
  -- the keys of the bundles filled so far are among those of the items
  suffices hfold : ∀ (part : List (String × Entry)) (bundles : Keyed String Bundle),
      (∀ item ∈ part, item.1 ∈ keys items) →
      (∀ pair ∈ bundles, ∀ key ∈ keys pair.2, key ∈ keys items) →
      (part.map (Prod.map f id)).foldl (fun bundles item =>
          update bundles item.2.property [] fun b => put b item.1 item.2)
          (bundles.map (Prod.map id (List.map (Prod.map f id)))) =
        (part.foldl (fun bundles item =>
          update bundles item.2.property [] fun b => put b item.1 item.2) bundles).map
          (Prod.map id (List.map (Prod.map f id))) by
    exact hfold items [] (fun item hi => List.mem_map_of_mem hi) (by simp)
  intro part
  induction part with
  | nil => exact fun _ _ _ => rfl
  | cons item rest ih =>
    intro bundles hpart hbundles
    have hrest : ∀ other ∈ rest, other.1 ∈ keys items := fun other ho =>
      hpart other (List.mem_cons_of_mem _ ho)
    have hkey := hpart item List.mem_cons_self
    have hold : ∀ key ∈ keys ((get? bundles item.2.property).getD []), key ∈ keys items := by
      cases hget : get? bundles item.2.property with
      | none => exact nofun
      | some bundle => exact hbundles _ (mem_of_get? hget)
    have hput : update (bundles.map (Prod.map id (List.map (Prod.map f id)))) item.2.property []
          (fun b => put b (f item.1) item.2) =
        (update bundles item.2.property [] fun b => put b item.1 item.2).map
          (Prod.map id (List.map (Prod.map f id))) := by
      have happart : KeepsApart f (keys ((get? bundles item.2.property).getD [])) [item.1] := by
        intro a ha b hb
        rw [List.mem_singleton.1 hb]
        exact hf a (hold a ha) _ hkey
      have hdefault : ((get? bundles item.2.property).map (List.map (Prod.map f id))).getD [] =
          ((get? bundles item.2.property).getD []).map (Prod.map f id) := by
        cases get? bundles item.2.property <;> rfl
      have hbundle := put_map (g := (id : Entry → Entry)) happart item.2
      unfold update
      rw [get?_map, hdefault]
      dsimp only [id] at hbundle ⊢
      rw [hbundle]
      exact put_map (f := id) (fun _ _ _ _ h => h) _
    rw [List.map_cons, List.foldl_cons, List.foldl_cons]
    dsimp only [Prod.map_fst, Prod.map_snd, id]
    rw [hput]
    refine ih _ hrest fun pair hpair key hk => ?_
    rcases mem_put hpair with rfl | hpair
    · rcases mem_keys_put.1 hk with rfl | hk
      · exact hkey
      · exact hold key hk
    · exact hbundles pair hpair key hk

/-- With one key for all items, every bundle holds one of them. -/
lemma bundled_same_key (key : String) (built : List Entry) :
    bundled (built.map fun e => (key, e)) =
      (putAll [] (built.map fun e => (e.property, e))).map (Prod.map id fun e => [(key, e)]) := by
  suffices hfold : ∀ m : Keyed String Entry,
      (built.map fun e => (key, e)).foldl (fun bundles item =>
          update bundles item.2.property [] fun b => put b item.1 item.2)
          (m.map (Prod.map id fun e => [(key, e)])) =
        (putAll m (built.map fun e => (e.property, e))).map (Prod.map id fun e => [(key, e)]) by
    exact hfold []
  induction built with
  | nil => exact fun _ => rfl
  | cons e rest ih =>
    intro m
    have hput : update (m.map (Prod.map id fun e => [(key, e)])) e.property []
          (fun b => put b key e) =
        (put m e.property e).map (Prod.map id fun e => [(key, e)]) := by
      have hone : put (((get? m e.property).map fun e => [(key, e)]).getD []) key e =
          [(key, e)] := by
        cases get? m e.property <;> simp [put]
      unfold update
      rw [get?_map]
      dsimp only
      rw [hone]
      exact put_map (f := id) (fun _ _ _ _ h => h) e
    rw [List.map_cons, List.foldl_cons, hput, ih]
    rfl

lemma nodup_keys_bundled (items : List (String × Entry)) : (keys (bundled items)).Nodup := by
  suffices hfold : ∀ bundles : Keyed String Bundle, (keys bundles).Nodup →
      (keys (items.foldl (fun bundles item =>
        update bundles item.2.property [] fun b => put b item.1 item.2) bundles)).Nodup by
    exact hfold [] List.nodup_nil
  induction items with
  | nil => exact fun _ h => h
  | cons item rest ih => exact fun bundles h => ih _ (nodup_keys_put h _ _)

/-- Slots of different properties in one scope do not replace each other. -/
lemma putAll_slots {α : Type} {m : Keyed String α} (hm : (keys m).Nodup) (scope : Option String)
    (g : α → Slot) : putAll [] (m.map (Prod.map (Naming.slotKey · scope) g)) =
      m.map (Prod.map (Naming.slotKey · scope) g) := by
  refine putAll_append ?_
  rw [List.nil_append, keys_map]
  exact hm.map fun _ _ => slotKey_property_injective

section

variable {setting : Setting} {name pseudo : String} {scope : Option String} {value : Value}
  {map : List (String × Value)} {slots : List (String × Slot)} {m : ClassEntries}

lemma gives_unique {α : Type} {p : Processing α} (hp : Steady p) {a b : α} (ha : Gives p a)
    (hb : Gives p b) : a = b :=
  Except.ok.inj ((hp.collect ha).symm.trans (hp.collect hb))

lemma slots_of_single (hname : ConditionKind.ofKey? name ≠ some .pseudoElement)
    (h : Gives (classEntries setting [(name, value)]) m) :
    ∃ slots, Gives (Declaration.property setting (Property.dashCase name) none value) slots ∧
      m = putAll [] slots := by
  obtain ⟨_, found, hfound, rfl⟩ := gives_classEntries_iff.1 h
  obtain ⟨slots, rfl, hslots⟩ := gives_mapM_singleton hfound
  rw [slots_of_property setting hname] at hslots
  exact ⟨slots, hslots, by simp⟩

lemma slots_of_grouped (hpseudo : ConditionKind.ofKey? pseudo = some .pseudoElement)
    (h : Gives (classEntries setting [(pseudo, .map [(name, value)])]) m) :
    ConditionKind.ofKey? name = none ∧ (∃ c, Condition.parse pseudo = .ok c) ∧
      ∃ slots, m = putAll [] slots ∧
        Gives (Declaration.property setting (Property.dashCase name) (some pseudo) value)
          slots := by
  obtain ⟨_, found, hfound, rfl⟩ := gives_classEntries_iff.1 h
  obtain ⟨_, rfl, hgroup⟩ := gives_mapM_singleton hfound
  rw [slots_of_group setting hpseudo] at hgroup
  obtain ⟨_, ⟨c, hparse⟩, _, inner, hinner, rfl⟩ := gives_pseudoElement_iff.1 hgroup
  obtain ⟨slots, rfl, hsingle⟩ := gives_mapM_singleton hinner
  obtain ⟨_, hname, hslots⟩ := gives_bind hsingle
  exact ⟨by simpa using gives_require hname, ⟨c, gives_ofCss hparse⟩, slots, by simp, hslots⟩

lemma gives_conditional_of_property
    (h : Gives (Declaration.property setting name scope (.map map)) slots) :
    Gives (conditional setting name scope map) slots := by
  obtain ⟨_, _, h⟩ := gives_bind h
  obtain ⟨_, _, h⟩ := gives_bind h
  dsimp only at h
  split at h
  · exact h
  · exact (gives_fail h).elim

/-- A map of conditions is processed leaf by leaf, behind the last one of each condition. -/
lemma items_of_conditional (h : Gives (conditional setting name scope map) slots) :
    ∃ found items, List.Forall₂ (FoundAt "") (leafPathsIn map) found ∧
      List.Forall₂ (fun leaf item => Gives (leafEntries setting name scope leaf) item)
        ((lastOfEach found).map Prod.snd) items ∧
      slots = (bundled items.flatten).map (Prod.map (Naming.slotKey · scope) .bundle) := by
  obtain ⟨leaves, hleaves, h⟩ := gives_bind h
  obtain ⟨items, hitems, hslots⟩ := gives_bind h
  obtain ⟨found, hfound, rfl⟩ := found_of_flatten (gives_ofExcept hleaves)
  exact ⟨found, items, hfound, gives_mapM hitems, gives_pure hslots⟩

end

/-- The leaf under the condition with a pseudo-element in it. -/
def movedLeaf (pseudo : String) (leaf : Leaf) : Leaf :=
  ⟨withPseudo pseudo leaf.condition, leaf.value⟩

/-- The key of a bundle, with the pseudo-element in it. -/
def movedKey (pseudo key : String) : String :=
  withPseudo pseudo (writtenKey key)

section

variable {setting : Setting} {property pseudo parent : String} {path : List String} {leaf : Leaf}
  {value : Value}

lemma opensCondition_of_parted {text : String} (h : IsParted text) : OpensCondition text := by
  obtain ⟨rules, suffix, h⟩ := h
  have hopens : text.toList = [] ∨ text.toList.head? = some '@' ∨ text.toList.head? = some ':' := by
    rw [h.eq]
    rcases h.rules.opens with rfl | hhead
    · exact h.suffix.opens.imp_right .inr
    · exact .inr (.inl (by rw [List.head?_append, hhead, Option.some_or]))
  rcases hopens with hnil | hhead | hhead
  · exact .inl (String.toList_eq_nil_iff.1 hnil)
  · exact .inr (beginsCondition_of_head hhead)
  · obtain ⟨rest, hrest⟩ := List.head?_eq_some_iff.1 hhead
    refine .inr ?_
    unfold beginsCondition
    rw [hrest]
    rfl

variable (hpseudo : IsPseudo pseudo.toList)

include hpseudo

lemma composed_withPseudo (hparent : IsParted parent) (hpath : ∀ key ∈ path, PlainKey key)
    {condition : String} (h : composed parent path = .ok condition) :
    IsParted condition ∧
      composed (withPseudo pseudo parent) path = .ok (withPseudo pseudo condition) := by
  induction path generalizing parent with
  | nil =>
    obtain rfl := Except.ok.inj h
    exact ⟨hparent, rfl⟩
  | cons key path ih =>
    obtain ⟨deeper, hcompose, h⟩ := bind_eq_ok h
    obtain ⟨hdeeper, hmoved⟩ := compose_withPseudo hpseudo hparent (hpath key List.mem_cons_self)
      hcompose
    rw [composed_cons_of_eq hmoved]
    exact ih hdeeper (fun key hkey => hpath key (List.mem_cons_of_mem _ hkey)) h

/-- What is found on a path is moved as a whole. -/
lemma FoundAt.moved {leaf : List String × Value} {item other : String × Leaf}
    (hparent : IsParted parent) (hpath : ∀ key ∈ leaf.1, PlainKey key)
    (h : FoundAt parent leaf item) (hother : FoundAt (withPseudo pseudo parent) leaf other) :
    (IsParted item.1 ∧ IsParted item.2.condition) ∧
      other = Prod.map (withPseudo pseudo) (movedLeaf pseudo) item := by
  obtain ⟨condition, c, hcomposed, hparse, rfl⟩ := h
  obtain ⟨condition', c', hcomposed', hparse', rfl⟩ := hother
  obtain ⟨hparted, hmoved⟩ := composed_withPseudo hpseudo hparent hpath hcomposed
  obtain rfl := Except.ok.inj (hmoved.symm.trans hcomposed')
  obtain ⟨d, hd, _, _, hkey, heq⟩ := parse_withPseudo hpseudo hparted hparse
  obtain rfl := Except.ok.inj (hd.symm.trans hparse')
  refine ⟨⟨hkey, hparted⟩, ?_⟩
  rw [heq]
  rfl

lemma bundleKey_withPseudo {condition : String} (h : IsParted condition) :
    bundleKey (withPseudo pseudo condition) = movedKey pseudo (bundleKey condition) := by
  have hne : withPseudo pseudo condition ≠ "" := by
    obtain ⟨rules, suffix, h⟩ := h
    intro hempty
    have hnil : (withPseudo pseudo condition).toList = _ := toList_withPseudo h
    rw [hempty] at hnil
    have hopens := hpseudo.opens
    rw [(List.append_eq_nil_iff.1 (List.append_eq_nil_iff.1 hnil.symm).2).1] at hopens
    cases hopens
  unfold movedKey
  rw [writtenKey_bundleKey (opensCondition_of_parted h), bundleKey, if_neg (by simpa using hne)]

/-- A leaf gives the same entries in the group and under the condition. -/
lemma leafEntries_moved {items others : List (String × Entry)} (hleaf : IsParted leaf.condition)
    (h : Gives (leafEntries setting property (some pseudo) leaf) items)
    (hother : Gives (leafEntries setting property none (movedLeaf pseudo leaf)) others) :
    others = items.map (Prod.map (movedKey pseudo) id) ∧
      ∀ key ∈ keys items, key = bundleKey leaf.condition := by
  obtain ⟨c, hc, h⟩ := gives_bind h
  obtain ⟨built, hbuilt, h⟩ := gives_bind h
  obtain ⟨c', hc', hother⟩ := gives_bind hother
  obtain ⟨built', hbuilt', hother⟩ := gives_bind hother
  obtain ⟨d, hd, hrule, hsuffix, _⟩ := parse_withPseudo hpseudo hleaf (gives_ofCss hc)
  obtain rfl := Except.ok.inj (hd.symm.trans (gives_ofCss hc'))
  rw [hsuffix, ← hrule] at hbuilt
  obtain rfl := gives_unique (steady_entries setting _ _ _ _) hbuilt hbuilt'
  rw [gives_pure h, gives_pure hother]
  constructor
  · rw [List.map_map]
    refine List.map_congr_left fun e _ => ?_
    exact Prod.ext (bundleKey_withPseudo hpseudo hleaf) rfl
  · intro key hkey
    unfold keys at hkey
    rw [List.map_map] at hkey
    obtain ⟨e, _, rfl⟩ := List.mem_map.1 hkey
    rfl

omit hpseudo in
lemma compose_pseudo (hhead : pseudo.toList.head? = some ':') :
    compose "" pseudo = .ok (withPseudo pseudo "") := by
  unfold compose
  rw [if_neg (by simp [hhead]), join_of_head (by decide) hhead, withPseudo_empty,
    String.empty_append]

lemma found_under {found : List (String × Leaf)}
    (h : List.Forall₂ (FoundAt "") (leafPathsIn [(pseudo, value)]) found) :
    List.Forall₂ (FoundAt (withPseudo pseudo "")) (leafPaths value) found := by
  rw [leafPathsIn, leafPathsIn, List.append_nil, List.forall₂_map_left_iff] at h
  refine h.imp fun leaf item hfound => ?_
  obtain ⟨condition, c, hcomposed, hrest⟩ := hfound
  rw [composed_cons_of_eq (compose_pseudo hpseudo.opens)] at hcomposed
  exact ⟨condition, c, hcomposed, hrest⟩

/-- All that is found is moved. -/
lemma found_moved {leaves : List (List String × Value)} {found others : List (String × Leaf)}
    (hparent : IsParted parent) (hkeys : ∀ leaf ∈ leaves, ∀ key ∈ leaf.1, PlainKey key)
    (h : List.Forall₂ (FoundAt parent) leaves found)
    (hother : List.Forall₂ (FoundAt (withPseudo pseudo parent)) leaves others) :
    others = found.map (Prod.map (withPseudo pseudo) (movedLeaf pseudo)) ∧
      ∀ item ∈ found, IsParted item.1 ∧ IsParted item.2.condition := by
  induction h generalizing others with
  | nil =>
    cases hother
    exact ⟨rfl, by simp⟩
  | cons hitem _ ih =>
    cases hother with
    | cons hmoved hothers =>
      obtain ⟨hrest, hparts⟩ := ih (fun leaf hl => hkeys leaf (List.mem_cons_of_mem _ hl)) hothers
      obtain ⟨hparted, heq⟩ := hitem.moved hpseudo hparent (hkeys _ List.mem_cons_self) hmoved
      exact ⟨by rw [hrest, heq, List.map_cons], List.forall_mem_cons.2 ⟨hparted, hparts⟩⟩

lemma items_moved {leaves : List Leaf} {items others : List (List (String × Entry))}
    (hleaves : ∀ leaf ∈ leaves, IsParted leaf.condition)
    (h : List.Forall₂
      (fun leaf item => Gives (leafEntries setting property (some pseudo) leaf) item) leaves items)
    (hother : List.Forall₂ (fun leaf item => Gives (leafEntries setting property none leaf) item)
      (leaves.map (movedLeaf pseudo)) others) :
    others.flatten = items.flatten.map (Prod.map (movedKey pseudo) id) ∧
      ∀ key ∈ keys items.flatten, ∃ leaf ∈ leaves, key = bundleKey leaf.condition := by
  induction h generalizing others with
  | nil =>
    cases hother
    exact ⟨rfl, by simp [keys]⟩
  | @cons leaf item leaves items hitem _ ih =>
    cases hother with
    | cons hmoved hothers =>
      obtain ⟨hrest, hkeys⟩ := ih (fun leaf hl => hleaves leaf (List.mem_cons_of_mem _ hl)) hothers
      obtain ⟨heq, hkey⟩ := leafEntries_moved hpseudo (hleaves leaf List.mem_cons_self) hitem hmoved
      refine ⟨by rw [List.flatten_cons, List.flatten_cons, hrest, heq, List.map_append], ?_⟩
      intro key hmem
      unfold keys at hmem
      rw [List.flatten_cons, List.map_append] at hmem
      rcases List.mem_append.1 hmem with hmem | hmem
      · exact ⟨leaf, List.mem_cons_self, hkey key hmem⟩
      · obtain ⟨leaf', hleaf', heq'⟩ := hkeys key hmem
        exact ⟨leaf', List.mem_cons_of_mem _ hleaf', heq'⟩

/-- The bundles of a map in the group are those under the condition, with the pseudo-element left
out of their keys. -/
lemma bundles_moved {map : List (String × Value)} {slots others : List (String × Slot)}
    (hkeys : ∀ leaf ∈ leafPathsIn map, ∀ key ∈ leaf.1, PlainKey key)
    (h : Gives (conditional setting property (some pseudo) map) slots)
    (hother : Gives (conditional setting property none [(pseudo, .map map)]) others) :
    ∃ bundles : Keyed String Bundle, (keys bundles).Nodup ∧
      slots = bundles.map (Prod.map (Naming.slotKey · (some pseudo)) .bundle) ∧
      others = bundles.map (Prod.map (Naming.slotKey · none)
        fun bundle => .bundle (bundle.map (Prod.map (movedKey pseudo) id))) := by
  obtain ⟨found, items, hfound, hitems, rfl⟩ := items_of_conditional h
  obtain ⟨found', items', hfound', hitems', rfl⟩ := items_of_conditional hother
  obtain ⟨rfl, hparted⟩ := found_moved hpseudo isParted_empty hkeys hfound
    (found_under hpseudo hfound')
  have hapart : KeepsApart (withPseudo pseudo) (keys found) (keys found) := by
    intro a ha b hb heq
    obtain ⟨item, hitem, rfl⟩ := List.mem_map.1 ha
    obtain ⟨item', hitem', rfl⟩ := List.mem_map.1 hb
    exact withPseudo_inj hpseudo (hparted item hitem).1 (hparted item' hitem').1 heq
  have hleaves : ∀ leaf ∈ (lastOfEach found).map Prod.snd, IsParted leaf.condition := by
    intro leaf hleaf
    obtain ⟨item, hitem, rfl⟩ := List.mem_map.1 hleaf
    exact (hparted item ((lastOfEach_sublist found).subset hitem)).2
  rw [lastOfEach_map hapart, List.map_map] at hitems'
  have hmoved := items_moved hpseudo hleaves hitems (by simpa [Function.comp_def] using hitems')
  have hentries : KeepsApart (movedKey pseudo) (keys items.flatten) (keys items.flatten) := by
    intro a ha b hb heq
    obtain ⟨leaf, hleaf, rfl⟩ := hmoved.2 a ha
    obtain ⟨leaf', hleaf', rfl⟩ := hmoved.2 b hb
    unfold movedKey at heq
    rw [writtenKey_bundleKey (opensCondition_of_parted (hleaves leaf hleaf)),
      writtenKey_bundleKey (opensCondition_of_parted (hleaves leaf' hleaf'))] at heq
    rw [withPseudo_inj hpseudo (hleaves leaf hleaf) (hleaves leaf' hleaf') heq]
  refine ⟨bundled items.flatten, nodup_keys_bundled _, rfl, ?_⟩
  rw [hmoved.1, bundled_map hentries, List.map_map]
  rfl

/-- A plain value in the group has the slots that it has under the condition, without bundles. -/
lemma slots_moved_plain {slots others : List (String × Slot)}
    (hplain : leafPaths value = [([], value)])
    (h : Gives (plain setting property (some pseudo) value) slots)
    (hother : Gives (conditional setting property none [(pseudo, value)]) others) :
    ∃ built : List Entry,
      slots = (built.map fun e => (e.property, e)).map
        (Prod.map (Naming.slotKey · (some pseudo)) .atomic) ∧
      others = (putAll [] (built.map fun e => (e.property, e))).map
        (Prod.map (Naming.slotKey · none) fun e => .bundle [(bundleKey pseudo, e)]) := by
  obtain ⟨built, hbuilt, hslots⟩ := gives_bind h
  obtain ⟨found, items, hfound, hitems, rfl⟩ := items_of_conditional hother
  have hfound := found_under hpseudo hfound
  rw [hplain] at hfound
  obtain ⟨item, rest, ⟨condition, c, hcomposed, hparse, rfl⟩, hrest, rfl⟩ :=
    List.forall₂_cons_left_iff.1 hfound
  obtain rfl := List.forall₂_nil_left_iff.1 hrest
  obtain rfl := Except.ok.inj hcomposed
  obtain ⟨its, more, hits, hmore, rfl⟩ := List.forall₂_cons_left_iff.1 hitems
  obtain rfl := List.forall₂_nil_left_iff.1 hmore
  obtain ⟨c', hc', hits⟩ := gives_bind hits
  obtain ⟨built', hbuilt', hits⟩ := gives_bind hits
  obtain ⟨d, hd, hrule, hsuffix, _⟩ := parse_withPseudo hpseudo isParted_empty
    (c := ⟨none, none⟩) rfl
  obtain rfl := Except.ok.inj (hd.symm.trans (gives_ofCss hc'))
  rw [hrule, ← hsuffix] at hbuilt'
  obtain rfl := gives_unique (steady_entries setting _ _ _ _) hbuilt hbuilt'
  refine ⟨built, ?_, ?_⟩
  · rw [gives_pure hslots, List.map_map]
    rfl
  · rw [gives_pure hits, withPseudo_empty, List.flatten_cons, List.flatten_nil, List.append_nil,
      ← bundleKey, bundled_same_key, List.map_map]
    rfl

end

/-- The entries of a list of slots do not depend on the keys. -/
lemma entries_slots {κ α : Type} (m : Keyed κ α) (f : κ → String) (g : α → Slot) :
    ClassEntries.entries (m.map (Prod.map f g)) = m.flatMap fun item => (g item.2).entries := by
  unfold ClassEntries.entries
  rw [List.flatMap_map]
  rfl

lemma isPseudo_of_parse {pseudo : String}
    (hpseudo : ConditionKind.ofKey? pseudo = some .pseudoElement)
    (htrim : Text.trim pseudo.toList = pseudo.toList) {c : Condition}
    (h : Condition.parse pseudo = .ok c) : IsPseudo pseudo.toList := by
  have hopens : pseudo.toList.head? = some ':' := by
    unfold ConditionKind.ofKey? at hpseudo
    split at hpseudo
    · cases hpseudo
    · split at hpseudo
      · rename_i heq
        rw [heq]
        rfl
      all_goals cases hpseudo
  refine ⟨hopens, ?_, ?_⟩
  · unfold Condition.parse Condition.parseText at h
    rw [htrim] at h
    obtain ⟨rest, hrest⟩ := List.head?_eq_some_iff.1 hopens
    rw [hrest] at h ⊢
    obtain ⟨_, hbalanced, _⟩ := bind_eq_ok h
    unfold Condition.checkBalanced at hbalanced
    split at hbalanced
    · cases hbalanced
    · assumption
  · rwa [Text.trim, trimStart_of_head (by decide) hopens] at htrim

/-- The same entries in the same order, under keys one of which name the pseudo-element. -/
structure SameInGroup (pseudo : String) (grouped conditioned : ClassEntries) : Prop where
  entries : grouped.entries = conditioned.entries
  keys : ∃ longhands : List String,
    grouped.keys = longhands.map (Naming.slotKey · (some pseudo)) ∧
    conditioned.keys = longhands.map (Naming.slotKey · none)

lemma sameInGroup_plain {setting : Setting} {property pseudo : String} {value : Value}
    {slots others : List (String × Slot)} (hpseudo : IsPseudo pseudo.toList)
    (hplain : leafPaths value = [([], value)])
    (h : Gives (plain setting property (some pseudo) value) slots)
    (hother : Gives (conditional setting property none [(pseudo, value)]) others) :
    SameInGroup pseudo (putAll [] slots) (putAll [] others) := by
  obtain ⟨built, rfl, rfl⟩ := slots_moved_plain hpseudo hplain h hother
  have hapart : ∀ properties : List String,
      KeepsApart (Naming.slotKey · (some pseudo)) properties properties :=
    fun _ _ _ _ _ => slotKey_property_injective
  have hput := @putAll_map _ _ _ _ _ (Naming.slotKey · (some pseudo)) Slot.atomic _
    (built.map fun e => (e.property, e)) [] (hapart _)
  rw [List.map_nil] at hput
  rw [hput, putAll_slots (nodup_keys_putAll (m := []) List.nodup_nil _)]
  refine ⟨?_, _, keys_map _, keys_map _⟩
  rw [entries_slots, entries_slots]
  rfl

lemma sameInGroup_map {setting : Setting} {property pseudo : String}
    {map : List (String × Value)} {slots others : List (String × Slot)}
    (hpseudo : IsPseudo pseudo.toList)
    (hkeys : ∀ leaf ∈ leafPathsIn map, ∀ key ∈ leaf.1, PlainKey key)
    (h : Gives (conditional setting property (some pseudo) map) slots)
    (hother : Gives (conditional setting property none [(pseudo, .map map)]) others) :
    SameInGroup pseudo (putAll [] slots) (putAll [] others) := by
  obtain ⟨bundles, hbundles, rfl, rfl⟩ := bundles_moved hpseudo hkeys h hother
  rw [putAll_slots hbundles, putAll_slots hbundles]
  refine ⟨?_, _, keys_map _, keys_map _⟩
  rw [entries_slots, entries_slots]
  simp [Slot.entries, Function.comp_def]

/-- A property in the group of a pseudo-element has the entries that it has under the pseudo-element
as a condition, in the same order; only the keys of the slots name the group. -/
theorem group_same_as_condition {setting : Setting} {name pseudo : String} {value : Value}
    {grouped conditioned : ClassEntries}
    (hpseudo : ConditionKind.ofKey? pseudo = some .pseudoElement)
    (htrim : Text.trim pseudo.toList = pseudo.toList)
    (hkeys : ∀ leaf ∈ leafPaths value, ∀ key ∈ leaf.1, PlainKey key)
    (hgrouped : (classEntries setting [(pseudo, .map [(name, value)])]).collect.1 = .ok grouped)
    (hconditioned : (classEntries setting [(name, .map [(pseudo, value)])]).collect.1 =
      .ok conditioned) :
    SameInGroup pseudo grouped conditioned := by
  obtain ⟨hname, ⟨c, hparse⟩, slots, rfl, hslots⟩ :=
    slots_of_grouped hpseudo (gives_of_collect hgrouped)
  obtain ⟨others, hothers, rfl⟩ := slots_of_single (by simp [hname])
    (gives_of_collect hconditioned)
  have hshape := isPseudo_of_parse hpseudo htrim hparse
  have hconditional := gives_conditional_of_property hothers
  cases value with
  | map entries =>
    exact sameInGroup_map hshape hkeys (gives_conditional_of_property hslots) hconditional
  | unset | scalar | fallback | firstThatWorks =>
    obtain ⟨_, _, hslots⟩ := gives_bind hslots
    obtain ⟨_, _, hslots⟩ := gives_bind hslots
    exact sameInGroup_plain hshape rfl hslots hconditional

/-- Margins of a pseudo-element, two of which are for the same condition. -/
def marginsInPrint : Value :=
  .map [("default", .scalar (.text "1px 2px")),
    (":hover", .map [("@media (width > 1px)", .scalar (.text "3px")), ("default", .unset)]),
    ("@media  (width > 1px)", .map [(":hover", .scalar (.text "4px"))])]

theorem group_same_as_condition_marginsInPrint :
    ∃ grouped conditioned : ClassEntries,
      (classEntries ⟨{ shorthands := .flatten }, "box"⟩
        [("::after", .map [("margin", marginsInPrint)])]).collect.1 = .ok grouped ∧
      (classEntries ⟨{ shorthands := .flatten }, "box"⟩
        [("margin", .map [("::after", marginsInPrint)])]).collect.1 = .ok conditioned ∧
      grouped.entries.length = 12 ∧ grouped.keys = ["margin-top:::after", "margin-right:::after",
        "margin-bottom:::after", "margin-left:::after"] ∧
      SameInGroup "::after" grouped conditioned := by
  have hruns : ((classEntries ⟨{ shorthands := .flatten }, "box"⟩
        [("::after", .map [("margin", marginsInPrint)])]).collect.1.toOption.map fun m =>
          (m.entries.length, m.keys)) = some (12, ["margin-top:::after", "margin-right:::after",
        "margin-bottom:::after", "margin-left:::after"]) ∧
      (classEntries ⟨{ shorthands := .flatten }, "box"⟩
        [("margin", .map [("::after", marginsInPrint)])]).collect.1.toOption.isSome := by
    decide +kernel
  obtain ⟨hgrouped, hconditioned⟩ := hruns
  obtain ⟨grouped, hgrouped, hshown⟩ := Option.map_eq_some_iff.1 hgrouped
  obtain ⟨conditioned, hconditioned⟩ := Option.isSome_iff_exists.1 hconditioned
  obtain ⟨hlength, hkeys⟩ := Prod.mk.inj hshown
  have hplain : ∀ leaf ∈ leafPaths marginsInPrint, ∀ key ∈ leaf.1, PlainKey key := by
    have hpaths : (leafPaths marginsInPrint).map Prod.fst = [["default"],
        [":hover", "@media (width > 1px)"], [":hover", "default"],
        ["@media  (width > 1px)", ":hover"]] := rfl
    have hkey : ∀ key ∈ ["default", ":hover", "@media (width > 1px)", "@media  (width > 1px)"],
        PlainKey key := by
      simp only [List.mem_cons, List.not_mem_nil, or_false]
      rintro key (rfl | rfl | rfl | rfl)
      · exact .default
      · exact .pseudo (by decide +kernel) (by decide +kernel)
      · exact .rule (by decide +kernel) (by decide +kernel) (by decide +kernel)
      · exact .rule (by decide +kernel) (by decide +kernel) (by decide +kernel)
    have hknown : ∀ path ∈ (leafPaths marginsInPrint).map Prod.fst, ∀ key ∈ path,
        key ∈ ["default", ":hover", "@media (width > 1px)", "@media  (width > 1px)"] := by
      rw [hpaths]
      decide +kernel
    exact fun leaf hleaf key hmem => hkey key (hknown _ (List.mem_map_of_mem hleaf) key hmem)
  have hgroup : ConditionKind.ofKey? "::after" = some .pseudoElement := by decide +kernel
  have htrim : Text.trim "::after".toList = "::after".toList := by decide +kernel
  exact ⟨grouped, conditioned, eq_ok_of_toOption hgrouped, eq_ok_of_toOption hconditioned, hlength,
    hkeys, group_same_as_condition hgroup htrim hplain (eq_ok_of_toOption hgrouped)
      (eq_ok_of_toOption hconditioned)⟩

end AtomicCss.Proofs
