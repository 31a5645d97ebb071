import AtomicCss.Proofs.ConditionBundle
import AtomicCss.Proofs.Unsetting

/-!
# What an expansion sets

Every form gives as many values as its shorthands have longhands, so none is left over when they
are paired. The longhands are those of an unset, and what the shorthand sets. Under the policy that
expands shorthands a value that is split takes up the keys that an unset takes up.
-/

namespace AtomicCss.Proofs

open Keyed Declaration Property Expansion

/-- How many values a form gives. -/
def arity : Form → ℕ
  | .sides => 4
  | .pair => 2
  | .span => 2
  | .line => 3
  | .border => 12
  | .flex => 3

/-- A plain value that is split into the longhands of a property. -/
def Expands (property : String) (value : Value) : Prop :=
  ∃ normalized, Value.normalizeLeaf property value = .ok normalized ∧
    ∃ parts, normalized.single?.bind (expand? property) = some parts

section

variable {words values : List (List Char)}

lemma length_sides? (h : sides? words = some values) : values.length = 4 := by
  unfold sides? at h
  split at h <;> cases h <;> rfl

lemma length_line? (h : line? words = some values) : values.length = 3 := by
  unfold line? at h
  dsimp only at h
  split at h
  · cases h
  · split at h
    · cases h
      rfl
    · obtain ⟨line, _, rfl⟩ := Option.map_eq_some_iff.1 h
      rfl

lemma length_flex? (h : flex? words = some values) : values.length = 3 := by
  unfold flex? at h
  split at h <;> (try split_ifs at h) <;> cases h <;> rfl

lemma length_values? {form : Form} {body : List Char} (h : values? form body = some values) :
    values.length = arity form := by
  cases form with
  | sides =>
    obtain ⟨_, h⟩ := Option.ite_none_left_eq_some.1 h
    exact length_sides? h
  | pair =>
    unfold values? at h
    dsimp only at h
    split at h <;> cases h <;> rfl
  | span =>
    unfold values? at h
    dsimp only at h
    split at h <;> cases h <;> rfl
  | line => exact length_line? h
  | border =>
    obtain ⟨parts, hparts, rfl⟩ := Option.map_eq_some_iff.1 h
    have hlength := length_line? hparts
    simp [List.length_flatMap, hlength, arity]
  | flex => exact length_flex? h

end

/-- The rows of the table agree with their forms and with what the shorthands set. -/
lemma row_of_targets {property : String} {form : Form} {targets : List String}
    (hform : form? property = some form) (h : targets? property = some targets) :
    targets.length = arity form ∧ targets.Nodup ∧ ∀ l ∈ targets, Sets property l := by
  have htable : ∀ e ∈ expansions, e.2.2.length = arity e.2.1 ∧ e.2.2.Nodup ∧
      ∀ l ∈ e.2.2, l ∈ partsOf e.1 ∨ ∃ m ∈ partsOf e.1, l ∈ partsOf m := by
    decide +kernel
  obtain ⟨hlength, hnodup, hreach⟩ := htable _ (row_mem_expansions hform h)
  refine ⟨hlength, hnodup, fun l hl => ?_⟩
  rcases hreach l hl with hdirect | ⟨m, hm, hl⟩
  · exact sets_of_mem_partsOf hdirect
  · exact (sets_of_mem_partsOf hm).through (sets_of_mem_partsOf hl)

/-- The values are as many as the longhands, so the names of the parts are all of these. -/
lemma names_of_expand? {property value : String} {parts : List (String × String)}
    (h : expand? property value = some parts) :
    targets? property = some (parts.map Prod.fst) ∧ (parts.map Prod.fst).Nodup ∧
      ∀ part ∈ parts, Sets property part.1 := by
  obtain ⟨form, body, mark, values, targets, hform, hvalues, htargets, _, rfl⟩ := expand?_zip h
  obtain ⟨hlength, hnodup, hsets⟩ := row_of_targets hform htargets
  have hnames : (targets.zip (values.map fun v => String.ofList (v ++ mark))).map Prod.fst =
      targets := by
    refine List.map_fst_zip ?_
    rw [List.length_map, length_values? hvalues, hlength]
  rw [hnames]
  exact ⟨htargets, hnodup, fun part hpart => hsets _ (List.of_mem_zip hpart).1⟩

section

variable {setting : Setting} {property : String} {scope suffix atRule : Option String}
  {value : Value} {built : List Entry} {slots : List (String × Slot)}

/-- The entries of a value that is split are those of an unset, property by property. -/
lemma properties_of_entries (hpolicy : setting.config.shorthands = .flatten)
    (hvalue : Expands property value ∨ value = .unset)
    (h : Gives (entries setting property suffix atRule value) built) :
    built.map Entry.property = unsetTargets setting.config property := by
  unfold entries at h
  split at h
  · rw [gives_pure h, List.map_map]
    exact List.map_id _
  · rename_i hset
    obtain ⟨normalized, hn, parts, hparts⟩ := hvalue.resolve_right hset
    obtain ⟨text, _, hexpand⟩ := Option.bind_eq_some_iff.1 hparts
    obtain ⟨htargets, _, _⟩ := names_of_expand? hexpand
    obtain ⟨other, hother, h⟩ := gives_bind h
    obtain ⟨_, _, h⟩ := gives_bind h
    obtain rfl := Except.ok.inj (hn.symm.trans (gives_ofCss hother))
    have hpart : underPolicy setting.config property normalized =
        parts.map fun part => (part.1, ⟨[part.2]⟩) := by
      unfold underPolicy
      rw [if_pos (by simp [hpolicy, (targets_proper htargets).1]), hparts]
    rw [gives_pure h, hpart, unsetTargets, if_pos hpolicy, htargets, List.map_map, List.map_map]
    rfl

lemma keys_of_plain (hpolicy : setting.config.shorthands = .flatten)
    (hvalue : Expands property value ∨ value = .unset)
    (h : Gives (plain setting property scope value) slots) :
    keys slots = keys (unsetSlots setting.config property scope) := by
  obtain ⟨built, hbuilt, h⟩ := gives_bind h
  have hproperties := properties_of_entries hpolicy hvalue hbuilt
  rw [gives_pure h, unsetSlots, ← hproperties, keys, keys]
  simp

lemma mem_keys_bundled {items : List (String × Entry)} {name : String} :
    name ∈ keys (bundled items) ↔ ∃ item ∈ items, item.2.property = name := by
  suffices hfold : ∀ bundles : Keyed String Bundle,
      name ∈ keys (items.foldl (fun bundles item =>
        update bundles item.2.property [] fun b => put b item.1 item.2) bundles) ↔
      name ∈ keys bundles ∨ ∃ item ∈ items, item.2.property = name by
    have hnil : name ∉ keys ([] : Keyed String Bundle) := List.not_mem_nil
    exact (hfold []).trans (or_iff_right hnil)
  induction items with
  | nil => simp
  | cons item rest ih =>
    intro bundles
    rw [List.foldl_cons, ih, update, mem_keys_put, List.exists_mem_cons_iff,
      or_comm (a := name = _), or_assoc, eq_comm]

lemma properties_of_leafEntries {leaf : Leaf} {items : List (String × Entry)}
    (hpolicy : setting.config.shorthands = .flatten)
    (hvalue : Expands property leaf.value ∨ leaf.value = .unset)
    (h : Gives (leafEntries setting property scope leaf) items) :
    items.map (fun item => item.2.property) = unsetTargets setting.config property := by
  obtain ⟨_, _, h⟩ := gives_bind h
  obtain ⟨built, hbuilt, h⟩ := gives_bind h
  rw [← properties_of_entries hpolicy hvalue hbuilt, gives_pure h, List.map_map]
  rfl

lemma value_of_flatten {definition : String} {map : List (String × Value)} {leaves : List Leaf}
    {leaf : Leaf} (h : flatten definition property map = .ok leaves) (hleaf : leaf ∈ leaves) :
    ∃ path ∈ leafPathsIn map, path.2 = leaf.value := by
  obtain ⟨found, hfound, rfl⟩ := found_of_flatten h
  obtain ⟨item, hitem, rfl⟩ := List.mem_map.1 hleaf
  have hmem := (lastOfEach_sublist found).subset hitem
  obtain ⟨path, hpath, _, _, _, _, rfl⟩ := exists_of_forall₂ hfound hmem
  exact ⟨path, hpath, rfl⟩

/-- A map of conditions has a leaf, and all of its leaves are split into the same longhands. -/
lemma mem_keys_conditional {map : List (String × Value)}
    (hpolicy : setting.config.shorthands = .flatten) (hmap : isConditionMap map = true)
    (hleaves : ∀ leaf ∈ leafPathsIn map, Expands property leaf.2 ∨ leaf.2 = .unset)
    (h : Gives (conditional setting property scope map) slots) {key : String} :
    key ∈ keys slots ↔ key ∈ keys (unsetSlots setting.config property scope) := by
  obtain ⟨leaves, hflat, h⟩ := gives_bind h
  obtain ⟨groups, hgroups, h⟩ := gives_bind h
  have hflat := gives_ofExcept hflat
  have hsame : ∀ group ∈ groups,
      group.map (fun item => item.2.property) = unsetTargets setting.config property := by
    intro group hgroup
    obtain ⟨leaf, hleaf, hgives⟩ := gives_mapM_mem hgroups hgroup
    obtain ⟨path, hpath, heq⟩ := value_of_flatten hflat hleaf
    have hvalue := hleaves path hpath
    rw [heq] at hvalue
    exact properties_of_leafEntries hpolicy hvalue hgives
  have hsome : groups ≠ [] := by
    rintro rfl
    cases gives_mapM hgroups
    exact ne_nil_of_flatten hmap hflat rfl
  have hbundled : ∀ name, name ∈ keys (bundled groups.flatten) ↔
      name ∈ unsetTargets setting.config property := by
    intro name
    rw [mem_keys_bundled]
    constructor
    · rintro ⟨item, hitem, rfl⟩
      obtain ⟨group, hgroup, hin⟩ := List.mem_flatten.1 hitem
      rw [← hsame group hgroup]
      exact List.mem_map_of_mem hin
    · intro hname
      obtain ⟨group, hgroup⟩ := List.exists_mem_of_ne_nil groups hsome
      rw [← hsame group hgroup] at hname
      obtain ⟨item, hitem, rfl⟩ := List.mem_map.1 hname
      exact ⟨item, List.mem_flatten.2 ⟨group, hgroup, hitem⟩, rfl⟩
  have hkeys : keys slots =
      (keys (bundled groups.flatten)).map fun name => Naming.slotKey name scope := by
    rw [gives_pure h, keys, keys, List.map_map, List.map_map]
    rfl
  have hunset : keys (unsetSlots setting.config property scope) =
      (unsetTargets setting.config property).map fun name => Naming.slotKey name scope := by
    rw [keys, unsetSlots, List.map_map]
    rfl
  rw [hkeys, hunset, List.mem_map, List.mem_map]
  exact exists_congr fun name => and_congr_left fun _ => hbundled name

/-- A declaration whose values are split takes up the keys that an unset takes up. -/
lemma mem_keys_of_expands (hpolicy : setting.config.shorthands = .flatten)
    (hvalue : ∀ leaf ∈ leafPaths value, Expands property leaf.2 ∨ leaf.2 = .unset)
    (h : Gives (Declaration.property setting property scope value) slots) {key : String} :
    key ∈ keys slots ↔ key ∈ keys (unsetSlots setting.config property scope) := by
  obtain ⟨_, _, h⟩ := gives_bind h
  obtain ⟨_, _, h⟩ := gives_bind h
  cases value with
  | map map =>
    dsimp only at h
    split at h
    · rename_i hmap
      exact mem_keys_conditional hpolicy hmap hvalue h
    · exact (gives_fail h).elim
  | unset | scalar | fallback | firstThatWorks =>
    rw [keys_of_plain hpolicy (hvalue _ (List.mem_singleton_self _)) h]

end

/-- An expansion sets exactly the longhands that its shorthand expands to, in their order and each
once, and the shorthand sets all of them. So where shorthands are expanded, a declaration whose
values are split fills the keys that an unset of its property in its scope fills, and this unset is
possible. -/
theorem expand?_sets_targets {property : String} :
    (∀ {value : String} {parts : List (String × String)}, expand? property value = some parts →
      targets? property = some (parts.map Prod.fst) ∧ (parts.map Prod.fst).Nodup ∧
        ∀ part ∈ parts, Sets property part.1 ∧ part.1 ∈ allLonghands property) ∧
    ∀ {setting : Setting} {scope : Option String} {value : Value} {slots : List (String × Slot)},
      setting.config.shorthands = .flatten →
      (∀ leaf ∈ leafPaths value, Expands property leaf.2 ∨ leaf.2 = .unset) →
      Gives (Declaration.property setting property scope value) slots →
      ∃ unset, Gives (Declaration.property setting property scope .unset) unset ∧
        ∀ key, key ∈ keys slots ↔ key ∈ keys unset := by
  refine ⟨fun h => ?_, fun hpolicy hvalue h => ?_⟩
  · obtain ⟨htargets, hnodup, hsets⟩ := names_of_expand? h
    exact ⟨htargets, hnodup, fun part hpart =>
      ⟨hsets part hpart, mem_allLonghands_of_sets (hsets part hpart)⟩⟩
  · exact ⟨_, gives_property_unset h, fun key => mem_keys_of_expands hpolicy hvalue h⟩

/-- A margin with a condition. -/
def hoveredMargin : Value :=
  .map [("default", .scalar (.text "1px 2px")), (":hover", .scalar (.text "0"))]

theorem expand?_sets_targets_margin :
    targets? "margin" = some ["margin-top", "margin-right", "margin-bottom", "margin-left"] ∧
      ∃ slots unset,
        Gives (Declaration.property ⟨{ shorthands := .flatten }, "item"⟩ "margin" none
          hoveredMargin) slots ∧
        Gives (Declaration.property ⟨{ shorthands := .flatten }, "item"⟩ "margin" none
          .unset) unset ∧
        ∀ key, key ∈ keys slots ↔ key ∈ keys unset := by
  have hexpand : expand? "margin" "1px 2px" =
      some [("margin-top", "1px"), ("margin-right", "2px"), ("margin-bottom", "1px"),
        ("margin-left", "2px")] := by
    decide +kernel
  have hleaves : ∀ leaf ∈ leafPaths hoveredMargin,
      Expands "margin" leaf.2 ∨ leaf.2 = .unset := by
    have hpair : Expands "margin" (.scalar (.text "1px 2px")) :=
      ⟨⟨["1px 2px"]⟩, by decide +kernel, _, hexpand⟩
    have hzero : Expands "margin" (.scalar (.text "0")) :=
      ⟨⟨["0"]⟩, by decide +kernel, [("margin-top", "0"), ("margin-right", "0"),
        ("margin-bottom", "0"), ("margin-left", "0")], by decide +kernel⟩
    exact List.forall_mem_cons.2 ⟨.inl hpair, List.forall_mem_singleton.2 (.inl hzero)⟩
  have hok : (Declaration.property ⟨{ shorthands := .flatten }, "item"⟩ "margin" none
      hoveredMargin).collect.1.isOk = true := by
    decide +kernel
  obtain ⟨slots, hslots⟩ := eq_ok_of_isOk hok
  have hgives := gives_of_collect hslots
  obtain ⟨unset, hunset, hkeys⟩ := expand?_sets_targets.2 rfl hleaves hgives
  exact ⟨(expand?_sets_targets.1 hexpand).1, slots, unset, hgives, hunset, hkeys⟩

end AtomicCss.Proofs
