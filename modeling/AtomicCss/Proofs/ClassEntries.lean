import AtomicCss.Class.Dynamic
import AtomicCss.Proofs.Keyed
import AtomicCss.Proofs.Processing

/-!
# Where the slots of a class come from

Every slot of a class was written by one declared property, directly or inside the group of a
pseudo-element, and every entry in it is an unset or a normalized value of that property under a
condition that was written there. Proofs about classes start from these lemmas.
-/

namespace AtomicCss.Proofs

open Keyed Declaration

/-- The entries that a value gives a property under a condition. -/
inductive EntryOf (config : Config) (property : String) (suffix atRule : Option String)
    (value : Value) : Entry → Prop
  | unset {target : String} : value = .unset → target ∈ unsetTargets config property →
    EntryOf config property suffix atRule value (.unset target suffix atRule)
  | build {normalized : Normalized} {part : String × Normalized} :
    Value.normalizeLeaf property value = .ok normalized →
    part ∈ underPolicy config property normalized →
    EntryOf config property suffix atRule value (.build config part.1 part.2 suffix atRule)

/-- The key in a bundle of what is written under a condition. -/
def bundleKey (written : String) : String :=
  if written.isEmpty then defaultKey else written

/-- An entry in a bundle, with the leaf that it was written by. -/
def LeafEntry (config : Config) (property : String) (scope : Option String) (leaf : Leaf)
    (item : String × Entry) : Prop :=
  ∃ condition, Condition.parse leaf.condition = .ok condition ∧
    item.1 = bundleKey leaf.condition ∧
    EntryOf config property (suffixBehind scope condition.suffix) condition.atRule leaf.value item.2

/-- The slots that a value gives a property in the scope of a pseudo-element or of none. -/
inductive SlotOf (config : Config) (property : String) (scope : Option String) (value : Value) :
    String × Slot → Prop
  | atomic {e : Entry} : EntryOf config property scope none value e →
    SlotOf config property scope value (Naming.slotKey e.property scope, .atomic e)
  | bundle {definition longhand : String} {map : List (String × Value)} {leaves : List Leaf}
    {bundle : Bundle} : value = .map map → flatten definition property map = .ok leaves →
    (keys bundle).Nodup → (∀ item ∈ bundle, item.2.property = longhand ∧
      ∃ leaf ∈ leaves, LeafEntry config property scope leaf item) →
    SlotOf config property scope value (Naming.slotKey longhand scope, .bundle bundle)

/-- The declared properties of a class, with the pseudo-element whose group they stand in. -/
inductive Declares (declarations : Declarations) : String → Option String → Value → Prop
  | plain {key : String} {value : Value} : (key, value) ∈ declarations →
    Declares declarations (Property.dashCase key) none value
  | grouped {key name : String} {group : Declarations} {value : Value} :
    (key, .map group) ∈ declarations → ConditionKind.ofKey? key = some .pseudoElement →
    (name, value) ∈ group → Declares declarations (Property.dashCase name) (some key) value

/-- No shorthand stands beside a property that it sets. -/
def Compatible (properties : List String) : Prop :=
  ∀ s ∈ properties, Property.isShorthand s = true →
    ∀ l ∈ properties, l ∉ Property.allLonghands s

/-- The names of a list of declarations that are checked together. -/
def checkedNames (declarations : Declarations) : List String :=
  ((declarations.map Prod.fst).filter fun key => !beginsCondition key).map Property.dashCase

lemma checkForbidden_eq_ok_iff {definition : String} {properties : List String} :
    Expansion.checkForbidden definition properties = .ok () ↔ Compatible properties := by
  have hnone : properties.findSome? (fun shorthand =>
      if Property.isShorthand shorthand then
        (properties.find? (Property.allLonghands shorthand).contains).map fun l => (shorthand, l)
      else none) = none ↔ Compatible properties := by
    rw [List.findSome?_eq_none_iff]
    refine forall₂_congr fun s _ => ?_
    by_cases hs : Property.isShorthand s = true <;> simp [hs]
  unfold Expansion.checkForbidden
  rw [← hnone]
  dsimp only
  split
  · rename_i hfound
    rw [hfound]
    exact ⟨nofun, nofun⟩
  · rename_i hfound
    exact iff_of_true rfl hfound

/-- Only the forbidding policy minds anything, and it minds the names only. -/
lemma gives_checkPolicy_iff {setting : Setting} {declarations : Declarations} :
    Gives (checkPolicy setting declarations) () ↔
      (setting.config.shorthands = .forbid → Compatible (checkedNames declarations)) := by
  unfold checkPolicy
  split
  · rename_i hforbid
    constructor
    · exact fun h _ => checkForbidden_eq_ok_iff.1 (gives_ofExcept h)
    · exact fun h => ⟨[], checkForbidden_eq_ok_iff.2 (h hforbid)⟩
  · rename_i hother
    exact iff_of_true ⟨[], rfl⟩ fun hforbid => (hother hforbid).elim

lemma entryOf_of_gives {setting : Setting} {property : String} {suffix atRule : Option String}
    {value : Value} {built : List Entry} {e : Entry}
    (h : Gives (entries setting property suffix atRule value) built) (he : e ∈ built) :
    EntryOf setting.config property suffix atRule value e := by
  unfold entries at h
  split at h
  · rw [gives_pure h] at he
    obtain ⟨target, ht, rfl⟩ := List.mem_map.1 he
    exact .unset rfl ht
  · obtain ⟨normalized, hn, h⟩ := gives_bind h
    obtain ⟨_, _, h⟩ := gives_bind h
    rw [gives_pure h] at he
    obtain ⟨part, hp, rfl⟩ := List.mem_map.1 he
    exact .build (gives_ofCss hn) hp

lemma leafEntry_of_gives {setting : Setting} {property : String} {scope : Option String}
    {leaf : Leaf} {items : List (String × Entry)} {item : String × Entry}
    (h : Gives (leafEntries setting property scope leaf) items) (hi : item ∈ items) :
    LeafEntry setting.config property scope leaf item := by
  obtain ⟨condition, hc, h⟩ := gives_bind h
  obtain ⟨built, hb, h⟩ := gives_bind h
  rw [gives_pure h] at hi
  obtain ⟨e, he, rfl⟩ := List.mem_map.1 hi
  exact ⟨condition, gives_ofCss hc, rfl, entryOf_of_gives hb he⟩

/-- Bundles hold the given items, each in the bundle of its property. -/
lemma bundled_mem {items : List (String × Entry)} {longhand : String} {bundle : Bundle}
    (h : (longhand, bundle) ∈ bundled items) :
    (keys bundle).Nodup ∧ ∀ item ∈ bundle, item.2.property = longhand ∧ item ∈ items := by
  -- the invariant of the fold, for the bundles filled from a part of the items
  let Filled : Keyed String Bundle → Prop := fun bundles =>
    ∀ pair ∈ bundles, (keys pair.2).Nodup ∧
      ∀ item ∈ pair.2, item.2.property = pair.1 ∧ item ∈ items
  suffices hfilled : ∀ (part : List (String × Entry)) (bundles : Keyed String Bundle),
      (∀ item ∈ part, item ∈ items) → Filled bundles →
      Filled (part.foldl (fun bundles item =>
        update bundles item.2.property [] fun b => put b item.1 item.2) bundles) by
    exact hfilled items [] (fun _ hi => hi) (by simp [Filled]) _ h
  intro part
  induction part with
  | nil => exact fun _ _ hb => hb
  | cons head rest ih =>
    intro bundles hpart hb
    apply ih _ fun item hi => hpart item (List.mem_cons_of_mem _ hi)
    intro pair hpair
    rcases mem_put hpair with rfl | hpair
    · -- the bundle that the item is put into, which may be new
      have hold : (keys ((get? bundles head.2.property).getD [])).Nodup ∧
          ∀ item ∈ (get? bundles head.2.property).getD [],
            item.2.property = head.2.property ∧ item ∈ items := by
        cases hg : get? bundles head.2.property with
        | none => exact ⟨List.nodup_nil, by simp⟩
        | some b => exact hb _ (mem_of_get? hg)
      refine ⟨nodup_keys_put hold.1 _ _, fun item hi => ?_⟩
      rcases mem_put hi with rfl | hi
      · exact ⟨rfl, hpart head List.mem_cons_self⟩
      · exact hold.2 item hi
    · exact hb pair hpair

lemma slotOf_of_plain {setting : Setting} {property : String} {scope : Option String}
    {value : Value} {slots : List (String × Slot)} {item : String × Slot}
    (h : Gives (plain setting property scope value) slots) (hi : item ∈ slots) :
    SlotOf setting.config property scope value item := by
  obtain ⟨built, hb, h⟩ := gives_bind h
  rw [gives_pure h] at hi
  obtain ⟨e, he, rfl⟩ := List.mem_map.1 hi
  exact .atomic (entryOf_of_gives hb he)

lemma slotOf_of_conditional {setting : Setting} {property : String} {scope : Option String}
    {map : List (String × Value)} {slots : List (String × Slot)} {item : String × Slot}
    (h : Gives (conditional setting property scope map) slots) (hi : item ∈ slots) :
    SlotOf setting.config property scope (.map map) item := by
  obtain ⟨leaves, hleaves, h⟩ := gives_bind h
  obtain ⟨items, hitems, h⟩ := gives_bind h
  rw [gives_pure h] at hi
  obtain ⟨⟨longhand, bundle⟩, hb, rfl⟩ := List.mem_map.1 hi
  obtain ⟨hnodup, hmem⟩ := bundled_mem hb
  refine .bundle rfl (gives_ofExcept hleaves) hnodup fun item hitem => ?_
  obtain ⟨hproperty, hflat⟩ := hmem item hitem
  obtain ⟨group, hgroup, hin⟩ := List.mem_flatten.1 hflat
  obtain ⟨leaf, hleaf, hgives⟩ := gives_mapM_mem hitems hgroup
  exact ⟨hproperty, leaf, hleaf, leafEntry_of_gives hgives hin⟩

lemma slotOf_of_property {setting : Setting} {name : String} {scope : Option String}
    {value : Value} {slots : List (String × Slot)} {item : String × Slot}
    (h : Gives (Declaration.property setting name scope value) slots) (hi : item ∈ slots) :
    beginsCondition name = false ∧ SlotOf setting.config name scope value item := by
  obtain ⟨_, hplain, h⟩ := gives_bind h
  obtain ⟨_, _, h⟩ := gives_bind h
  refine ⟨by simpa using gives_require hplain, ?_⟩
  split at h
  · split at h
    · exact slotOf_of_conditional h hi
    · exact (gives_fail h).elim
  · exact slotOf_of_plain h hi

/-- Each slot of a class comes from one of its declared properties, which is no condition. -/
lemma slotOf_of_mem {setting : Setting} {declarations : Declarations} {m : ClassEntries}
    {item : String × Slot} (h : Gives (classEntries setting declarations) m) (hi : item ∈ m) :
    ∃ property scope value, Declares declarations property scope value ∧
      beginsCondition property = false ∧ SlotOf setting.config property scope value item := by
  obtain ⟨_, _, h⟩ := gives_bind h
  obtain ⟨found, hfound, h⟩ := gives_bind h
  rw [gives_pure h] at hi
  rcases mem_putAll hi with hi | hi
  · cases hi
  obtain ⟨slots, hslots, hin⟩ := List.mem_flatten.1 hi
  obtain ⟨⟨key, value⟩, hd, hgives⟩ := gives_mapM_mem hfound hslots
  unfold Declaration.slots at hgives
  split at hgives
  · obtain ⟨_, hkind, hgives⟩ := gives_bind hgives
    obtain ⟨_, _, hgives⟩ := gives_bind hgives
    split at hgives
    · rename_i group _ hvalue
      obtain ⟨_, _, hgives⟩ := gives_bind hgives
      obtain ⟨inner, hinner, hgives⟩ := gives_bind hgives
      rw [gives_pure hgives] at hin
      obtain ⟨group', hgroup', hin⟩ := List.mem_flatten.1 hin
      obtain ⟨⟨name, inside⟩, hname, hgives⟩ := gives_mapM_mem hinner hgroup'
      obtain ⟨_, _, hgives⟩ := gives_bind hgives
      dsimp only at hvalue
      subst hvalue
      exact ⟨_, _, _, .grouped hd (by simpa using gives_require hkind) hname,
        slotOf_of_property hgives hin⟩
    · exact (gives_fail hgives).elim
  · exact ⟨_, _, _, .plain hd, slotOf_of_property hgives hin⟩

lemma nodup_keys_of_gives {setting : Setting} {declarations : Declarations} {m : ClassEntries}
    (h : Gives (classEntries setting declarations) m) : (keys m).Nodup := by
  obtain ⟨_, _, h⟩ := gives_bind h
  obtain ⟨found, _, h⟩ := gives_bind h
  rw [gives_pure h]
  exact nodup_keys_putAll (m := []) List.nodup_nil _

/-- The entry of a property whose value arrives as an argument. -/
def dynamicEntry (config : Config) (property : String) : Entry :=
  .build config property ⟨["var(" ++ Naming.dynamicName config.classStart property ++ ")"]⟩ none none

lemma dynamic_bound {setting : Setting} {parameters : List String}
    {properties : List (String × String)} {d : DynamicClass}
    (h : Gives (DynamicClass.compile setting parameters properties) d) :
    ∃ bound, Gives (properties.mapM (DynamicClass.bind setting parameters)) bound ∧
      d.parameters = parameters ∧ d.bindings = bound.map Prod.fst ∧ d.entries =
        putAll [] (bound.map fun (_, e) => (Naming.slotKey e.property none, .atomic e)) := by
  unfold DynamicClass.compile at h
  obtain ⟨_, _, h⟩ := gives_bind h
  dsimp only at h
  split at h
  · obtain ⟨_, hfail, _⟩ := gives_bind h
    exact (gives_fail hfail).elim
  · obtain ⟨_, _, h⟩ := gives_bind h
    split at h
    · obtain ⟨_, _, h⟩ := gives_bind h
      obtain ⟨bound, hbound, h⟩ := gives_bind h
      rw [gives_pure h]
      exact ⟨bound, hbound, rfl, rfl, rfl⟩
    · obtain ⟨bound, hbound, h⟩ := gives_bind h
      rw [gives_pure h]
      exact ⟨bound, hbound, rfl, rfl, rfl⟩

/-- A property is bound to a declared parameter, through its own custom property. -/
lemma bound_of_gives {setting : Setting} {parameters : List String} {item : String × String}
    {b : Binding} {e : Entry}
    (h : Gives (DynamicClass.bind setting parameters item) (b, e)) :
    b = ⟨Property.dashCase item.1, item.2,
      Naming.dynamicName setting.config.classStart (Property.dashCase item.1)⟩ ∧
      item.2 ∈ parameters ∧ e = dynamicEntry setting.config b.property := by
  obtain ⟨_, hparameter, h⟩ := gives_bind h
  obtain ⟨_, _, h⟩ := gives_bind h
  obtain ⟨_, _, h⟩ := gives_bind h
  obtain ⟨rfl, rfl⟩ := Prod.mk.inj (gives_pure h)
  exact ⟨rfl, List.contains_iff_mem.1 (gives_require hparameter), rfl⟩

lemma dynamic_slot {setting : Setting} {parameters : List String}
    {properties : List (String × String)} {d : DynamicClass} {item : String × Slot}
    (h : Gives (DynamicClass.compile setting parameters properties) d) (hi : item ∈ d.entries) :
    ∃ p ∈ properties, item = (Naming.slotKey (Property.dashCase p.1) none,
      .atomic (dynamicEntry setting.config (Property.dashCase p.1))) := by
  obtain ⟨bound, hbound, _, _, hentries⟩ := dynamic_bound h
  rw [hentries] at hi
  rcases mem_putAll hi with hi | hi
  · cases hi
  obtain ⟨⟨b, e⟩, hb, rfl⟩ := List.mem_map.1 hi
  obtain ⟨p, hp, hbind⟩ := gives_mapM_mem hbound hb
  obtain ⟨rfl, _, rfl⟩ := bound_of_gives hbind
  exact ⟨p, hp, rfl⟩

lemma nodup_keys_dynamic {setting : Setting} {parameters : List String}
    {properties : List (String × String)} {d : DynamicClass}
    (h : Gives (DynamicClass.compile setting parameters properties) d) :
    (keys d.entries).Nodup := by
  obtain ⟨bound, _, _, _, hentries⟩ := dynamic_bound h
  rw [hentries]
  exact nodup_keys_putAll (m := []) List.nodup_nil _

end AtomicCss.Proofs
