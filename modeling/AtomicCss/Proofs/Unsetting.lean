import AtomicCss.Proofs.EmittedClasses
import AtomicCss.Proofs.Forbidden
import AtomicCss.Proofs.Representation
import AtomicCss.Proofs.OwnClasses

/-!
# Unsetting a property

A class that unsets a property takes away what an earlier class has set it to, in whatever way this
was written. Where shorthands are expanded the unset applies to what the property expands to, so it
misses one case: a value that cannot be expanded is kept as a whole under the property itself.
-/

namespace AtomicCss.Proofs

open Keyed Declaration Property Expansion

/-- The declaration of a property, by itself or in the group of a pseudo-element. -/
def declaredIn (scope : Option String) (property : String) (value : Value) : String × Value :=
  match scope with
  | none => (property, value)
  | some pseudo => (pseudo, .map [(property, value)])

/-- The slots of a class that unsets a property. -/
def unsetSlots (config : Config) (property : String) (scope : Option String) :
    List (String × Slot) :=
  (unsetTargets config property).map fun target =>
    (Naming.slotKey target scope, .atomic (.unset target scope none))

/-- An entry keeps a shorthand that is expanded otherwise: its value has no expansion. -/
def KeptWhole (config : Config) (property : String) (e : Entry) : Prop :=
  config.shorthands = .flatten ∧ (targets? property).isSome ∧ ∃ normalized suffix atRule,
    e = .build config property normalized suffix atRule ∧
      normalized.single?.bind (expand? property) = none

/-- Whatever expands is a shorthand, and does not expand to itself. -/
lemma targets_proper {property : String} {targets : List String}
    (h : targets? property = some targets) :
    isShorthand property = true ∧ property ∉ targets := by
  have htable : ∀ e ∈ expansions, isShorthand e.1 = true ∧ e.1 ∉ e.2.2 := by
    decide +kernel
  obtain ⟨form, _, hrow⟩ := mem_expansions h
  exact htable _ hrow

/-- What a value is turned into is covered by the unset, unless it is kept whole. -/
lemma unset_covers {config : Config} {property : String} {normalized : Normalized}
    {part : String × Normalized} (h : part ∈ underPolicy config property normalized) :
    part.1 ∈ unsetTargets config property ∨
      config.shorthands = .flatten ∧ (targets? property).isSome ∧ part = (property, normalized) ∧
        normalized.single?.bind (expand? property) = none := by
  unfold unsetTargets
  by_cases hpolicy : config.shorthands = .flatten
  · rw [if_pos hpolicy]
    cases htargets : targets? property with
    | none =>
      rcases underPolicy_cases h with rfl | ⟨_, _, _, _, _, hexpand, item, hitem, _⟩
      · exact .inl (List.mem_singleton_self _)
      · obtain ⟨_, _, _, _, _, _, hparts⟩ := expand?_parts hexpand
        obtain ⟨⟨_, hsome, _⟩, _⟩ := hparts item hitem
        rw [htargets] at hsome
        cases hsome
    | some targets =>
      have hshorthand := (targets_proper htargets).1
      unfold underPolicy at h
      rw [if_pos (by simp [hpolicy, hshorthand])] at h
      split at h
      · rename_i parts hexpanded
        obtain ⟨text, _, hexpand⟩ := Option.bind_eq_some_iff.1 hexpanded
        obtain ⟨item, hitem, rfl⟩ := List.mem_map.1 h
        obtain ⟨_, _, _, _, _, _, hparts⟩ := expand?_parts hexpand
        obtain ⟨⟨others, hsome, hmem⟩, _⟩ := hparts item hitem
        rw [htargets] at hsome
        cases hsome
        exact .inl hmem
      · rename_i hnone
        exact .inr ⟨hpolicy, rfl, List.mem_singleton.1 h, hnone⟩
  · rw [if_neg hpolicy]
    rcases underPolicy_cases h with rfl | ⟨hflatten, _⟩
    · exact .inl (List.mem_singleton_self _)
    · exact (hpolicy hflatten).elim

section

variable {setting : Setting} {definition name : String} {scope : Option String} {value : Value}
  {slots : List (String × Slot)}

lemma gives_validateProperty_iff {config : Config} {property : String} :
    Gives (validateProperty config definition property) () ↔ config.accepts property = true := by
  unfold validateProperty
  split
  · rename_i hrejected
    exact iff_of_false gives_fail (by simpa using hrejected)
  · rename_i haccepted
    refine iff_of_true ?_ (by simpa using haccepted)
    split
    · exact ⟨[], rfl⟩
    · exact ⟨[], rfl⟩

/-- A property that can be set can be unset, in any class. -/
lemma gives_property_unset (h : Gives (Declaration.property setting name scope value) slots) :
    Gives (Declaration.property ⟨setting.config, definition⟩ name scope .unset)
      (unsetSlots setting.config name scope) := by
  obtain ⟨_, hplain, h⟩ := gives_bind h
  obtain ⟨_, hvalid, _⟩ := gives_bind h
  have haccepted := gives_validateProperty_iff.1 hvalid
  have hslots : plain ⟨setting.config, definition⟩ name scope .unset =
      pure (((unsetTargets setting.config name).map fun target => .unset target scope none).map
        fun e => (Naming.slotKey e.property scope, .atomic e)) := rfl
  have hunset : Gives (plain ⟨setting.config, definition⟩ name scope .unset)
      (unsetSlots setting.config name scope) := by
    rw [hslots, List.map_map]
    exact ⟨[], rfl⟩
  refine gives_bind_of (gives_require_iff.2 (gives_require hplain)) ?_ ?_
  · exact gives_bind_of (gives_validateProperty_iff.2 haccepted) hunset
      ((steady_entries _ _ _ _ _).bind fun _ => .pure _)
  · exact (steady_validateProperty _ _ _).bind fun _ =>
      (steady_entries _ _ _ _ _).bind fun _ => .pure _

/-- Neither the values nor the class matter to the check. -/
lemma gives_checkPolicy_congr {declarations others : Declarations}
    (hnames : checkedNames others = checkedNames declarations)
    (h : Gives (checkPolicy setting declarations) ()) :
    Gives (checkPolicy ⟨setting.config, definition⟩ others) () := by
  refine gives_checkPolicy_iff.2 fun hforbid => ?_
  rw [hnames]
  exact gives_checkPolicy_iff.1 h hforbid

lemma gives_mapM_singleton {α β : Type} {f : α → Processing β} {x : α} {ys : List β}
    (h : Gives ([x].mapM f) ys) : ∃ y, ys = [y] ∧ Gives (f x) y := by
  cases gives_mapM h with
  | cons hy hrest =>
    cases hrest
    exact ⟨_, rfl, hy⟩

/-- So can its declaration, which is checked in the same way. -/
lemma gives_slots_unset (other : String) {property : String}
    (hproperty : ConditionKind.ofKey? property ≠ some .pseudoElement) (hscope : IsPseudoScope scope)
    (h : Gives (Declaration.slots setting (declaredIn scope property value)) slots) :
    Gives (Declaration.slots ⟨setting.config, other⟩ (declaredIn scope property .unset))
      (unsetSlots setting.config (dashCase property) scope) := by
  cases scope with
  | none =>
    rw [declaredIn, slots_of_property _ hproperty] at h ⊢
    exact gives_property_unset h
  | some pseudo =>
    rw [declaredIn, slots_of_group _ (hscope pseudo rfl), gives_pseudoElement_iff] at h ⊢
    obtain ⟨hkey, hparsed, hcheck, found, hfound, _⟩ := h
    obtain ⟨inner, rfl, hinner⟩ := gives_mapM_singleton hfound
    obtain ⟨_, hkind, hinner⟩ := gives_bind hinner
    have hitem : Gives (inPseudoElement ⟨setting.config, other⟩ pseudo (property, .unset))
        (unsetSlots setting.config (dashCase property) (some pseudo)) :=
      gives_bind_of (gives_require_iff.2 (gives_require hkind)) (gives_property_unset hinner)
        (steady_property _ _ _ _)
    have hitems := gives_mapM_of (steady_inPseudoElement ⟨setting.config, other⟩ pseudo)
      (.cons hitem .nil)
    exact ⟨hkey, hparsed, gives_checkPolicy_congr rfl hcheck, _, hitems, by simp⟩

/-- A class that sets a property compiles beside one that unsets it. -/
lemma gives_classEntries_unset (other : String) {property : String} {m : ClassEntries}
    (hproperty : ConditionKind.ofKey? property ≠ some .pseudoElement) (hscope : IsPseudoScope scope)
    (h : Gives (classEntries setting [declaredIn scope property value]) m) :
    Gives (classEntries ⟨setting.config, other⟩ [declaredIn scope property .unset])
      (putAll [] (unsetSlots setting.config (dashCase property) scope)) := by
  rw [gives_classEntries_iff] at h ⊢
  obtain ⟨hcheck, found, hfound, _⟩ := h
  obtain ⟨part, rfl, hpart⟩ := gives_mapM_singleton hfound
  have hunset := gives_slots_unset other hproperty hscope hpart
  have hnames : checkedNames [declaredIn scope property .unset] =
      checkedNames [declaredIn scope property value] := by
    cases scope <;> rfl
  have hslots := gives_mapM_of (steady_slots ⟨setting.config, other⟩) (.cons hunset .nil)
  exact ⟨gives_checkPolicy_congr hnames hcheck, _, hslots, by simp⟩

end

section

variable {config : Config} {scope : Option String} {property : String} {value : Value}
  {m : ClassEntries} {e : Entry}

lemma property_of_keptWhole (h : KeptWhole config property e) : e.property = property := by
  obtain ⟨_, _, _, _, _, rfl, _⟩ := h
  rfl

lemma slotKey_property_injective {other : String}
    (h : Naming.slotKey property scope = Naming.slotKey other scope) : property = other := by
  cases scope with
  | none => exact h
  | some pseudo =>
    unfold Naming.slotKey at h
    exact (String.append_left_inj _).1 ((String.append_left_inj _).1 h)

/-- The only property that is declared is the one that was written. -/
lemma declares_declaredIn {declared : String} {written : Option String} {inside : Value}
    (hproperty : ConditionKind.ofKey? property ≠ some .pseudoElement) (hscope : IsPseudoScope scope)
    (hplain : beginsCondition declared = false)
    (h : Declares [declaredIn scope property value] declared written inside) :
    declared = dashCase property ∧ written = scope := by
  cases scope with
  | none =>
    cases h with
    | plain hmem =>
      cases List.mem_singleton.1 hmem
      exact ⟨rfl, rfl⟩
    | grouped hmem hkind =>
      cases List.mem_singleton.1 hmem
      exact (hproperty hkind).elim
  | some pseudo =>
    have hkind := hscope pseudo rfl
    cases h with
    | plain hmem =>
      cases List.mem_singleton.1 hmem
      have hbegins : beginsCondition pseudo = true := by
        apply beginsCondition_of_ofKey?
        · rw [hkind]
          rfl
        · rintro rfl
          cases hkind
      rw [beginsCondition_dashCase hbegins] at hplain
      cases hplain
    | grouped hmem _ hinside =>
      cases List.mem_singleton.1 hmem
      cases List.mem_singleton.1 hinside
      exact ⟨rfl, rfl⟩

/-- An entry lies under the key of its own property, which the unset covers unless the entry was
kept whole. -/
lemma covered_of_slotOf {item : String × Slot} (h : SlotOf config property scope value item)
    (he : e ∈ item.2.entries) (hset : e.isUnset = false) :
    item.1 = Naming.slotKey e.property scope ∧
      (e.property ∈ unsetTargets config property ∨ KeptWhole config property e) := by
  have hentry : ∀ {suffix atRule : Option String} {value : Value},
      EntryOf config property suffix atRule value e →
      e.property ∈ unsetTargets config property ∨ KeptWhole config property e := by
    intro suffix atRule value hentry
    cases hentry with
    | unset => cases hset
    | build _ hpart =>
      refine (unset_covers hpart).imp_right ?_
      rintro ⟨hpolicy, htargets, rfl, hnone⟩
      exact ⟨hpolicy, htargets, _, _, _, rfl, hnone⟩
  cases h with
  | atomic hfrom =>
    obtain rfl := List.mem_singleton.1 he
    exact ⟨rfl, hentry hfrom⟩
  | bundle _ _ _ hentries =>
    obtain ⟨pair, hpair, rfl⟩ := List.mem_map.1 he
    obtain ⟨hlonghand, _, _, _, _, _, hfrom⟩ := hentries pair hpair
    exact ⟨by rw [hlonghand], hentry hfrom⟩

/-- The same for all entries of a class that sets a property. -/
lemma covered_of_gives {definition : String}
    (hproperty : ConditionKind.ofKey? property ≠ some .pseudoElement) (hscope : IsPseudoScope scope)
    (h : Gives (classEntries ⟨config, definition⟩ [declaredIn scope property value]) m)
    {item : String × Slot} (hitem : item ∈ m) (he : e ∈ item.2.entries)
    (hset : e.isUnset = false) :
    item.1 = Naming.slotKey e.property scope ∧
      (e.property ∈ unsetTargets config (dashCase property) ∨
        KeptWhole config (dashCase property) e) := by
  obtain ⟨declared, written, inside, hdeclares, hplain, hslot⟩ := slotOf_of_mem h hitem
  obtain ⟨rfl, rfl⟩ := declares_declaredIn hproperty hscope hplain hdeclares
  exact covered_of_slotOf hslot he hset

lemma mem_keys_unsetSlots {target : String} :
    Naming.slotKey target scope ∈ keys (unsetSlots config property scope) ↔
      target ∈ unsetTargets config property := by
  unfold keys unsetSlots
  rw [List.map_map]
  constructor
  · intro h
    obtain ⟨other, hother, heq⟩ := List.mem_map.1 h
    rwa [← slotKey_property_injective heq]
  · exact List.mem_map_of_mem

end

section

variable {config : Config} {start registry : Registry} {styles : Styles} {name other : String}
  {m : ClassEntries} {key condition : String}

lemma touches_of_supplied {slot : Slot} {e : Entry} (h : supplied? condition slot = some e) :
    touches condition slot = true := by
  cases slot with
  | atomic => rfl
  | bundle entries =>
    change get? entries condition = some e at h
    change (get? entries condition).isSome = true
    rw [h]
    rfl

/-- Of two references, the first decides only what the second does not touch. -/
lemma contributed_pair (first second : ClassRef) :
    contributed? styles [first, second] key condition =
      if touchesAt styles key condition second then
        (suppliedAt? styles key condition second).bind Entry.className
      else (suppliedAt? styles key condition first).bind Entry.className := by
  have hreverse : [first, second].reverse = [second, first] := rfl
  unfold contributed? decided?
  rw [hreverse, List.find?_cons]
  split
  · rename_i htouches
    rw [if_pos htouches]
    rfl
  · rename_i htouches
    rw [if_neg (by simp [htouches]), List.find?_cons]
    split
    · rfl
    · rename_i hfirst
      have hnone : suppliedAt? styles key condition first = none := by
        by_contra hsome
        obtain ⟨e, he⟩ := Option.ne_none_iff_exists'.1 hsome
        obtain ⟨slot, hslot, hsupplied⟩ := Option.bind_eq_some_iff.1 he
        rw [touchesAt, hslot] at hfirst
        have htouched := touches_of_supplied hsupplied
        simp [htouched] at hfirst
      rw [hnone]
      rfl

/-- A class of unsets touches its keys under every condition, and contributes nothing. -/
lemma contributed_unset {property : String} {scope : Option String}
    (hother : get? styles.classes other = some (putAll [] (unsetSlots config property scope)))
    (first : ClassRef) :
    contributed? styles [first, .staticClass other] key condition =
      if key ∈ keys (unsetSlots config property scope) then none
      else (suppliedAt? styles key condition first).bind Entry.className := by
  have hslots : slotsOf styles (.staticClass other) =
      putAll [] (unsetSlots config property scope) := by
    rw [slotsOf, hother]
    rfl
  have hunset : ∀ slot, get? (putAll [] (unsetSlots config property scope)) key = some slot →
      ∃ target, slot = .atomic (.unset target scope none) := by
    intro slot hslot
    have hmem := (mem_putAll (mem_of_get? hslot)).resolve_left List.not_mem_nil
    obtain ⟨target, _, heq⟩ := List.mem_map.1 hmem
    exact ⟨target, (Prod.mk.inj heq).2.symm⟩
  rw [contributed_pair, touchesAt, suppliedAt?, hslots]
  have hkeys : key ∈ keys (unsetSlots config property scope) ↔
      (get? (putAll [] (unsetSlots config property scope)) key).isSome = true := by
    rw [get?_isSome_iff, mem_keys_putAll]
    exact ⟨.inr, fun h => h.resolve_left List.not_mem_nil⟩
  rw [if_congr hkeys rfl rfl]
  cases hget : get? (putAll [] (unsetSlots config property scope)) key with
  | none => rfl
  | some slot =>
    obtain ⟨target, rfl⟩ := hunset slot hget
    change (supplied? condition (.atomic (.unset target scope none))).bind Entry.className = none
    rw [supplied?]
    split <;> rfl

/-- Two classes that exist are merged one after the other. -/
lemma resolve_pair {first second : ClassEntries} (hname : get? styles.classes name = some first)
    (hother : get? styles.classes other = some second) :
    [ClassRef.staticClass name, .staticClass other].foldlM (Merged.apply styles) {} =
      .ok ((({} : Merged).mergeEntries first).mergeEntries second) := by
  have happly : ∀ m name entries, get? styles.classes name = some entries →
      Merged.apply styles m (.staticClass name) = .ok (m.mergeEntries entries) := by
    intro m name entries hget
    rw [Merged.apply, hget]
  rw [List.foldlM_cons, happly _ _ _ hname]
  change [ClassRef.staticClass other].foldlM (Merged.apply styles) _ = _
  rw [List.foldlM_cons, happly _ _ _ hother]
  rfl

/-- Names that are not empty make up a text that is not empty. -/
lemma intercalate_eq_empty_iff {names : List String} (h : ∀ name ∈ names, IsSingleName name) :
    String.intercalate " " names = "" ↔ names = [] := by
  constructor
  · intro hempty
    rw [← spacedNames_intercalate h, hempty]
    rfl
  · rintro rfl
    rfl

/-- Merged classes leave no class name if nothing is contributed anywhere. -/
lemma classes_eq_empty_iff {refs : List ClassRef} {merged : Merged}
    (hvalid : config.validate = .ok ()) (hc : Compiled config registry styles)
    (h : refs.foldlM (Merged.apply styles) {} = .ok merged) (hthemes : merged.themes = []) :
    merged.resolved.classes = "" ↔
      ∀ key condition, contributed? styles refs key condition = none := by
  have hkeyed := wellKeyed_run h
  have hnames : merged.classNames = (placed merged.slots).map Prod.snd := by
    rw [map_snd_placed, Merged.classNames, hthemes]
    exact List.append_nil _
  have hsingle : ∀ name ∈ merged.classNames, IsSingleName name := by
    intro name hname
    rw [hnames, map_snd_placed] at hname
    obtain ⟨e, he, hclass⟩ := List.mem_filterMap.1 hname
    exact isSingleName_of_holds hvalid hc (holds_of_merged hc h he) hclass
  have hplaced : ∀ key condition, get? (placed merged.slots) (key, condition) =
      contributed? styles refs key condition := by
    intro key condition
    rw [get?_placed hkeyed, contributed_run hc h]
  change String.intercalate " " merged.classNames = "" ↔ _
  rw [intercalate_eq_empty_iff hsingle, hnames, List.map_eq_nil_iff]
  constructor
  · intro hnil key condition
    rw [← hplaced, hnil]
    rfl
  · intro hnone
    by_contra hne
    obtain ⟨⟨place, name⟩, hmem⟩ := List.exists_mem_of_ne_nil _ hne
    have hget := get?_of_mem (nodup_keys_placed hkeyed) hmem
    rw [hplaced, hnone] at hget
    cases hget

end

section

variable {config : Config} {sheet : Sheet} {start registry : Registry} {styles : Styles}
  {name other property : String} {scope : Option String} {value : Value} {m : ClassEntries}

lemma notMem_unsetTargets_of_keptWhole {e : Entry} (h : KeptWhole config property e) :
    property ∉ unsetTargets config property := by
  obtain ⟨hpolicy, htargets, _⟩ := h
  obtain ⟨targets, htargets⟩ := Option.isSome_iff_exists.1 htargets
  unfold unsetTargets
  rw [if_pos hpolicy, htargets]
  exact (targets_proper htargets).2

lemma exists_supplied {slot : Slot} (hslot : (keys (Merged.conditionsOf (some slot))).Nodup)
    {e : Entry} (he : e ∈ slot.entries) : ∃ condition, supplied? condition slot = some e := by
  cases slot with
  | atomic entry =>
    obtain rfl := List.mem_singleton.1 he
    exact ⟨defaultKey, by rw [supplied?, if_pos rfl]⟩
  | bundle entries =>
    obtain ⟨pair, hpair, rfl⟩ := List.mem_map.1 he
    exact ⟨pair.1, get?_of_mem hslot hpair⟩

section

variable (hproperty : ConditionKind.ofKey? property ≠ some .pseudoElement)
  (hscope : IsPseudoScope scope)
  (h : Gives (classEntries ⟨config, name⟩ [declaredIn scope property value]) m)
  (hname : get? styles.classes name = some m)
  (hother : get? styles.classes other =
    some (putAll [] (unsetSlots config (dashCase property) scope)))

include hname hother

/-- Behind the unset, a class contributes what it holds under the other keys. -/
lemma contributed_behind_unset (key condition : String) :
    contributed? styles [.staticClass name, .staticClass other] key condition =
      if key ∈ keys (unsetSlots config (dashCase property) scope) then none
      else ((get? m key).bind (supplied? condition)).bind Entry.className := by
  rw [contributed_unset hother, suppliedAt?, slotsOf, hname]
  rfl

include hproperty hscope h

/-- What was kept whole is left behind the unset. -/
lemma survives_of_keptWhole {e : Entry} (he : e ∈ m.entries)
    (hkept : KeptWhole config (dashCase property) e) :
    ∃ key condition,
      contributed? styles [.staticClass name, .staticClass other] key condition ≠ none := by
  obtain ⟨item, hitem, hin⟩ := List.mem_flatMap.1 he
  have hset : e.isUnset = false := by
    obtain ⟨_, _, _, _, _, rfl, _⟩ := hkept
    rfl
  have hkeyed := wellKeyed_static h
  obtain ⟨hkey, _⟩ := covered_of_gives hproperty hscope h hitem hin hset
  obtain ⟨condition, hcondition⟩ := exists_supplied (hkeyed.bundles item hitem) hin
  have huncovered : item.1 ∉ keys (unsetSlots config (dashCase property) scope) := by
    rw [hkey, property_of_keptWhole hkept, mem_keys_unsetSlots]
    exact notMem_unsetTargets_of_keptWhole hkept
  refine ⟨item.1, condition, fun hnone => ?_⟩
  rw [contributed_behind_unset hname hother, if_neg huncovered,
    get?_of_mem hkeyed.slots hitem, Option.bind_some, hcondition, Option.bind_some] at hnone
  rw [Entry.isUnset, hnone] at hset
  cases hset

/-- Nothing else is. -/
lemma keptWhole_of_survives {key condition : String}
    (hleft : contributed? styles [.staticClass name, .staticClass other] key condition ≠ none) :
    ∃ e ∈ m.entries, KeptWhole config (dashCase property) e := by
  obtain ⟨className, hleft⟩ := Option.ne_none_iff_exists'.1 hleft
  rw [contributed_behind_unset hname hother] at hleft
  split at hleft
  · cases hleft
  · rename_i huncovered
    obtain ⟨e, hsupplied, hclass⟩ := Option.bind_eq_some_iff.1 hleft
    obtain ⟨slot, hget, hcondition⟩ := Option.bind_eq_some_iff.1 hsupplied
    have hset : e.isUnset = false := by
      rw [Entry.isUnset, hclass]
      rfl
    have hmem := mem_of_get? hget
    have hin := mem_entries_of_supplied hcondition
    obtain ⟨hkey, hcovered | hkept⟩ := covered_of_gives hproperty hscope h hmem hin hset
    · dsimp only at hkey
      rw [hkey, mem_keys_unsetSlots] at huncovered
      exact (huncovered hcovered).elim
    · exact ⟨e, List.mem_flatMap.2 ⟨_, hmem, hin⟩, hkept⟩

/-- So nothing is left of a class behind the unset unless it has entries that were kept whole. -/
lemma contributed_none_iff :
    (∀ key condition,
      contributed? styles [.staticClass name, .staticClass other] key condition = none) ↔
      ¬∃ e ∈ m.entries, KeptWhole config (dashCase property) e := by
  constructor
  · rintro hnone ⟨e, he, hkept⟩
    obtain ⟨key, condition, hleft⟩ :=
      survives_of_keptWhole hproperty hscope h hname hother he hkept
    exact hleft (hnone key condition)
  · intro hkept key condition
    by_contra hleft
    exact hkept (keptWhole_of_survives hproperty hscope h hname hother hleft)

end

/-- The part of a class that declares one property stands for one declaration of it. -/
lemma declared_of_ownItems {c : Context} {label : String} {site : Site}
    {parts : List Declarations}
    (h : (ownItems [declaredIn scope property value]).mapM (c.declarationsOf label site) =
      .ok parts) : ∃ resolved, parts.flatten = [declaredIn scope property resolved] := by
  cases scope with
  | none =>
    change [ClassItem.property property value].mapM _ = _ at h
    rw [List.mapM_cons] at h
    obtain ⟨first, hfirst, h⟩ := bind_eq_ok h
    obtain ⟨resolved, _, rfl⟩ := map_eq_ok hfirst
    cases h
    exact ⟨resolved, rfl⟩
  | some pseudo =>
    change [ClassItem.property pseudo (.map [(property, value)])].mapM _ = _ at h
    rw [List.mapM_cons] at h
    obtain ⟨first, hfirst, h⟩ := bind_eq_ok h
    obtain ⟨group, hgroup, rfl⟩ := map_eq_ok hfirst
    cases h
    obtain ⟨entries, hentries, rfl⟩ := map_eq_ok hgroup
    rw [Context.resolveEntries] at hentries
    obtain ⟨resolved, _, hentries⟩ := bind_eq_ok hentries
    cases hentries
    exact ⟨resolved, rfl⟩

/-- A sheet may go on with a class of its own declarations that gives entries. -/
lemma compileInto_define {body : Body} {made : String × ClassEntries}
    (h : sheet.compileInto config start = (registry, .ok styles))
    (hmakes : Makes config ⟨sheet.site, body⟩ made)
    (hfresh : ∀ d ∈ sheet.definitions, d.body.key ≠ body.key) :
    ∃ registry' styles', (sheet.define body).compileInto config start = (registry', .ok styles') ∧
      styles'.classes = put styles.classes made.1 made.2 := by
  obtain ⟨hcheck, scope, hrun, rfl⟩ := compileInto_eq_ok_iff.1 h
  obtain ⟨hvalid, hkeys⟩ := check_eq_ok_iff.1 hcheck
  have hnodup : ((sheet.define body).definitions.map fun d => d.body.key).Nodup := by
    rw [Sheet.define, List.map_append, List.nodup_append]
    refine ⟨hkeys, List.nodup_singleton _, fun key hkey last hlast => ?_⟩
    obtain ⟨d, hd, rfl⟩ := List.mem_map.1 hkey
    rw [List.mem_singleton.1 hlast]
    exact hfresh d hd
  have hmakes : Makes (Context.mk config (sheet.define body) scope).config
    ⟨sheet.site, body⟩ made := hmakes
  obtain ⟨outcome, hstep, _, hclasses⟩ := compile_of_makes hmakes
  have hlast : Sheet.compileFrom config (sheet.define body) start {}
      (sheet.define body).definitions =
      (registry.insertAll outcome.rules, .ok outcome.scope) := by
    have hbefore := compileFrom_sheet hrun (sheet.define body)
    change Sheet.compileFrom config (sheet.define body) start {}
      (sheet.definitions ++ [⟨sheet.site, body⟩]) = _
    rw [compileFrom_append hbefore, Sheet.compileFrom, hstep]
    rfl
  exact ⟨_, _, compileInto_eq_ok_iff.2
    ⟨check_eq_ok_iff.2 ⟨hvalid, hnodup⟩, outcome.scope, hlast, rfl⟩, hclasses⟩

/-- An unset defeats what was set before: behind a class that sets a property, in whatever way and
perhaps in the group of a pseudo-element, the class that unsets it there compiles as well, and both
resolve to no class at all. This fails exactly for values without an expansion, where shorthands
are expanded and the property is one of them. -/
theorem unset_defeats_iff {site : Site}
    (h : sheet.compileInto config start = (registry, .ok styles))
    (hdefined : ⟨site, .staticClass name (ownItems [declaredIn scope property value])⟩ ∈
      sheet.definitions)
    (hscope : IsPseudoScope scope)
    (hproperty : ConditionKind.ofKey? property ≠ some .pseudoElement)
    (hfresh : ∀ d ∈ sheet.definitions, d.body.key ≠ (.staticClass, "", other)) :
    ∃ m registry' styles' result, get? styles.classes name = some m ∧
      (sheet.define (.staticClass other (ownItems [declaredIn scope property .unset]))).compileInto
        config start = (registry', .ok styles') ∧
      styles'.resolve [.staticClass name, .staticClass other] = .ok result ∧
      result.style = none ∧
      (result.classes = "" ↔ ¬∃ e ∈ m.entries, KeptWhole config (dashCase property) e) := by
  obtain ⟨hcheck, _⟩ := compileInto_eq_ok_iff.1 h
  obtain ⟨hvalid, hkeys⟩ := check_eq_ok_iff.1 hcheck
  obtain ⟨m, hm⟩ := class_of_definition h hdefined
  obtain ⟨declarations, ⟨hwritten, hparts, rfl, _, _⟩, hgives⟩ := written_of_compileInto h hm
  obtain rfl := staticClass_unique hkeys hdefined hwritten
  obtain ⟨resolved, hresolved⟩ := declared_of_ownItems hparts
  rw [hresolved] at hgives
  have hunset := gives_classEntries_unset other hproperty hscope hgives
  have hliteral : areLiteral [declaredIn scope property .unset] = true := by
    cases scope <;> rfl
  have hmakes : Makes config
      ⟨sheet.site, .staticClass other (ownItems [declaredIn scope property .unset])⟩
      (other, putAll [] (unsetSlots config (dashCase property) scope)) :=
    .intro hliteral hunset
  obtain ⟨registry', styles', h', hclasses⟩ := compileInto_define h hmakes hfresh
  have hname : get? styles'.classes name = some m := by
    have hne : name ≠ other := by
      rintro rfl
      exact hfresh _ hdefined rfl
    rw [hclasses, get?_put, if_neg hne, hm]
  have hother : get? styles'.classes other =
      some (putAll [] (unsetSlots config (dashCase property) scope)) := by
    rw [hclasses, get?_put, if_pos rfl]
  obtain ⟨_, hcompiled⟩ := compiled_of_compileInto h'
  have hmerged := resolve_pair hname hother
  refine ⟨m, registry', styles', _, hm, h', congrArg (·.map Merged.resolved) hmerged, rfl, ?_⟩
  rw [classes_eq_empty_iff hvalid hcompiled hmerged rfl]
  exact contributed_none_iff hproperty hscope hgives hname hother

end

/-- A margin in a group, under nested conditions one of which unsets it by itself. -/
def framedMargin : Value :=
  .map [("default", .scalar (.text "1px 2px")),
    (":hover", .map [("@media print", .unset), ("default", .scalar (.text "0"))])]

def marginSheet : Sheet :=
  Sheet.empty
    |>.define (.staticClass "frame" (ownItems [declaredIn (some "::after") "margin" framedMargin]))

theorem unset_defeats_iff_margin :
    ∃ registry styles m registry' styles' result,
      marginSheet.compileInto { shorthands := .flatten } .empty = (registry, .ok styles) ∧
      get? styles.classes "frame" = some m ∧
      (marginSheet.define (.staticClass "bare"
        (ownItems [declaredIn (some "::after") "margin" .unset]))).compileInto
          { shorthands := .flatten } .empty = (registry', .ok styles') ∧
      styles'.resolve [.staticClass "frame", .staticClass "bare"] = .ok result ∧
      result.style = none ∧ result.classes = "" := by
  have hproperties : (marginSheet.compileInto { shorthands := .flatten } .empty).2.toOption.map
      (fun styles => (get? styles.classes "frame").map fun m =>
        m.entries.all fun e => e.property != "margin") = some (some true) := by
    decide +kernel
  obtain ⟨styles, hstyles, hfound⟩ := Option.map_eq_some_iff.1 hproperties
  obtain ⟨m, hm, hproperties⟩ := Option.map_eq_some_iff.1 hfound
  have hcompiles : marginSheet.compileInto { shorthands := .flatten } .empty =
      (_, .ok styles) := Prod.ext rfl (eq_ok_of_toOption hstyles)
  have hscope : IsPseudoScope (some "::after") := by
    intro pseudo heq
    cases heq
    decide
  obtain ⟨m', registry', styles', result, hm', hunset, hresolve, hstyle, hclasses⟩ :=
    unset_defeats_iff hcompiles (List.mem_singleton_self _) hscope (by decide)
      (by decide : ∀ d ∈ marginSheet.definitions, d.body.key ≠ (.staticClass, "", "bare"))
  rw [hm] at hm'
  cases hm'
  refine ⟨_, styles, m, registry', styles', result, hcompiles, hm, hunset, hresolve, hstyle,
    hclasses.2 ?_⟩
  rintro ⟨e, he, hkept⟩
  have hproperty := List.all_eq_true.1 hproperties e he
  rw [property_of_keptWhole hkept] at hproperty
  exact absurd hproperty (by decide)

/-- A class with a value that has no expansion, and one that unsets the property. -/
def variableSheet : Sheet :=
  Sheet.empty
    |>.define (.staticClass "spaced" [.property "margin" (.scalar (.text "var(--m)"))])
    |>.define (.staticClass "bare" [.property "margin" .unset])

/-- Such a value is not defeated by the unset. -/
theorem margin_variable_survives :
    ∃ styles result, variableSheet.compile { shorthands := .flatten } = .ok styles ∧
      styles.resolve [.staticClass "spaced", .staticClass "bare"] = .ok result ∧
      result.classes ≠ "" := by
  have hresolves : (variableSheet.compile { shorthands := .flatten }).toOption.map (fun styles =>
      (styles.resolve [.staticClass "spaced", .staticClass "bare"]).toOption.map
        Resolved.classes) = some (some "x7d630f6") := by
    decide +kernel
  obtain ⟨styles, hstyles, hfound⟩ := Option.map_eq_some_iff.1 hresolves
  obtain ⟨result, hresult, hclasses⟩ := Option.map_eq_some_iff.1 hfound
  refine ⟨styles, result, eq_ok_of_toOption hstyles, eq_ok_of_toOption hresult, ?_⟩
  rw [hclasses]
  decide

end AtomicCss.Proofs
