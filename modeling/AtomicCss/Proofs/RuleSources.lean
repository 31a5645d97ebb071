import AtomicCss.Proofs.Compilation
import AtomicCss.Proofs.Emission

/-!
# Whose the atomic rules of a sheet are

Only classes register atomic rules, and no two classes of a sheet that compiles have one name. So
every atomic rule behind a compilation is the rule of an entry that a compiled class still holds.
-/

namespace AtomicCss.Proofs

open Keyed Stylesheet

/-- The entry stands in one of the compiled classes. -/
def Holds (styles : Styles) (e : Entry) : Prop :=
  (∃ name m, get? styles.classes name = some m ∧ e ∈ m.entries) ∨
    ∃ name d, get? styles.dynamics name = some d ∧ e ∈ d.entries.entries

/-- A definition that is no class: the compiled classes stay, and no rule is atomic. -/
structure Aside (c : Context) (outcome : Outcome) : Prop where
  classes : outcome.scope.styles.classes = c.scope.styles.classes
  dynamics : outcome.scope.styles.dynamics = c.scope.styles.dynamics
  rules : ∀ r ∈ outcome.rules, r.2.kind ≠ .atomic

/-- What one definition adds to the compiled classes and to the atomic rules. -/
inductive Adds (c : Context) (d : Definition) (outcome : Outcome) : Prop
  | static {name : String} {m : ClassEntries} : d.body.key = (.staticClass, "", name) →
    outcome.scope.styles.classes = put c.scope.styles.classes name m →
    outcome.scope.styles.dynamics = c.scope.styles.dynamics →
    outcome.rules = m.entries.filterMap Registry.ruleOf? → Adds c d outcome
  | dynamic {name : String} {compiled : DynamicClass} : d.body.key = (.dynamicClass, "", name) →
    outcome.scope.styles.classes = c.scope.styles.classes →
    outcome.scope.styles.dynamics = put c.scope.styles.dynamics name compiled →
    outcome.rules = compiled.bindings.map Context.propertyRule ++
      compiled.entries.entries.filterMap Registry.ruleOf? → Adds c d outcome
  | aside : Aside c outcome → Adds c d outcome

lemma kind_of_mem_groupRules {start : String}
    {resolved : List (String × Option VarType × List (Option String × String))} {r : NamedRule}
    (hr : r ∈ groupRules start resolved) : r.2.kind ≠ .atomic := by
  rcases List.mem_append.1 hr with hr | hr
  · obtain ⟨var, _, hr⟩ := List.mem_filterMap.1 hr
    obtain ⟨type, _, rfl⟩ := Option.map_eq_some_iff.1 hr
    exact nofun
  · obtain ⟨block, _, rfl⟩ := List.mem_map.1 hr
    exact nofun

lemma adds_of_compile {c : Context} {d : Definition} {outcome : Outcome}
    (h : c.compile d = .ok outcome) : Adds c d outcome := by
  cases compile_eq_ok_iff.1 h with
  | staticClass => exact .static rfl rfl rfl rfl
  | dynamicClass => exact .dynamic rfl rfl rfl rfl
  | vars => exact .aside ⟨rfl, rfl, fun _ => kind_of_mem_groupRules⟩
  | consts hscope =>
    obtain ⟨consts, rfl⟩ := scope_of_compileConsts hscope
    exact .aside ⟨rfl, rfl, nofun⟩
  | theme => exact .aside ⟨rfl, rfl, by simp [Rule.block]⟩
  | keyframes | positionTry | viewTransition =>
    exact .aside ⟨rfl, rfl, by simp [Context.named, Rule.block]⟩
  | marker => exact .aside ⟨rfl, rfl, nofun⟩

lemma mem_firsts {rules : List NamedRule} {r : NamedRule} (h : r ∈ firsts rules) : r ∈ rules := by
  induction rules with
  | nil => exact h
  | cons head rest ih =>
    rcases List.mem_cons.1 h with rfl | h
    · exact List.mem_cons_self
    · exact List.mem_cons_of_mem _ (ih (List.mem_filter.1 h).1)

/-- What is registered behind an insertion was there or was inserted. -/
lemma mem_insertAll {registry : Registry} {rules : List NamedRule} {r : NamedRule}
    (h : r ∈ (registry.insertAll rules).rules) : r ∈ registry.rules ∨ r ∈ rules := by
  rw [rules_insertAll] at h
  rcases List.mem_append.1 h with h | h
  · exact .inl h
  · exact .inr (mem_firsts (List.mem_filter.1 h).1)

/-- What is known behind the definitions with these keys: the compiled classes are among them, and
every atomic rule is the rule of an entry in one of the classes. -/
structure Accounted (seen : List (Body.Kind × String × String)) (registry : Registry)
    (styles : Styles) : Prop where
  classes : ∀ {name : String} {m : ClassEntries}, get? styles.classes name = some m →
    (.staticClass, "", name) ∈ seen
  dynamics : ∀ {name : String} {d : DynamicClass}, get? styles.dynamics name = some d →
    (.dynamicClass, "", name) ∈ seen
  atomic : ∀ r ∈ registry.rules, r.2.kind = .atomic →
    ∃ e, Holds styles e ∧ Registry.ruleOf? e = some r

lemma Accounted.step {c : Context} {d : Definition} {outcome : Outcome} {registry : Registry}
    {seen : List (Body.Kind × String × String)} (hstep : c.compile d = .ok outcome)
    (hnew : d.body.key ∉ seen) (h : Accounted seen registry c.scope.styles) :
    Accounted (d.body.key :: seen) (registry.insertAll outcome.rules) outcome.scope.styles := by
  cases adds_of_compile hstep with
  | @static name m hkey hclasses hdynamics hrules =>
    rw [hkey] at hnew ⊢
    have hstays : ∀ {e : Entry}, Holds c.scope.styles e → Holds outcome.scope.styles e := by
      rintro e (⟨other, m', hget, he⟩ | hdynamic)
      · have hother : other ≠ name := by
          rintro rfl
          exact hnew (h.classes hget)
        exact .inl ⟨other, m', by rw [hclasses, get?_put, if_neg hother, hget], he⟩
      · exact .inr (hdynamics ▸ hdynamic)
    constructor
    · intro other m' hget
      rw [hclasses, get?_put] at hget
      split at hget
      · rename_i heq
        exact heq ▸ List.mem_cons_self
      · exact List.mem_cons_of_mem _ (h.classes hget)
    · intro other d' hget
      rw [hdynamics] at hget
      exact List.mem_cons_of_mem _ (h.dynamics hget)
    · intro r hr hkind
      rcases mem_insertAll hr with hr | hr
      · exact (h.atomic r hr hkind).imp fun e he => he.imp_left hstays
      · rw [hrules] at hr
        obtain ⟨e, he, hrule⟩ := List.mem_filterMap.1 hr
        exact ⟨e, .inl ⟨name, m, by rw [hclasses, get?_put, if_pos rfl], he⟩, hrule⟩
  | @dynamic name compiled hkey hclasses hdynamics hrules =>
    rw [hkey] at hnew ⊢
    have hstays : ∀ {e : Entry}, Holds c.scope.styles e → Holds outcome.scope.styles e := by
      rintro e (hstatic | ⟨other, d', hget, he⟩)
      · exact .inl (hclasses ▸ hstatic)
      · have hother : other ≠ name := by
          rintro rfl
          exact hnew (h.dynamics hget)
        exact .inr ⟨other, d', by rw [hdynamics, get?_put, if_neg hother, hget], he⟩
    constructor
    · intro other m' hget
      rw [hclasses] at hget
      exact List.mem_cons_of_mem _ (h.classes hget)
    · intro other d' hget
      rw [hdynamics, get?_put] at hget
      split at hget
      · rename_i heq
        exact heq ▸ List.mem_cons_self
      · exact List.mem_cons_of_mem _ (h.dynamics hget)
    · intro r hr hkind
      rcases mem_insertAll hr with hr | hr
      · exact (h.atomic r hr hkind).imp fun e he => he.imp_left hstays
      · rw [hrules] at hr
        rcases List.mem_append.1 hr with hr | hr
        · obtain ⟨binding, _, rfl⟩ := List.mem_map.1 hr
          cases hkind
        · obtain ⟨e, he, hrule⟩ := List.mem_filterMap.1 hr
          exact ⟨e, .inr ⟨name, compiled, by rw [hdynamics, get?_put, if_pos rfl], he⟩, hrule⟩
  | aside haside =>
    constructor
    · intro other m' hget
      rw [haside.classes] at hget
      exact List.mem_cons_of_mem _ (h.classes hget)
    · intro other d' hget
      rw [haside.dynamics] at hget
      exact List.mem_cons_of_mem _ (h.dynamics hget)
    · intro r hr hkind
      rcases mem_insertAll hr with hr | hr
      · unfold Holds
        rw [haside.classes, haside.dynamics]
        exact h.atomic r hr hkind
      · exact (haside.rules r hr hkind).elim

lemma Accounted.run {config : Config} {sheet : Sheet} {registry : Registry} {scope result : Scope}
    {definitions : List Definition} {seen : List (Body.Kind × String × String)}
    (hrun : (Sheet.compileFrom config sheet registry scope definitions).2 = .ok result)
    (hnew : Sheet.repeatedIn? seen definitions = none)
    (h : Accounted seen registry scope.styles) :
    ∃ all, Accounted all (Sheet.compileFrom config sheet registry scope definitions).1
      result.styles := by
  induction definitions generalizing registry scope seen with
  | nil =>
    cases hrun
    exact ⟨seen, h⟩
  | cons d ds ih =>
    rw [Sheet.repeatedIn?] at hnew
    rw [Sheet.compileFrom] at hrun ⊢
    split at hnew
    · cases hnew
    · rename_i hunseen
      split at hrun
      · cases hrun
      · rename_i outcome hstep
        exact ih hrun hnew (h.step hstep (by simpa using hunseen))

/-- Every atomic rule behind a compilation into a fresh registry is the rule of an entry of one of
the compiled classes. -/
lemma exists_entry_of_atomic {config : Config} {sheet : Sheet} {registry : Registry}
    {styles : Styles} (h : sheet.compileInto config .empty = (registry, .ok styles))
    {r : NamedRule} (hr : r ∈ registry.rules) (hkind : r.2.kind = .atomic) :
    ∃ e, Holds styles e ∧ Registry.ruleOf? e = some r := by
  unfold Sheet.compileInto at h
  split at h
  · cases (Prod.mk.inj h).2
  · rename_i hcheck
    obtain ⟨hregistry, h⟩ := Prod.mk.inj h
    obtain ⟨scope, hscope, rfl⟩ := map_eq_ok h
    subst hregistry
    have hnew : sheet.repeated? = none := by
      obtain ⟨_, _, hcheck⟩ := bind_eq_ok hcheck
      split at hcheck
      · cases hcheck
      · assumption
    have hempty : Accounted [] .empty ({} : Scope).styles := by
      constructor <;> nofun
    obtain ⟨all, hall⟩ := hempty.run hscope hnew
    exact hall.atomic r hr hkind

/-- An entry that is built, its at-rules being those of a condition that was read. -/
def Built (config : Config) (e : Entry) : Prop :=
  ∃ property value suffix atRule, e = .build config property value suffix atRule ∧
    ∀ text, atRule = some text →
      ∃ written condition, Condition.parse written = .ok condition ∧ condition.atRule = some text

lemma built_of_entryOf {config : Config} {property : String} {suffix atRule : Option String}
    {value : Value} {e : Entry} (h : EntryOf config property suffix atRule value e)
    (hu : e.isUnset = false) (hread : ∀ text, atRule = some text →
      ∃ written condition, Condition.parse written = .ok condition ∧
        condition.atRule = some text) : Built config e := by
  cases h with
  | unset => cases hu
  | build => exact ⟨_, _, _, _, rfl, hread⟩

lemma built_of_slotOf {config : Config} {property : String} {scope : Option String} {value : Value}
    {item : String × Slot} (h : SlotOf config property scope value item) {e : Entry}
    (he : e ∈ item.2.entries) (hu : e.isUnset = false) : Built config e := by
  cases h with
  | atomic hentry =>
    rw [Slot.entries, List.mem_singleton] at he
    subst he
    exact built_of_entryOf hentry hu nofun
  | bundle _ _ _ hentries =>
    obtain ⟨entry, hmem, rfl⟩ := List.mem_map.1 he
    obtain ⟨_, leaf, _, condition, hparse, _, hentry⟩ := hentries entry hmem
    exact built_of_entryOf hentry hu fun text htext => ⟨leaf.condition, condition, hparse, htext⟩

/-- Every entry of a compiled class that has a rule is built. -/
lemma built_of_holds {config : Config} {registry : Registry} {styles : Styles}
    (hcompiled : Compiled config registry styles) {e : Entry} (h : Holds styles e)
    (hu : e.isUnset = false) : Built config e := by
  rcases h with ⟨name, m, hget, he⟩ | ⟨name, d, hget, he⟩
  · obtain ⟨⟨declarations, hgives⟩, _⟩ := hcompiled.classes hget
    obtain ⟨item, hitem, he⟩ := List.mem_flatMap.1 he
    obtain ⟨_, _, _, _, _, hslot⟩ := slotOf_of_mem hgives hitem
    exact built_of_slotOf hslot he hu
  · obtain ⟨⟨_, _, hgives⟩, _⟩ := hcompiled.dynamics hget
    obtain ⟨item, hitem, he⟩ := List.mem_flatMap.1 he
    obtain ⟨_, _, rfl⟩ := dynamic_slot hgives hitem
    rw [Slot.entries, List.mem_singleton] at he
    subst he
    exact ⟨_, _, _, _, rfl, nofun⟩

end AtomicCss.Proofs
