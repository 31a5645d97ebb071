import AtomicCss.Proofs.ClassEntries
import AtomicCss.Proofs.Registry
import AtomicCss.Proofs.Steps

/-!
# What holds while a sheet is compiled

Compiling a definition leaves the compiled classes alone or adds one. So at every moment the
classes are what the declarations of some class gave, and the rules of all their entries, or others
of the same name, are registered.
-/

namespace AtomicCss.Proofs

open Keyed Declaration

/-- What one definition does to the compiled classes. -/
inductive ClassStep (c : Context) (outcome : Outcome) : Prop
  | static {name : String} {declarations : Declarations} {m : ClassEntries} :
    Gives (classEntries ⟨c.config, name⟩ declarations) m →
    outcome.scope.styles.classes = put c.scope.styles.classes name m →
    outcome.scope.styles.dynamics = c.scope.styles.dynamics →
    outcome.rules = m.entries.filterMap Registry.ruleOf? → ClassStep c outcome
  | dynamic {name : String} {parameters : List String} {properties : List (String × String)}
    {d : DynamicClass} : Gives (DynamicClass.compile ⟨c.config, name⟩ parameters properties) d →
    outcome.scope.styles.classes = c.scope.styles.classes →
    outcome.scope.styles.dynamics = put c.scope.styles.dynamics name d →
    outcome.rules =
      d.bindings.map Context.propertyRule ++ d.entries.entries.filterMap Registry.ruleOf? →
    ClassStep c outcome
  | none : outcome.scope.styles.classes = c.scope.styles.classes →
    outcome.scope.styles.dynamics = c.scope.styles.dynamics → ClassStep c outcome

lemma classStep_of_compile {c : Context} {d : Definition} {outcome : Outcome}
    (h : c.compile d = .ok outcome) : ClassStep c outcome := by
  cases compile_eq_ok_iff.1 h with
  | staticClass _ hentries =>
    exact .static (gives_of_collect (congrArg Prod.fst hentries)) rfl rfl rfl
  | dynamicClass hcompiled =>
    exact .dynamic (gives_of_collect (congrArg Prod.fst hcompiled)) rfl rfl rfl
  | consts hscope =>
    obtain ⟨consts, rfl⟩ := scope_of_compileConsts hscope
    exact .none rfl rfl
  | _ => exact .none rfl rfl

/-- For every entry of a class there is a rule under its class name. -/
def Registered (registry : Registry) (m : ClassEntries) : Prop :=
  ∀ e ∈ m.entries, ∀ c, e.className = some c → registry.contains .atomic c = true

/-- What is known of the compiled classes at every moment. -/
structure Compiled (config : Config) (registry : Registry) (styles : Styles) : Prop where
  classes : ∀ {name : String} {m : ClassEntries}, get? styles.classes name = some m →
    (∃ declarations, Gives (classEntries ⟨config, name⟩ declarations) m) ∧ Registered registry m
  dynamics : ∀ {name : String} {d : DynamicClass}, get? styles.dynamics name = some d →
    (∃ parameters properties, Gives (DynamicClass.compile ⟨config, name⟩ parameters properties) d)
      ∧ Registered registry d.entries

lemma Registered.insertAll {registry : Registry} {m : ClassEntries} (h : Registered registry m)
    (rules : List NamedRule) : Registered (registry.insertAll rules) m :=
  fun e he c hc => contains_insertAll_of_contains rules (h e he c hc)

lemma registered_insertAll {registry : Registry} {m : ClassEntries} {rules : List NamedRule}
    (h : ∀ rule ∈ m.entries.filterMap Registry.ruleOf?, rule ∈ rules) :
    Registered (registry.insertAll rules) m := by
  intro e he c hc
  have hrule : (c, Rule.ofEntry e) ∈ rules := by
    apply h
    refine List.mem_filterMap.2 ⟨e, he, ?_⟩
    rw [Registry.ruleOf?, hc]
    rfl
  exact contains_insertAll hrule

lemma Compiled.step {c : Context} {d : Definition} {outcome : Outcome} {registry : Registry}
    (hstep : c.compile d = .ok outcome) (h : Compiled c.config registry c.scope.styles) :
    Compiled c.config (registry.insertAll outcome.rules) outcome.scope.styles := by
  cases classStep_of_compile hstep with
  | @static name declarations m hgives hclasses hdynamics hrules =>
    constructor
    · intro other m' hget
      rw [hclasses, get?_put] at hget
      by_cases ho : other = name
      · rw [if_pos ho] at hget
        cases hget
        subst ho
        exact ⟨⟨declarations, hgives⟩, registered_insertAll fun rule hr => hrules ▸ hr⟩
      · rw [if_neg ho] at hget
        exact (h.classes hget).imp_right fun hr => hr.insertAll _
    · intro other d' hget
      rw [hdynamics] at hget
      exact (h.dynamics hget).imp_right fun hr => hr.insertAll _
  | @dynamic name parameters properties d hgives hclasses hdynamics hrules =>
    constructor
    · intro other m' hget
      rw [hclasses] at hget
      exact (h.classes hget).imp_right fun hr => hr.insertAll _
    · intro other d' hget
      rw [hdynamics, get?_put] at hget
      by_cases ho : other = name
      · rw [if_pos ho] at hget
        cases hget
        subst ho
        refine ⟨⟨parameters, properties, hgives⟩, registered_insertAll fun rule hr => ?_⟩
        rw [hrules]
        exact List.mem_append_right _ hr
      · rw [if_neg ho] at hget
        exact (h.dynamics hget).imp_right fun hr => hr.insertAll _
  | none hclasses hdynamics =>
    constructor
    · intro other m' hget
      rw [hclasses] at hget
      exact (h.classes hget).imp_right fun hr => hr.insertAll _
    · intro other d' hget
      rw [hdynamics] at hget
      exact (h.dynamics hget).imp_right fun hr => hr.insertAll _

lemma Compiled.run {config : Config} {sheet : Sheet} {registry : Registry} {scope result : Scope}
    {definitions : List Definition}
    (hrun : (Sheet.compileFrom config sheet registry scope definitions).2 = .ok result)
    (h : Compiled config registry scope.styles) :
    Compiled config (Sheet.compileFrom config sheet registry scope definitions).1
      result.styles := by
  apply compileFrom_invariant (P := fun registry scope => Compiled config registry scope.styles)
    ?_ (Prod.ext rfl hrun) h
  intro registry scope d outcome _ hknown hstep
  exact hknown.step hstep

/-- What is known of a sheet that compiled. -/
lemma compiled_of_compileInto {config : Config} {sheet : Sheet} {start registry : Registry}
    {styles : Styles} (h : sheet.compileInto config start = (registry, .ok styles)) :
    styles.rules = Stylesheet.emit registry config.layers ∧ Compiled config registry styles := by
  unfold Sheet.compileInto at h
  split at h
  · cases (Prod.mk.inj h).2
  · obtain ⟨hregistry, h⟩ := Prod.mk.inj h
    obtain ⟨scope, hscope, rfl⟩ := map_eq_ok h
    subst hregistry
    have hempty : Compiled config start ({} : Scope).styles := by
      constructor
      · intro name m hget
        cases hget
      · intro name d hget
        cases hget
    have hend := hempty.run hscope
    refine ⟨rfl, ?_⟩
    constructor
    · exact hend.classes
    · exact hend.dynamics

lemma compiled_of_compile {config : Config} {sheet : Sheet} {styles : Styles}
    (h : sheet.compile config = .ok styles) :
    ∃ registry, styles.rules = Stylesheet.emit registry config.layers ∧
      Compiled config registry styles :=
  ⟨_, compiled_of_compileInto (Prod.ext rfl h)⟩

end AtomicCss.Proofs
