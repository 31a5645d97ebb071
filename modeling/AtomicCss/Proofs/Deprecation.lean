import AtomicCss.Proofs.TwoRuns

/-!
# What deprecations do not change

Two configurations that differ in what is deprecated compile every sheet to the same styles, or
fail with the same error. Only warnings about deprecated properties tell the two runs apart.
-/

namespace AtomicCss.Proofs

open Context

/-- The remarks that are about something other than a deprecated property. -/
def isOther (w : Warning) : Bool :=
  w.remark ≠ .deprecated

/-- The styles without their warnings about deprecated properties. -/
def withoutDeprecations (styles : Styles) : Styles :=
  { styles with warnings := styles.warnings.filter isOther }

lemma isOther_deprecated (definition property : String) :
    isOther ⟨definition, property, .deprecated⟩ = false :=
  rfl

/-- Both runs fail with the same error, or come to the same rules and scope, but for warnings. -/
inductive TwinOutcomes : Except StyleError Outcome → Except StyleError Outcome → Prop
  | error (e : StyleError) : TwinOutcomes (.error e) (.error e)
  | ok (outcome : Outcome) (warnings : List Warning) :
    outcome.scope.styles.warnings.filter isOther = warnings.filter isOther →
    TwinOutcomes (.ok outcome) (.ok ⟨outcome.rules, rewarned warnings outcome.scope⟩)

section

variable (c : Context) (isDeprecated : String → Bool) (warnings : List Warning) (site : Site)

lemma declarationsOf_twin (definition : String) :
    (twin isDeprecated warnings c).declarationsOf definition site =
      c.declarationsOf definition site := by
  funext item
  cases item with
  | property key value =>
    rw [Context.declarationsOf, Context.declarationsOf, resolveValue_twin]
  | splice other => rfl

lemma resolvedVar_twin (definition space name : String) (value : Value) :
    (twin isDeprecated warnings c).resolvedVar definition site space name value =
      c.resolvedVar definition site space name value := by
  unfold Context.resolvedVar
  rw [resolveValue_twin]
  rfl

lemma groupVar_twin (space : String) (vars : List (String × Var)) :
    groupVar (twin isDeprecated warnings c) space site vars = groupVar c space site vars := by
  funext item
  unfold groupVar
  rw [← resolvedVar_twin (inGroup c space vars) isDeprecated warnings]
  rfl

/-- The constants of a group are the same in both runs. -/
lemma compileConsts_twin (space : String) (values : List (String × Scalar)) (scope : Scope) :
    (twin isDeprecated warnings c).compileConsts space site (rewarned warnings scope) values =
      (c.compileConsts space site scope values).map (rewarned warnings) := by
  induction values generalizing scope with
  | nil => rfl
  | cons item rest ih =>
    obtain ⟨name, value⟩ := item
    let resolved := ({ c with scope } : Context).resolveScalar (qualified space name) site value
    let behind (value : Scalar) : Scope :=
      { scope with consts := scope.consts.put (qualified space name) value }
    change (resolved >>= fun value => (twin isDeprecated warnings c).compileConsts space site
        (rewarned warnings (behind value)) rest) =
      (resolved >>= fun value => c.compileConsts space site (behind value) rest).map _
    -- warnings are no part of what a reference sees
    cases resolved with
    | error e => rfl
    | ok value => exact ih (behind value)

end

/-- What a view transition leaves behind, given the blocks of its parts and the warnings. -/
def transitionOutcome (c : Context) (name : String) (blocks : List (String × String))
    (warnings : List Warning) : Outcome :=
  let parts := orderedParts blocks
  let identity := String.join (parts.map fun (part, block) => braced part block)
  let className := Naming.contentName c.config.classStart ("view-transition:" ++ identity)
  let css := String.join <| parts.map fun (part, block) =>
    braced ("::view-transition-" ++ part ++ "(*." ++ className ++ ")") block
  c.named warnings (className, .block .viewTransition css)
    fun styles => { styles with viewTransitions := styles.viewTransitions.put name className }

section

variable {α : Type} {c : Context} {warnings : List Warning} (isDeprecated : String → Bool)
  (hsame : c.scope.styles.warnings.filter isOther = warnings.filter isOther)

include hsame

/-- What is built from the results of paired runs, if the warnings are only put behind the earlier
ones. -/
lemma twin_of_paired {p q : Processing α} (h : Paired isOther p q)
    (built : Context → α → List Warning → Outcome)
    (hbuilt : ∀ a made made', built (twin isDeprecated warnings c) a made' =
      ⟨(built c a made).rules, rewarned (warnings ++ made') (built c a made).scope⟩)
    (hwarned : ∀ a made,
      (built c a made).scope.styles.warnings = c.scope.styles.warnings ++ made) :
    TwinOutcomes (p.collect.1 >>= fun a => .ok (built c a p.collect.2))
      (q.collect.1 >>= fun a => .ok (built (twin isDeprecated warnings c) a q.collect.2)) := by
  obtain ⟨hresult, hkept⟩ := h.collect
  rw [hresult]
  cases q.collect.1 with
  | error e => exact .error e
  | ok a =>
    change TwinOutcomes (.ok _) (.ok (built (twin isDeprecated warnings c) a q.collect.2))
    rw [hbuilt a p.collect.2]
    apply TwinOutcomes.ok
    rw [hwarned, List.filter_append, List.filter_append, hsame, hkept]

/-- What is built from a result that is computed without warnings. -/
lemma twin_of_except (r : Except StyleError α) (built : Context → α → Outcome)
    (hbuilt : ∀ a, built (twin isDeprecated warnings c) a =
      ⟨(built c a).rules, rewarned warnings (built c a).scope⟩)
    (hwarned : ∀ a, (built c a).scope.styles.warnings = c.scope.styles.warnings) :
    TwinOutcomes (r >>= fun a => .ok (built c a))
      (r >>= fun a => .ok (built (twin isDeprecated warnings c) a)) := by
  cases r with
  | error e => exact .error e
  | ok a =>
    change TwinOutcomes (.ok _) (.ok (built (twin isDeprecated warnings c) a))
    rw [hbuilt a]
    apply TwinOutcomes.ok
    rw [hwarned, hsame]

lemma twin_compileClass (name : String) (site : Site) (items : List ClassItem) :
    TwinOutcomes (c.compileClass name site items)
      ((twin isDeprecated warnings c).compileClass name site items) := by
  unfold Context.compileClass
  rw [declarationsOf_twin]
  cases items.mapM (c.declarationsOf name site) with
  | error e => exact .error e
  | ok parts =>
    exact twin_of_paired isDeprecated hsame
      (paired_classEntries ⟨c.config, name⟩ isDeprecated isOther_deprecated parts.flatten)
      (fun c entries made => classOutcome c name parts.flatten entries made)
      (fun _ _ _ => rfl) fun _ _ => rfl

lemma twin_compileDynamic (name : String) (parameters : List String)
    (properties : List (String × String)) :
    TwinOutcomes (c.compileDynamic name parameters properties)
      ((twin isDeprecated warnings c).compileDynamic name parameters properties) :=
  twin_of_paired isDeprecated hsame
    (paired_dynamic ⟨c.config, name⟩ isDeprecated isOther_deprecated parameters properties)
    (fun c compiled made =>
      { rules :=
          compiled.bindings.map propertyRule ++
            compiled.entries.entries.filterMap Registry.ruleOf?
        scope :=
          { c.scope with
            styles :=
              { c.scope.styles.warn made with
                dynamics := c.scope.styles.dynamics.put name compiled } } })
    (fun _ _ _ => rfl) fun _ _ => rfl

lemma twin_compileVars (space : String) (site : Site) (vars : List (String × Var)) :
    TwinOutcomes (c.compileVars space site vars)
      ((twin isDeprecated warnings c).compileVars space site vars) := by
  unfold Context.compileVars
  dsimp only
  split
  · exact .error _
  · change TwinOutcomes (vars.mapM (groupVar c space site vars) >>= _)
      (vars.mapM (groupVar (twin isDeprecated warnings c) space site vars) >>= _)
    rw [groupVar_twin]
    exact twin_of_except isDeprecated hsame _
      (fun c resolved => ⟨groupRules c.config.classStart resolved, (inGroup c space vars).scope⟩)
      (fun _ => rfl) fun _ => rfl

lemma twin_compileConsts (space : String) (site : Site) (values : List (String × Scalar)) :
    TwinOutcomes ((c.compileConsts space site c.scope values).map fun scope => ⟨[], scope⟩)
      (((twin isDeprecated warnings c).compileConsts space site
        (twin isDeprecated warnings c).scope values).map fun scope => ⟨[], scope⟩) := by
  rw [show (twin isDeprecated warnings c).scope = rewarned warnings c.scope from rfl,
    compileConsts_twin]
  cases hscope : c.compileConsts space site c.scope values with
  | error e => exact .error e
  | ok scope =>
    obtain ⟨consts, rfl⟩ := scope_of_compileConsts hscope
    exact .ok ⟨[], { c.scope with consts }⟩ warnings hsame

lemma twin_compileTheme (space name : String) (site : Site) (overrides : Declarations) :
    TwinOutcomes (c.compileTheme space name site overrides)
      ((twin isDeprecated warnings c).compileTheme space name site overrides) := by
  unfold Context.compileTheme
  simp only [resolvedVar_twin]
  rw [show (twin isDeprecated warnings c).scope.varGroups = c.scope.varGroups from rfl]
  split
  · exact .error _
  · split
    · exact .error _
    · exact twin_of_except isDeprecated hsame _
        (fun c resolved =>
          let className :=
            Naming.contentName c.config.classStart (themeText space (themeBlocks resolved))
          { rules := [(className, .block .theme (themeCss className (themeBlocks resolved)))]
            scope :=
              { c.scope with
                styles :=
                  { c.scope.styles with
                    themes := c.scope.styles.themes.put (qualified space name) className } } })
        (fun _ => rfl) fun _ => rfl

lemma twin_compileKeyframes (name : String) (site : Site) (frames : List (String × Declarations)) :
    TwinOutcomes (c.compileKeyframes name site frames)
      ((twin isDeprecated warnings c).compileKeyframes name site frames) :=
  twin_of_paired isDeprecated hsame
    (.mapM (paired_frameBlock c isDeprecated warnings name site isOther_deprecated) frames)
    (fun c blocks made =>
      let animation := Naming.contentName c.config.classStart (String.join blocks) ++ "-B"
      c.named made
        (animation, .block .keyframes (braced ("@keyframes " ++ animation) (String.join blocks)))
        fun styles => { styles with keyframes := styles.keyframes.put name animation })
    (fun _ _ _ => rfl) fun _ _ => rfl

lemma twin_compilePositionTry (name : String) (site : Site) (declarations : Declarations) :
    TwinOutcomes (c.compilePositionTry name site declarations)
      ((twin isDeprecated warnings c).compilePositionTry name site declarations) := by
  unfold Context.compilePositionTry
  dsimp only
  split
  · exact .error _
  · exact twin_of_paired isDeprecated hsame
      (paired_plainBlock c isDeprecated warnings name site isOther_deprecated declarations)
      (fun c body made =>
        let ident := "--" ++ Naming.contentName c.config.classStart body
        c.named made (ident, .block .positionTry (braced ("@position-try " ++ ident) body))
          fun styles => { styles with positionTries := styles.positionTries.put name ident })
      (fun _ _ _ => rfl) fun _ _ => rfl

lemma twin_compileViewTransition (name : String) (site : Site)
    (parts : List (String × Declarations)) :
    TwinOutcomes (c.compileViewTransition name site parts)
      ((twin isDeprecated warnings c).compileViewTransition name site parts) :=
  twin_of_paired isDeprecated hsame
    (.mapM (paired_transitionPart c isDeprecated warnings name site isOther_deprecated) parts)
    (fun c blocks made => transitionOutcome c name blocks made) (fun _ _ _ => rfl) fun _ _ => rfl

/-- Every definition has the same outcome in both runs. -/
lemma twin_compile (d : Definition) :
    TwinOutcomes (c.compile d) ((twin isDeprecated warnings c).compile d) := by
  obtain ⟨site, body⟩ := d
  cases body with
  | staticClass name items => exact twin_compileClass isDeprecated hsame name site items
  | dynamicClass name parameters properties =>
    exact twin_compileDynamic isDeprecated hsame name parameters properties
  | vars space vars => exact twin_compileVars isDeprecated hsame space site vars
  | consts space values => exact twin_compileConsts isDeprecated hsame space site values
  | theme space name overrides =>
    exact twin_compileTheme isDeprecated hsame space name site overrides
  | keyframes name frames => exact twin_compileKeyframes isDeprecated hsame name site frames
  | positionTry name declarations =>
    exact twin_compilePositionTry isDeprecated hsame name site declarations
  | viewTransition name parts => exact twin_compileViewTransition isDeprecated hsame name site parts
  | marker space name => exact .ok _ warnings hsame

end

/-- What a run leaves, but for warnings about deprecated properties. -/
def observed (run : Registry × Except StyleError Scope) : Registry × Except StyleError Styles :=
  (run.1, run.2.map fun scope => withoutDeprecations scope.styles)

/-- Two runs from scopes that differ only in such warnings leave the same. The induction is on the
definitions: each of them hands the runs such scopes again, or fails in both. -/
lemma observed_compileFrom (config : Config) (isDeprecated : String → Bool) (sheet : Sheet)
    (definitions : List Definition) (registry : Registry) (scope : Scope) (warnings : List Warning)
    (hsame : scope.styles.warnings.filter isOther = warnings.filter isOther) :
    observed (sheet.compileFrom { config with isDeprecated } registry (rewarned warnings scope)
        definitions) =
      observed (sheet.compileFrom config registry scope definitions) := by
  induction definitions generalizing registry scope warnings with
  | nil =>
    refine Prod.ext rfl (congrArg Except.ok ?_)
    change ({ scope.styles with warnings := warnings.filter isOther } : Styles) = _
    rw [← hsame]
    rfl
  | cons d ds ih =>
    have hd := twin_compile (c := ⟨config, sheet, scope⟩) isDeprecated hsame d
    rw [Sheet.compileFrom, Sheet.compileFrom]
    change TwinOutcomes _
      (Context.compile ⟨{ config with isDeprecated }, sheet, rewarned warnings scope⟩ d) at hd
    generalize Context.compile ⟨config, sheet, scope⟩ d = first at hd ⊢
    generalize
      Context.compile ⟨{ config with isDeprecated }, sheet, rewarned warnings scope⟩ d = second
      at hd ⊢
    cases hd with
    | error e => rfl
    | ok outcome behind hbehind => exact ih _ _ _ hbehind

/-- What is deprecated has no influence on what is compiled: the runs under two answers fail with
the same error or succeed both, leave the same registry, and give the same styles, but for warnings
about deprecated properties. -/
theorem compileInto_isDeprecated (config : Config) (isDeprecated : String → Bool) (sheet : Sheet)
    (start : Registry) :
    let plain := sheet.compileInto config start
    let checked := sheet.compileInto { config with isDeprecated } start
    checked.1 = plain.1 ∧
      checked.2.map withoutDeprecations = plain.2.map withoutDeprecations := by
  have hruns :
      observed (sheet.compileFrom { config with isDeprecated } start {} sheet.definitions) =
        observed (sheet.compileFrom config start {} sheet.definitions) :=
    observed_compileFrom config isDeprecated sheet sheet.definitions start {} [] rfl
  have hcheck : Sheet.check { config with isDeprecated } sheet = Sheet.check config sheet := rfl
  dsimp only
  unfold Sheet.compileInto
  rw [hcheck]
  cases Sheet.check config sheet with
  | error e => exact ⟨rfl, rfl⟩
  | ok _ =>
    obtain ⟨hregistry, hstyles⟩ := Prod.mk.inj hruns
    have hemitted : ∀ (result : Except StyleError Scope) (rules : List CssRule),
        (result.map fun scope => { scope.styles with rules }).map withoutDeprecations =
          (result.map fun scope => withoutDeprecations scope.styles).map
            fun styles => { styles with rules } := by
      rintro (_ | _) _ <;> rfl
    refine ⟨hregistry, ?_⟩
    dsimp only
    rw [hemitted, hemitted, hregistry, hstyles]

end AtomicCss.Proofs
