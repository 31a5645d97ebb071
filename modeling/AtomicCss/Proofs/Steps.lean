import AtomicCss.Compile.Sheet
import AtomicCss.Proofs.Processing

/-!
# What compiling a definition gives

All that can be said of a definition that compiles is read off one relation, which has a constructor
for every kind of definition. A sheet is compiled by such steps, so what they keep holds at its end.
-/

namespace AtomicCss.Proofs

open Keyed Context

/-- What a class leaves behind, given its declarations, its entries and the warnings. -/
def classOutcome (c : Context) (name : String) (declarations : Declarations) (m : ClassEntries)
    (warnings : List Warning) : Outcome where
  rules := m.entries.filterMap Registry.ruleOf?
  scope :=
    { c.scope with
      declarations := c.scope.declarations.put name declarations
      styles :=
        { c.scope.styles.warn warnings with classes := c.scope.styles.classes.put name m } }

/-- What the variables of a group see: all of the group. -/
def inGroup (c : Context) (space : String) (vars : List (String × Var)) : Context :=
  { c with scope := withVars c.scope c.config.classStart space (vars.map Prod.fst) }

/-- A variable of a group, resolved there, with its type. -/
def groupVar (c : Context) (space : String) (site : Site) (vars : List (String × Var))
    (item : String × Var) :
    Except StyleError (String × Option VarType × List (Option String × String)) := do
  let found ← (inGroup c space vars).resolvedVar (qualified space item.1) site space item.1
    item.2.value
  .ok (found.1, item.2.type, found.2)

/-- The rules of a group: types of variables, and their values by at-rule. -/
def groupRules (start : String)
    (resolved : List (String × Option VarType × List (Option String × String))) :
    List NamedRule :=
  let blocks : Blocks := resolved.foldl (fun bs var => bs.addAll var.1 var.2.2) []
  (resolved.filterMap fun var => var.2.1.map fun type => typedRule var.1 type var.2.2) ++
    blocks.defaultFirst.map (rootRule start)

/-- The values of a theme by at-rule. -/
def themeBlocks (resolved : List (String × List (Option String × String))) : Blocks :=
  let blocks : Blocks := resolved.foldl (fun bs var => bs.addAll var.1 var.2) []
  blocks.defaultFirst.map fun block => (block.1, sortTexts block.2)

/-- The block of a frame behind its selector. -/
def frameBlock (c : Context) (name : String) (site : Site) (frame : String × Declarations) :
    Processing String := do
  let block ← c.plainBlock name site frame.2
  pure (braced (frameSelector frame.1) block)

/-- What a definition is compiled to. -/
inductive Step (c : Context) : Definition → Outcome → Prop
  | staticClass {site : Site} {name : String} {items : List ClassItem} {parts : List Declarations}
    {entries : ClassEntries} {warnings : List Warning} :
    items.mapM (c.declarationsOf name site) = .ok parts →
    (Declaration.classEntries ⟨c.config, name⟩ parts.flatten).collect = (.ok entries, warnings) →
    Step c ⟨site, .staticClass name items⟩
      (classOutcome c name parts.flatten entries warnings)
  | dynamicClass {site : Site} {name : String} {parameters : List String}
    {properties : List (String × String)} {compiled : DynamicClass} {warnings : List Warning} :
    (DynamicClass.compile ⟨c.config, name⟩ parameters properties).collect =
      (.ok compiled, warnings) →
    Step c ⟨site, .dynamicClass name parameters properties⟩
      { rules :=
          compiled.bindings.map propertyRule ++
            compiled.entries.entries.filterMap Registry.ruleOf?
        scope :=
          { c.scope with
            styles :=
              { c.scope.styles.warn warnings with
                dynamics := put c.scope.styles.dynamics name compiled } } }
  | vars {site : Site} {space : String} {vars : List (String × Var)}
    {resolved : List (String × Option VarType × List (Option String × String))} :
    repeatedName? [] (vars.map Prod.fst) = none →
    vars.mapM (groupVar c space site vars) = .ok resolved →
    Step c ⟨site, .vars space vars⟩
      ⟨groupRules c.config.classStart resolved, (inGroup c space vars).scope⟩
  | consts {site : Site} {space : String} {values : List (String × Scalar)} {scope : Scope} :
    c.compileConsts space site c.scope values = .ok scope →
    Step c ⟨site, .consts space values⟩ ⟨[], scope⟩
  | theme {site : Site} {space name className : String} {overrides : Declarations}
    {names : List String} {resolved : List (String × List (Option String × String))} :
    get? c.scope.varGroups space = some names → (∀ o ∈ overrides, o.1 ∈ names) →
    overrides.mapM (fun o => c.resolvedVar (qualified space name) site space o.1 o.2) =
      .ok resolved →
    className = Naming.contentName c.config.classStart (themeText space (themeBlocks resolved)) →
    Step c ⟨site, .theme space name overrides⟩
      { rules := [(className, .block .theme (themeCss className (themeBlocks resolved)))]
        scope :=
          { c.scope with
            styles :=
              { c.scope.styles with
                themes := put c.scope.styles.themes (qualified space name) className } } }
  | keyframes {site : Site} {name animation : String} {frames : List (String × Declarations)}
    {blocks : List String} {warnings : List Warning} :
    (frames.mapM (frameBlock c name site)).collect = (.ok blocks, warnings) →
    animation = Naming.contentName c.config.classStart (String.join blocks) ++ "-B" →
    Step c ⟨site, .keyframes name frames⟩
      (c.named warnings
        (animation, .block .keyframes (braced ("@keyframes " ++ animation) (String.join blocks)))
        fun styles => { styles with keyframes := put styles.keyframes name animation })
  | positionTry {site : Site} {name ident body : String} {declarations : Declarations}
    {warnings : List Warning} :
    (∀ item ∈ declarations, Property.dashCase item.1 ∈ positionTryProperties) →
    (c.plainBlock name site declarations).collect = (.ok body, warnings) →
    ident = "--" ++ Naming.contentName c.config.classStart body →
    Step c ⟨site, .positionTry name declarations⟩
      (c.named warnings (ident, .block .positionTry (braced ("@position-try " ++ ident) body))
        fun styles => { styles with positionTries := put styles.positionTries name ident })
  | viewTransition {site : Site} {name className : String} {parts : List (String × Declarations)}
    {blocks : List (String × String)} {warnings : List Warning} :
    (parts.mapM (c.transitionPart name site)).collect = (.ok blocks, warnings) →
    className = Naming.contentName c.config.classStart ("view-transition:" ++
      String.join ((orderedParts blocks).map fun block => braced block.1 block.2)) →
    Step c ⟨site, .viewTransition name parts⟩
      (c.named warnings
        (className, .block .viewTransition (String.join ((orderedParts blocks).map fun block =>
          braced ("::view-transition-" ++ block.1 ++ "(*." ++ className ++ ")") block.2)))
        fun styles => { styles with viewTransitions := put styles.viewTransitions name className })
  | marker {site : Site} {space name : String} :
    Step c ⟨site, .marker space name⟩
      ⟨[], { c.scope with
        styles :=
          { c.scope.styles with
            markers := put c.scope.styles.markers (qualified space name)
              (Naming.markerClass c.config.classStart space name) } }⟩

section

variable {c : Context} {site : Site} {name space : String} {outcome : Outcome}

lemma compileClass_eq_ok_iff {items : List ClassItem} :
    c.compileClass name site items = .ok outcome ↔
      Step c ⟨site, .staticClass name items⟩ outcome := by
  constructor
  · intro h
    obtain ⟨parts, hparts, h⟩ := bind_eq_ok h
    obtain ⟨entries, hentries, h⟩ := bind_eq_ok h
    cases h
    exact .staticClass hparts (Prod.ext hentries rfl)
  · intro h
    cases h with
    | staticClass hparts hentries =>
      unfold Context.compileClass
      rw [hparts]
      dsimp only [bind, Except.bind]
      rw [hentries]
      rfl

lemma compileDynamic_eq_ok_iff {parameters : List String} {properties : List (String × String)} :
    c.compileDynamic name parameters properties = .ok outcome ↔
      Step c ⟨site, .dynamicClass name parameters properties⟩ outcome := by
  constructor
  · intro h
    obtain ⟨compiled, hcompiled, h⟩ := bind_eq_ok h
    cases h
    exact .dynamicClass (Prod.ext hcompiled rfl)
  · intro h
    cases h with
    | dynamicClass hcompiled =>
      unfold Context.compileDynamic
      rw [hcompiled]
      rfl

lemma compileVars_eq_ok_iff {vars : List (String × Var)} :
    c.compileVars space site vars = .ok outcome ↔ Step c ⟨site, .vars space vars⟩ outcome := by
  constructor
  · intro h
    unfold Context.compileVars at h
    dsimp only at h
    split at h
    · cases h
    · rename_i hnew
      obtain ⟨resolved, hresolved, h⟩ := bind_eq_ok h
      cases h
      exact .vars hnew hresolved
  · intro h
    cases h with
    | vars hnew hresolved =>
      unfold Context.compileVars
      dsimp only
      rw [hnew]
      dsimp only
      change vars.mapM (groupVar c space site vars) >>= _ = _
      rw [hresolved]
      rfl

lemma compileTheme_eq_ok_iff {overrides : Declarations} :
    c.compileTheme space name site overrides = .ok outcome ↔
      Step c ⟨site, .theme space name overrides⟩ outcome := by
  constructor
  · intro h
    unfold Context.compileTheme at h
    dsimp only at h
    split at h
    · cases h
    · rename_i names hgroup
      split at h
      · cases h
      · rename_i hknown
        obtain ⟨resolved, hresolved, h⟩ := bind_eq_ok h
        cases h
        exact .theme hgroup (by simpa using hknown) hresolved rfl
  · intro h
    cases h with
    | @theme _ _ _ _ _ names _ hgroup hnames hresolved hname =>
      have hknown : overrides.find? (fun o => !names.contains o.1) = none := by
        simpa using hnames
      subst hname
      unfold Context.compileTheme
      dsimp only
      rw [hgroup]
      dsimp only
      rw [hknown]
      dsimp only
      change overrides.mapM
        (fun o => c.resolvedVar (qualified space name) site space o.1 o.2) >>= _ = _
      rw [hresolved]
      rfl

lemma compileKeyframes_eq_ok_iff {frames : List (String × Declarations)} :
    c.compileKeyframes name site frames = .ok outcome ↔
      Step c ⟨site, .keyframes name frames⟩ outcome := by
  constructor
  · intro h
    obtain ⟨blocks, hblocks, h⟩ := bind_eq_ok h
    cases h
    exact .keyframes (Prod.ext hblocks rfl) rfl
  · intro h
    cases h with
    | keyframes hblocks hname =>
      subst hname
      unfold frameBlock at hblocks
      unfold Context.compileKeyframes
      dsimp only
      rw [hblocks]
      rfl

lemma compilePositionTry_eq_ok_iff {declarations : Declarations} :
    c.compilePositionTry name site declarations = .ok outcome ↔
      Step c ⟨site, .positionTry name declarations⟩ outcome := by
  constructor
  · intro h
    unfold Context.compilePositionTry at h
    dsimp only at h
    split at h
    · cases h
    · rename_i hknown
      obtain ⟨body, hbody, h⟩ := bind_eq_ok h
      cases h
      exact .positionTry (by simpa using hknown) (Prod.ext hbody rfl) rfl
  · intro h
    cases h with
    | positionTry hallowed hbody hname =>
      have hknown : (declarations.map fun item => Property.dashCase item.1).find?
          (fun p => !positionTryProperties.contains p) = none := by simpa using hallowed
      subst hname
      unfold Context.compilePositionTry
      dsimp only
      rw [hknown]
      dsimp only
      rw [hbody]
      rfl

lemma compileViewTransition_eq_ok_iff {parts : List (String × Declarations)} :
    c.compileViewTransition name site parts = .ok outcome ↔
      Step c ⟨site, .viewTransition name parts⟩ outcome := by
  constructor
  · intro h
    obtain ⟨blocks, hblocks, h⟩ := bind_eq_ok h
    cases h
    exact .viewTransition (Prod.ext hblocks rfl) rfl
  · intro h
    cases h with
    | viewTransition hblocks hname =>
      subst hname
      unfold Context.compileViewTransition
      dsimp only
      rw [hblocks]
      rfl

/-- Constants leave all of the scope alone but the constants. -/
lemma scope_of_compileConsts {scope result : Scope} {values : List (String × Scalar)}
    (h : c.compileConsts space site scope values = .ok result) :
    ∃ consts, result = { scope with consts } := by
  induction values generalizing scope with
  | nil =>
    cases h
    exact ⟨_, rfl⟩
  | cons item rest ih =>
    obtain ⟨_, _, h⟩ := bind_eq_ok h
    have hrest := ih h
    exact hrest

/-- A definition compiles exactly to what the relation says. -/
lemma compile_eq_ok_iff {d : Definition} : c.compile d = .ok outcome ↔ Step c d outcome := by
  obtain ⟨site, body⟩ := d
  cases body with
  | staticClass => exact compileClass_eq_ok_iff
  | dynamicClass => exact compileDynamic_eq_ok_iff
  | vars => exact compileVars_eq_ok_iff
  | consts =>
    constructor
    · intro h
      obtain ⟨scope, hscope, rfl⟩ := map_eq_ok h
      exact .consts hscope
    · intro h
      cases h with
      | consts hscope =>
        unfold Context.compile
        dsimp only
        rw [hscope]
        rfl
  | theme => exact compileTheme_eq_ok_iff
  | keyframes => exact compileKeyframes_eq_ok_iff
  | positionTry => exact compilePositionTry_eq_ok_iff
  | viewTransition => exact compileViewTransition_eq_ok_iff
  | marker =>
    constructor
    · intro h
      cases h
      exact .marker
    · intro h
      cases h
      rfl

end

section

variable {config : Config} {sheet : Sheet} {start left : Registry} {scope result : Scope}

/-- A run that succeeds takes a step and goes on behind it. -/
lemma compileFrom_cons {d : Definition} {ds : List Definition}
    (h : Sheet.compileFrom config sheet start scope (d :: ds) = (left, .ok result)) :
    ∃ outcome, Context.compile ⟨config, sheet, scope⟩ d = .ok outcome ∧
      Sheet.compileFrom config sheet (start.insertAll outcome.rules) outcome.scope ds =
        (left, .ok result) := by
  rw [Sheet.compileFrom] at h
  split at h
  · cases h
  · rename_i outcome hstep
    exact ⟨outcome, hstep, h⟩

lemma compileFrom_append {definitions : List Definition}
    (h : Sheet.compileFrom config sheet start scope definitions = (left, .ok result))
    (rest : List Definition) :
    Sheet.compileFrom config sheet start scope (definitions ++ rest) =
      Sheet.compileFrom config sheet left result rest := by
  induction definitions generalizing start scope with
  | nil =>
    cases h
    rfl
  | cons d ds ih =>
    obtain ⟨outcome, hstep, h⟩ := compileFrom_cons h
    rw [List.cons_append, Sheet.compileFrom, hstep]
    exact ih h

/-- A run that succeeds, cut before some definition. -/
lemma compileFrom_split {front rest : List Definition} {d : Definition}
    (h : Sheet.compileFrom config sheet start scope (front ++ d :: rest) = (left, .ok result)) :
    ∃ left' scope' outcome,
      Sheet.compileFrom config sheet start scope front = (left', .ok scope') ∧
      Context.compile ⟨config, sheet, scope'⟩ d = .ok outcome ∧
      Sheet.compileFrom config sheet (left'.insertAll outcome.rules) outcome.scope rest =
        (left, .ok result) := by
  induction front generalizing start scope with
  | nil =>
    obtain ⟨outcome, hstep, hrest⟩ := compileFrom_cons h
    exact ⟨start, scope, outcome, rfl, hstep, hrest⟩
  | cons first front ih =>
    obtain ⟨outcome, hfirst, h⟩ := compileFrom_cons h
    obtain ⟨left', scope', next, hfront, hstep, hrest⟩ := ih h
    refine ⟨left', scope', next, ?_, hstep, hrest⟩
    rw [Sheet.compileFrom, hfirst]
    exact hfront

/-- What every step keeps still holds behind a run. -/
lemma compileFrom_invariant {P : Registry → Scope → Prop} {definitions : List Definition}
    (hstep : ∀ registry scope d outcome, d ∈ definitions → P registry scope →
      Context.compile ⟨config, sheet, scope⟩ d = .ok outcome →
      P (registry.insertAll outcome.rules) outcome.scope)
    (hrun : Sheet.compileFrom config sheet start scope definitions = (left, .ok result))
    (h : P start scope) : P left result := by
  induction definitions generalizing start scope with
  | nil =>
    cases hrun
    exact h
  | cons d ds ih =>
    obtain ⟨outcome, hd, hrun⟩ := compileFrom_cons hrun
    refine ih (fun registry scope e outcome he => ?_) hrun
      (hstep start scope d outcome List.mem_cons_self h hd)
    exact hstep registry scope e outcome (List.mem_cons_of_mem _ he)

end

end AtomicCss.Proofs
