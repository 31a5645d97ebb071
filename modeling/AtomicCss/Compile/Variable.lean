import AtomicCss.Compile.Scope

/-!
# Compiling variables, constants and themes

A variable may have values under at-rule conditions beside its default. The values of a group are
collected into one block per at-rule, the block of the defaults first.
-/

namespace AtomicCss

/-- Declarations by the at-rule around them. -/
abbrev Blocks := Keyed (Option String) (List String)

namespace Blocks

def add (blocks : Blocks) (atRule : Option String) (declaration : String) : Blocks :=
  Keyed.update blocks atRule [] fun declarations => declarations ++ [declaration]

def addAll (blocks : Blocks) (customProperty : String) (values : List (Option String × String)) :
    Blocks :=
  values.foldl (fun blocks v => blocks.add v.1 (customProperty ++ ":" ++ v.2)) blocks

/-- The block without an at-rule first; the others keep their order. -/
def defaultFirst (blocks : Blocks) : Blocks :=
  (blocks.filter fun b => b.1.isNone) ++ blocks.filter fun b => b.1.isSome

end Blocks

namespace Context

/-- The text of a value of a variable, which has no fallbacks. -/
def varText (definition customProperty : String) (value : Value) : Except StyleError String :=
  match Value.normalizeLeaf customProperty value with
  | .error fault => .error (.css fault)
  | .ok normalized =>
    match normalized.single? with
    | some text => .ok text
    | none => .error (.invalid definition .varWithFallbacks [])

/-- The value of a variable under one condition. -/
def conditionalVar (definition customProperty : String) (leaf : Declaration.Leaf) :
    Except StyleError (Option String × String) :=
  match Condition.parse leaf.condition with
  | .error fault => .error (.css fault)
  | .ok ⟨some suffix, _⟩ => .error (.invalid definition (.varWithSuffix suffix) [])
  | .ok ⟨none, atRule⟩ =>
    match leaf.value with
    | .unset => .error (.invalid definition .unsetVar [])
    | value => (varText definition customProperty value).map fun text => (atRule, text)

/-- The values of a variable with their at-rules; the default has none. -/
def varValues (definition customProperty : String) :
    Value → Except StyleError (List (Option String × String))
  | .unset => .error (.invalid definition .unsetVar [])
  | .map entries => do
    let leaves ← Declaration.flatten definition customProperty entries
    leaves.mapM (conditionalVar definition customProperty)
  | value => (varText definition customProperty value).map fun text => [(none, text)]

variable (c : Context)

/-- The values of a variable, or of its override, after its references are resolved. -/
def resolvedVar (definition : String) (site : Site) (space name : String) (value : Value) :
    Except StyleError (String × List (Option String × String)) := do
  let customProperty := Naming.varName c.config.classStart space name
  let value ← c.resolveValue definition site value
  let values ← varValues definition customProperty value
  .ok (customProperty, values)

/-- Registers the type of a variable, with its default as the initial value. -/
def typedRule (customProperty : String) (type : VarType) (values : List (Option String × String)) :
    NamedRule :=
  let initial :=
    match values.find? fun v => v.1.isNone with
    | some (_, text) => ";initial-value:" ++ text
    | none => ""
  (customProperty,
    .block .typedProperty <|
      braced ("@property " ++ customProperty) <|
        "syntax:'" ++ type.descriptor ++ "';inherits:"
          ++ (if type.inherits then "true" else "false") ++ initial)

def rootRule (start : String) (block : Option String × List String) : NamedRule :=
  let css := wrapAtRules block.1 (braced ":root" (String.intercalate ";" block.2))
  (Naming.contentName start css, .block .rootVars css)

/-- The first name that occurs again. -/
def repeatedName? (seen : List String) : List String → Option String
  | [] => none
  | name :: names => if seen.contains name then some name else repeatedName? (name :: seen) names

/-- The scope in which the variables of a group are known. -/
def withVars (scope : Scope) (start space : String) (names : List String) : Scope :=
  let vars := names.map fun name => (qualified space name, Naming.varName start space name)
  { scope with
    varGroups := scope.varGroups.put space names
    styles := { scope.styles with vars := scope.styles.vars.putAll vars } }

/-- The variables of a group may refer to each other. -/
def compileVars (space : String) (site : Site) (vars : List (String × Var)) :
    Except StyleError Outcome := do
  let names := vars.map Prod.fst
  match repeatedName? [] names with
  | some name => .error (.invalid space (.repeatedVar name) [])
  | none => do
    let start := c.config.classStart
    let scope := withVars c.scope start space names
    let inner : Context := { c with scope }
    let resolved ← vars.mapM fun (name, var) => do
      let (customProperty, values) ←
        inner.resolvedVar (qualified space name) site space name var.value
      .ok (customProperty, var.type, values)
    let typed := resolved.filterMap fun (customProperty, type, values) =>
      type.map fun t => typedRule customProperty t values
    let blocks : Blocks :=
      resolved.foldl (fun bs (custom, _, values) => Blocks.addAll bs custom values) []
    .ok ⟨typed ++ blocks.defaultFirst.map (rootRule start), scope⟩

/-- Each constant is known to the ones behind it. -/
def compileConsts (space : String) (site : Site) :
    Scope → List (String × Scalar) → Except StyleError Scope
  | scope, [] => .ok scope
  | scope, (name, value) :: rest => do
    let label := qualified space name
    let value ← { c with scope }.resolveScalar label site value
    compileConsts space site { scope with consts := scope.consts.put label value } rest

/-- The text whose digest names a theme. -/
def themeText (space : String) (blocks : Blocks) : String :=
  "theme:" ++ space ++ ":" ++ String.join (blocks.map fun b =>
    braced (b.1.getD "") (String.intercalate ";" b.2))

def themeCss (className : String) (blocks : Blocks) : String :=
  String.join <| blocks.map fun b =>
    wrapAtRules b.1
      (braced ("." ++ className ++ ",." ++ className ++ ":root") (String.intercalate ";" b.2))

def sortTexts (texts : List String) : List String :=
  texts.mergeSort fun a b => (compare a b).isLE

/-- A theme overrides variables of a group that was compiled before. -/
def compileTheme (space name : String) (site : Site) (overrides : Declarations) :
    Except StyleError Outcome := do
  let label := qualified space name
  match c.scope.varGroups.get? space with
  | none =>
    let problem :=
      if c.sheet.has (.vars, space, "") then ReferenceProblem.definedLater else .undefined
    .error (.reference label site (.varGroup space) problem [])
  | some names =>
    match overrides.find? fun o => !names.contains o.1 with
    | some (unknown, _) => .error (.invalid label (.notAVarOf unknown space) [])
    | none => do
      let resolved ← overrides.mapM fun (var, value) => c.resolvedVar label site space var value
      let blocks : Blocks :=
        resolved.foldl (fun bs (custom, values) => Blocks.addAll bs custom values) []
      let blocks := blocks.defaultFirst.map fun b => (b.1, sortTexts b.2)
      let className := Naming.contentName c.config.classStart (themeText space blocks)
      let styles := c.scope.styles
      .ok
        { rules := [(className, .block .theme (themeCss className blocks))]
          scope :=
            { c.scope with styles := { styles with themes := styles.themes.put label className } } }

end Context

end AtomicCss
