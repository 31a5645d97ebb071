import AtomicCss.Proofs.Compilation
import AtomicCss.Proofs.WarningLog

/-!
# What a definition looks up

A definition is compiled by going through its values in written order, and the references in a
value are looked up one after the other. So a reference is reached if everything in front of it is
fine, and when it leads nowhere, the definition fails with what is said about it.
-/

namespace AtomicCss.Proofs

open Keyed Context

section

variable {α β γ δ ζ ε : Type}

/-- A traversal comes to an item if what stands before the item is fine. -/
def ComesTo (f : α → Except ε β) (items : List α) (item : α) : Prop :=
  ∃ before after found, items = before ++ item :: after ∧ before.mapM f = .ok found

lemma ComesTo.fails {f : α → Except ε β} {items : List α} {item : α} {e : ε}
    (h : ComesTo f items item) (he : f item = .error e) : items.mapM f = .error e := by
  obtain ⟨before, after, found, rfl, hfound⟩ := h
  rw [List.mapM_append, hfound, List.mapM_cons, he]
  rfl

/-- A traversal that succeeds comes to every item. -/
lemma comesTo_of_mapM {f : α → Except ε β} {items : List α} {found : List β} {item : α}
    (h : items.mapM f = .ok found) (hitem : item ∈ items) : ComesTo f items item := by
  obtain ⟨before, after, rfl⟩ := List.append_of_mem hitem
  rw [List.mapM_append] at h
  obtain ⟨front, hfront, _⟩ := bind_eq_ok h
  exact ⟨before, after, front, rfl, hfront⟩

/-- What a traversal gives for an item. -/
lemma exists_of_mapM {f : α → Except ε β} {items : List α} {found : List β} {item : α}
    (h : items.mapM f = .ok found) (hitem : item ∈ items) : ∃ b, f item = .ok b := by
  have hfound : List.Forall₂ (fun b a => f a = .ok b) found items := (mapM_eq_ok h).flip
  obtain ⟨b, _, hb⟩ := exists_of_forall₂ hfound hitem
  exact ⟨b, hb⟩

/-- Two computations fail on the same terms. -/
def FailsLike (x : Except ε α) (y : Except ε β) : Prop :=
  ∀ e, x = .error e ↔ y = .error e

lemma FailsLike.map {x : Except ε α} {y : Except ε β} (h : FailsLike x y) (f : α → γ) :
    FailsLike (x.map f) y := by
  intro e
  rw [← h e]
  cases x <;> simp [Except.map]

/-- Traversing two lists fails like one computation after another, if each fails like its part. -/
lemma FailsLike.append {x : Except ε α} {y : Except ε β} {f : γ → Except ε δ} {xs ys : List γ}
    (hx : FailsLike x (xs.mapM f)) (hy : FailsLike y (ys.mapM f)) (combine : α → β → ζ) :
    FailsLike (do let a ← x; let b ← y; .ok (combine a b)) ((xs ++ ys).mapM f) := by
  intro e
  rw [List.mapM_append]
  cases x with
  | error e' =>
    rw [(hx e').1 rfl]
    simp [bind, Except.bind]
  | ok a =>
    cases hfront : xs.mapM f with
    | error e' => cases (hx e').2 hfront
    | ok front =>
      cases y with
      | error e' =>
        rw [(hy e').1 rfl]
        simp [bind, Except.bind]
      | ok b =>
        cases hback : ys.mapM f with
        | error e' => cases (hy e').2 hback
        | ok back => simp [bind, Except.bind, pure, Except.pure]

lemma map_eq_error {x : Except ε α} {f : α → β} {e : ε} (h : x.map f = .error e) :
    x = .error e := by
  cases x with
  | error e' => exact congrArg Except.error (Except.error.inj h)
  | ok a => cases h

lemma collect_bind_fails {p : Processing α} {f : α → Processing β} {a : α} {e : StyleError}
    (hp : p.collect.1 = .ok a) (hf : ∀ ws, (f a ws).1 = .error e) :
    (p >>= f).collect.1 = .error e := by
  change (ExceptT.bindCont f (p []).1 (p []).2).1 = .error e
  have hresult : (p []).1 = .ok a := hp
  rw [hresult]
  exact hf _

namespace Steady

/-- Where warnings do not matter, steps can be taken without them. -/
lemma collect_bind {f : α → Processing β} (hf : ∀ a, Steady (f a)) (p : Processing α) :
    (p >>= f).collect.1 = p.collect.1 >>= fun a => (f a).collect.1 := by
  change (ExceptT.bindCont f (p []).1 (p []).2).1 = (p []).1 >>= fun a => (f a).collect.1
  cases (p []).1 with
  | error e => rfl
  | ok a => exact hf a (p []).2

lemma collect_mapM {f : α → Processing β} (hf : ∀ a, Steady (f a)) (xs : List α) :
    (xs.mapM f).collect.1 = xs.mapM fun x => (f x).collect.1 := by
  induction xs with
  | nil => rfl
  | cons x xs ih =>
    have hrest : ∀ b, Steady (xs.mapM f >>= fun bs => Pure.pure (b :: bs)) :=
      fun b => (mapM hf xs).bind fun _ => pure _
    rw [List.mapM_cons, List.mapM_cons, collect_bind hrest, ← ih]
    congr 1
    funext b
    rw [collect_bind fun _ => pure _]
    rfl

end Steady

end

/-- The references that a single value consists of. -/
def refsOf : Scalar → List Reference
  | .ref r => [r]
  | _ => []

mutual

/-- The references in a value, in written order. -/
def referencesIn : Value → List Reference
  | .unset => []
  | .scalar value => refsOf value
  | .map entries => referencesBelow entries
  | .fallback values | .firstThatWorks values => values.flatMap refsOf

def referencesBelow : List (String × Value) → List Reference
  | [] => []
  | (_, value) :: rest => referencesIn value ++ referencesBelow rest

end

section

variable {c : Context} {definition : String} {site : Site}

lemma resolveScalar_failsLike (value : Scalar) :
    FailsLike (c.resolveScalar definition site value)
      ((refsOf value).mapM (c.resolveReference definition site)) := by
  intro e
  cases value with
  | ref r =>
    change c.resolveReference definition site r = .error e ↔ _
    rw [refsOf, List.mapM_cons]
    cases c.resolveReference definition site r <;> simp [bind, Except.bind, pure, Except.pure]
  | _ => simp [refsOf, Context.resolveScalar, pure, Except.pure]

lemma resolveScalars_failsLike (values : List Scalar) :
    FailsLike (values.mapM (c.resolveScalar definition site))
      ((values.flatMap refsOf).mapM (c.resolveReference definition site)) := by
  induction values with
  | nil => exact fun e => by simp [pure, Except.pure]
  | cons value rest ih =>
    rw [List.mapM_cons, List.flatMap_cons]
    exact (resolveScalar_failsLike value).append ih List.cons

mutual

/-- A value cannot be resolved because of the first of its references that leads nowhere. -/
lemma resolveValue_failsLike : ∀ value : Value,
    FailsLike (c.resolveValue definition site value)
      ((referencesIn value).mapM (c.resolveReference definition site))
  | .unset => fun e => by simp [Context.resolveValue, referencesIn, pure, Except.pure]
  | .scalar value => by
    rw [Context.resolveValue, referencesIn]
    exact (resolveScalar_failsLike value).map _
  | .map entries => by
    rw [Context.resolveValue, referencesIn]
    exact (resolveEntries_failsLike entries).map _
  | .fallback values => by
    rw [Context.resolveValue, referencesIn]
    exact (resolveScalars_failsLike values).map _
  | .firstThatWorks values => by
    rw [Context.resolveValue, referencesIn]
    exact (resolveScalars_failsLike values).map _

lemma resolveEntries_failsLike : ∀ entries : List (String × Value),
    FailsLike (c.resolveEntries definition site entries)
      ((referencesBelow entries).mapM (c.resolveReference definition site))
  | [] => fun e => by simp [Context.resolveEntries, referencesBelow, pure, Except.pure]
  | (key, value) :: rest => by
    rw [Context.resolveEntries, referencesBelow]
    exact (resolveValue_failsLike value).append (resolveEntries_failsLike rest) _

end

end

section

variable (c : Context) (definition : String) (site : Site)

lemma steady_plainDeclaration (item : String × Value) :
    Steady (c.plainDeclaration definition site item) :=
  steady_iff.2 <| paired_plainDeclaration c c.config.isDeprecated c.scope.styles.warnings
    definition site (fun _ _ => rfl) item

lemma steady_frameBlock (frame : String × Declarations) :
    Steady (frameBlock c definition site frame) :=
  steady_iff.2 <| paired_frameBlock c c.config.isDeprecated c.scope.styles.warnings
    definition site (fun _ _ => rfl) frame

lemma steady_transitionPart (part : String × Declarations) :
    Steady (c.transitionPart definition site part) :=
  steady_iff.2 <| paired_transitionPart c c.config.isDeprecated c.scope.styles.warnings
    definition site (fun _ _ => rfl) part

end

/-- The value comes up in a block: the declarations before it are fine, and so is its property. -/
def AsksInBlock (c : Context) (definition : String) (site : Site) (declarations : Declarations)
    (value : Value) : Prop :=
  ∃ name, ComesTo (fun item => (c.plainDeclaration definition site item).collect.1) declarations
      (name, value) ∧
    (validateProperty c.config definition (Property.dashCase name)).collect.1 = .ok ()

/-- Compiling a definition comes to a value that has to be resolved, in a context and under a label.
What a definition can already see of itself goes with it: all of a group of variables, and of a
group of constants those in front of the value. -/
inductive Asks (c : Context) (d : Definition) : List Definition → Context → String → Value → Prop
  | staticClass {name property : String} {items : List ClassItem} {value : Value} :
    d.body = .staticClass name items →
    ComesTo (c.declarationsOf name d.site) items (.property property value) →
    Asks c d [] c name value
  | vars {space name : String} {vars : List (String × Var)} {var : Var} :
    d.body = .vars space vars → repeatedName? [] (vars.map Prod.fst) = none →
    ComesTo (groupVar c space d.site vars) vars (name, var) →
    Asks c d [d] (inGroup c space vars) (qualified space name) var.value
  | consts {space name : String} {before after : List (String × Scalar)} {value : Scalar}
    {scope : Scope} : d.body = .consts space (before ++ (name, value) :: after) →
    c.compileConsts space d.site c.scope before = .ok scope →
    Asks c d [⟨d.site, .consts space before⟩] { c with scope } (qualified space name)
      (.scalar value)
  | theme {space name var : String} {overrides : Declarations} {names : List String}
    {value : Value} : d.body = .theme space name overrides →
    get? c.scope.varGroups space = some names → (∀ o ∈ overrides, o.1 ∈ names) →
    ComesTo (fun o => c.resolvedVar (qualified space name) d.site space o.1 o.2) overrides
      (var, value) →
    Asks c d [] c (qualified space name) value
  | keyframes {name selector : String} {frames : List (String × Declarations)}
    {declarations : Declarations} {value : Value} : d.body = .keyframes name frames →
    ComesTo (fun frame => (frameBlock c name d.site frame).collect.1) frames
      (selector, declarations) →
    AsksInBlock c name d.site declarations value → Asks c d [] c name value
  | positionTry {name : String} {declarations : Declarations} {value : Value} :
    d.body = .positionTry name declarations →
    (∀ item ∈ declarations, Property.dashCase item.1 ∈ positionTryProperties) →
    AsksInBlock c name d.site declarations value → Asks c d [] c name value
  | viewTransition {name part : String} {parts : List (String × Declarations)}
    {declarations : Declarations} {value : Value} : d.body = .viewTransition name parts →
    ComesTo (fun part => (c.transitionPart name d.site part).collect.1) parts
      (part, declarations) → part ∈ transitionParts →
    AsksInBlock c name d.site declarations value → Asks c d [] c name value

/-- Compiling a definition comes to look up a reference: it comes to a value, and the references in
front of this one lead somewhere. -/
def Reaches (c : Context) (d : Definition) (own : List Definition) (inside : Context)
    (label : String) (r : Reference) : Prop :=
  ∃ value, Asks c d own inside label value ∧
    ComesTo (inside.resolveReference label d.site) (referencesIn value) r

section

variable {c : Context} {d : Definition}

lemma block_fails {definition : String} {site : Site} {declarations : Declarations} {value : Value}
    {e : StyleError} (h : AsksInBlock c definition site declarations value)
    (he : c.resolveValue definition site value = .error e) :
    (c.plainBlock definition site declarations).collect.1 = .error e := by
  obtain ⟨name, hcomes, hname⟩ := h
  have hitem : (c.plainDeclaration definition site (name, value)).collect.1 = .error e := by
    apply collect_bind_fails hname
    intro ws
    rw [he]
    rfl
  unfold Context.plainBlock
  rw [Steady.collect_bind fun _ => .pure _,
    Steady.collect_mapM (steady_plainDeclaration c definition site), hcomes.fails hitem]
  rfl

lemma resolvedVar_fails {label : String} {site : Site} {space name : String} {value : Value}
    {e : StyleError} (he : c.resolveValue label site value = .error e) :
    c.resolvedVar label site space name value = .error e := by
  unfold Context.resolvedVar
  rw [he]
  rfl

variable {site : Site} {space name label : String} {e : StyleError}

lemma compileClass_fails {items : List ClassItem} {property : String} {value : Value}
    (h : ComesTo (c.declarationsOf name site) items (.property property value))
    (he : c.resolveValue name site value = .error e) :
    c.compileClass name site items = .error e := by
  have hitem : c.declarationsOf name site (.property property value) = .error e := by
    rw [Context.declarationsOf, he]
    rfl
  unfold Context.compileClass
  rw [h.fails hitem]
  rfl

lemma compileVars_fails {vars : List (String × Var)} {item : String × Var}
    (hnew : repeatedName? [] (vars.map Prod.fst) = none)
    (h : ComesTo (groupVar c space site vars) vars item)
    (he : (inGroup c space vars).resolveValue (qualified space item.1) site item.2.value =
      .error e) : c.compileVars space site vars = .error e := by
  have hitem : groupVar c space site vars item = .error e := by
    unfold groupVar
    rw [resolvedVar_fails he]
    rfl
  have hvars := h.fails hitem
  unfold Context.compileVars
  dsimp only
  rw [hnew]
  dsimp only
  change vars.mapM (groupVar c space site vars) >>= _ = _
  rw [hvars]
  rfl

lemma compileConsts_append {scope scope' : Scope} {before : List (String × Scalar)}
    (h : c.compileConsts space site scope before = .ok scope') (after : List (String × Scalar)) :
    c.compileConsts space site scope (before ++ after) =
      c.compileConsts space site scope' after := by
  induction before generalizing scope with
  | nil =>
    cases h
    rfl
  | cons item rest ih =>
    obtain ⟨value, hvalue, h⟩ := bind_eq_ok h
    rw [List.cons_append, Context.compileConsts, hvalue]
    exact ih h

lemma compileConsts_split {scope result : Scope} {before after : List (String × Scalar)}
    (h : c.compileConsts space site scope (before ++ after) = .ok result) :
    ∃ scope', c.compileConsts space site scope before = .ok scope' ∧
      c.compileConsts space site scope' after = .ok result := by
  induction before generalizing scope with
  | nil => exact ⟨scope, rfl, h⟩
  | cons item rest ih =>
    obtain ⟨value, hvalue, h⟩ := bind_eq_ok h
    obtain ⟨scope', hfront, hback⟩ := ih h
    refine ⟨scope', ?_, hback⟩
    rw [Context.compileConsts, hvalue]
    exact hfront

lemma compileConsts_fails {before after : List (String × Scalar)} {value : Scalar}
    {scope : Scope} (h : c.compileConsts space site c.scope before = .ok scope)
    (he : Context.resolveScalar { c with scope } (qualified space name) site value = .error e) :
    c.compileConsts space site c.scope (before ++ (name, value) :: after) = .error e := by
  rw [compileConsts_append h, Context.compileConsts, he]
  rfl

lemma compileTheme_fails {overrides : Declarations} {names : List String} {item : String × Value}
    (hgroup : get? c.scope.varGroups space = some names) (hnames : ∀ o ∈ overrides, o.1 ∈ names)
    (h : ComesTo (fun o => c.resolvedVar (qualified space name) site space o.1 o.2) overrides item)
    (he : c.resolveValue (qualified space name) site item.2 = .error e) :
    c.compileTheme space name site overrides = .error e := by
  have hknown : overrides.find? (fun o => !names.contains o.1) = none := by
    rw [List.find?_eq_none]
    intro o ho
    simp [hnames o ho]
  unfold Context.compileTheme
  dsimp only
  rw [hgroup]
  dsimp only
  rw [hknown]
  dsimp only
  change overrides.mapM (fun o => c.resolvedVar (qualified space name) site space o.1 o.2) >>= _ = _
  rw [h.fails (resolvedVar_fails he)]
  rfl

lemma compileKeyframes_fails {frames : List (String × Declarations)}
    {frame : String × Declarations} {value : Value}
    (h : ComesTo (fun frame => (frameBlock c name site frame).collect.1) frames frame)
    (hblock : AsksInBlock c name site frame.2 value)
    (he : c.resolveValue name site value = .error e) :
    c.compileKeyframes name site frames = .error e := by
  have hframe : (frameBlock c name site frame).collect.1 = .error e := by
    unfold frameBlock
    rw [Steady.collect_bind fun _ => .pure _, block_fails hblock he]
    rfl
  have hframes : (frames.mapM (frameBlock c name site)).collect.1 = .error e := by
    rw [Steady.collect_mapM (steady_frameBlock c name site), h.fails hframe]
  change (frames.mapM (frameBlock c name site)).collect.1 >>= _ = _
  rw [hframes]
  rfl

lemma compilePositionTry_fails {declarations : Declarations} {value : Value}
    (hallowed : ∀ item ∈ declarations, Property.dashCase item.1 ∈ positionTryProperties)
    (hblock : AsksInBlock c name site declarations value)
    (he : c.resolveValue name site value = .error e) :
    c.compilePositionTry name site declarations = .error e := by
  have hknown : (declarations.map fun item => Property.dashCase item.1).find?
      (fun p => !positionTryProperties.contains p) = none := by
    rw [List.find?_eq_none]
    intro p hp
    obtain ⟨item, hitem, rfl⟩ := List.mem_map.1 hp
    simp [hallowed item hitem]
  unfold Context.compilePositionTry
  dsimp only
  rw [hknown]
  dsimp only
  rw [block_fails hblock he]
  rfl

lemma compileViewTransition_fails {parts : List (String × Declarations)}
    {part : String × Declarations} {value : Value}
    (h : ComesTo (fun part => (c.transitionPart name site part).collect.1) parts part)
    (hpart : part.1 ∈ transitionParts) (hblock : AsksInBlock c name site part.2 value)
    (he : c.resolveValue name site value = .error e) :
    c.compileViewTransition name site parts = .error e := by
  have hrequired : Processing.require (transitionParts.contains part.1)
      (.invalid name (.unknownTransitionPart part.1) []) = pure () := by
    rw [List.contains_iff_mem.2 hpart]
    rfl
  have hone : (c.transitionPart name site part).collect.1 = .error e := by
    unfold Context.transitionPart
    rw [hrequired, pure_bind, Steady.collect_bind fun _ => .pure _, block_fails hblock he]
    rfl
  have hparts : (parts.mapM (c.transitionPart name site)).collect.1 = .error e := by
    rw [Steady.collect_mapM (steady_transitionPart c name site), h.fails hone]
  change (parts.mapM (c.transitionPart name site)).collect.1 >>= _ = _
  rw [hparts]
  rfl

/-- If a value cannot be resolved, the definition that comes to it fails with the same error. -/
lemma compile_fails {own : List Definition} {inside : Context} {value : Value}
    (h : Asks c d own inside label value)
    (he : inside.resolveValue label d.site value = .error e) : c.compile d = .error e := by
  unfold Context.compile
  cases h with
  | staticClass hbody hcomes =>
    rw [hbody]
    exact compileClass_fails hcomes he
  | vars hbody hnew hcomes =>
    rw [hbody]
    exact compileVars_fails hnew hcomes he
  | consts hbody hscope =>
    rw [hbody]
    dsimp only
    rw [compileConsts_fails hscope (map_eq_error he)]
    rfl
  | theme hbody hgroup hnames hcomes =>
    rw [hbody]
    exact compileTheme_fails hgroup hnames hcomes he
  | keyframes hbody hcomes hblock =>
    rw [hbody]
    exact compileKeyframes_fails hcomes hblock he
  | positionTry hbody hallowed hblock =>
    rw [hbody]
    exact compilePositionTry_fails hallowed hblock he
  | viewTransition hbody hcomes hpart hblock =>
    rw [hbody]
    exact compileViewTransition_fails hcomes hpart hblock he

/-- A reference that leads nowhere fails the definition that reaches it. -/
lemma Reaches.fails {own : List Definition} {inside : Context} {r : Reference}
    (h : Reaches c d own inside label r)
    (he : inside.resolveReference label d.site r = .error e) : c.compile d = .error e := by
  obtain ⟨value, hasks, hcomes⟩ := h
  exact compile_fails hasks ((resolveValue_failsLike value e).2 (hcomes.fails he))

end

/-- The values that a definition is written with. -/
def valuesOf : Body → List Value
  | .staticClass _ items => items.filterMap fun item =>
    match item with
    | .property _ value => some value
    | .splice _ => none
  | .vars _ vars => vars.map fun item => item.2.value
  | .consts _ values => values.map fun item => .scalar item.2
  | .theme _ _ declarations | .positionTry _ declarations => declarations.map Prod.snd
  | .keyframes _ blocks | .viewTransition _ blocks =>
    blocks.flatMap fun block => block.2.map Prod.snd
  | .dynamicClass .. | .marker .. => []

section

variable {c : Context} {d : Definition}

/-- A traversal of computations that succeeds comes to every item, and gives something for it. -/
lemma comesTo_of_collect {α β : Type} {f : α → Processing β} (hf : ∀ a, Steady (f a))
    {items : List α} {found : List β} {item : α} (h : (items.mapM f).collect.1 = .ok found)
    (hitem : item ∈ items) :
    ComesTo (fun item => (f item).collect.1) items item ∧ ∃ b, Gives (f item) b := by
  rw [Steady.collect_mapM hf] at h
  obtain ⟨b, hb⟩ := exists_of_mapM h hitem
  exact ⟨comesTo_of_mapM h hitem, b, gives_of_collect hb⟩

lemma asksInBlock_of_plainBlock {definition block : String} {site : Site}
    {declarations : Declarations} {item : String × Value}
    (h : Gives (c.plainBlock definition site declarations) block) (hitem : item ∈ declarations) :
    AsksInBlock c definition site declarations item.2 := by
  obtain ⟨found, hfound, _⟩ := gives_bind h
  have hsteady := Steady.mapM (steady_plainDeclaration c definition site) declarations
  obtain ⟨hcomes, one, hone⟩ :=
    comesTo_of_collect (steady_plainDeclaration c definition site) (hsteady.collect hfound) hitem
  obtain ⟨_, hname, _⟩ := gives_bind hone
  exact ⟨item.1, hcomes, (steady_validateProperty _ _ _).collect hname⟩

/-- A definition that compiles comes to all of its values. -/
lemma asks_of_compile {outcome : Outcome} {value : Value} (h : c.compile d = .ok outcome)
    (hvalue : value ∈ valuesOf d.body) :
    ∃ own inside label, Asks c d own inside label value := by
  cases compile_eq_ok_iff.1 h with
  | staticClass hparts =>
    obtain ⟨item, hitem, hproperty⟩ := List.mem_filterMap.1 hvalue
    cases item with
    | property =>
      cases hproperty
      exact ⟨_, _, _, .staticClass rfl (comesTo_of_mapM hparts hitem)⟩
    | splice => cases hproperty
  | vars hnew hresolved =>
    obtain ⟨item, hitem, rfl⟩ := List.mem_map.1 hvalue
    exact ⟨_, _, _, .vars rfl hnew (comesTo_of_mapM hresolved hitem)⟩
  | consts hscope =>
    obtain ⟨item, hitem, rfl⟩ := List.mem_map.1 hvalue
    obtain ⟨before, after, rfl⟩ := List.append_of_mem hitem
    obtain ⟨scope, hfront, _⟩ := compileConsts_split hscope
    exact ⟨_, _, _, .consts rfl hfront⟩
  | theme hgroup hnames hresolved =>
    obtain ⟨item, hitem, rfl⟩ := List.mem_map.1 hvalue
    exact ⟨_, _, _, .theme rfl hgroup hnames (comesTo_of_mapM hresolved hitem)⟩
  | keyframes hblocks =>
    obtain ⟨frame, hframe, hvalue⟩ := List.mem_flatMap.1 hvalue
    obtain ⟨item, hitem, rfl⟩ := List.mem_map.1 hvalue
    obtain ⟨hcomes, _, htext⟩ :=
      comesTo_of_collect (steady_frameBlock c _ _) (congrArg Prod.fst hblocks) hframe
    obtain ⟨block, hblock, _⟩ := gives_bind htext
    exact ⟨_, _, _, .keyframes rfl hcomes (asksInBlock_of_plainBlock hblock hitem)⟩
  | positionTry hallowed hbody =>
    obtain ⟨item, hitem, rfl⟩ := List.mem_map.1 hvalue
    have hblock := gives_of_collect (congrArg Prod.fst hbody)
    exact ⟨_, _, _, .positionTry rfl hallowed (asksInBlock_of_plainBlock hblock hitem)⟩
  | viewTransition hblocks =>
    obtain ⟨part, hpart, hvalue⟩ := List.mem_flatMap.1 hvalue
    obtain ⟨item, hitem, rfl⟩ := List.mem_map.1 hvalue
    obtain ⟨hcomes, _, hone⟩ :=
      comesTo_of_collect (steady_transitionPart c _ _) (congrArg Prod.fst hblocks) hpart
    obtain ⟨_, hknown, hone⟩ := gives_bind hone
    obtain ⟨block, hblock, _⟩ := gives_bind hone
    exact ⟨_, _, _, .viewTransition rfl hcomes (List.contains_iff_mem.1 (gives_require hknown))
      (asksInBlock_of_plainBlock hblock hitem)⟩
  | dynamicClass | marker => cases hvalue

/-- A definition that compiles reaches all of its references. -/
lemma reaches_of_compile {outcome : Outcome} {value : Value} {r : Reference}
    (h : c.compile d = .ok outcome) (hvalue : value ∈ valuesOf d.body)
    (hr : r ∈ referencesIn value) : ∃ own inside label, Reaches c d own inside label r := by
  obtain ⟨own, inside, label, hasks⟩ := asks_of_compile h hvalue
  refine ⟨own, inside, label, value, hasks, ?_⟩
  cases hfound : (referencesIn value).mapM (inside.resolveReference label d.site) with
  | ok found => exact comesTo_of_mapM hfound hr
  | error e =>
    have hfails := compile_fails hasks ((resolveValue_failsLike value e).2 hfound)
    rw [hfails] at h
    cases h

end

end AtomicCss.Proofs
