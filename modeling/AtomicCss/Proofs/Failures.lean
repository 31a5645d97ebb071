import AtomicCss.Proofs.ReferenceFree
import AtomicCss.Proofs.TextFaults

/-!
# What a compilation fails with

Every failure of a compilation comes from one of a few places: a definition or the configuration is
refused, a reference leads nowhere, or a condition, a text or a value cannot be brought to its
canonical form. What is handed to normalization is free of references by then.
-/

namespace AtomicCss.Proofs

open Keyed Context Declaration Value

section

variable {ε α β : Type} {P : ε → Prop}

/-- Every failure of a computation has some property. -/
def FailsOnly (P : ε → Prop) (r : Except ε α) : Prop :=
  ∀ e, r = .error e → P e

namespace FailsOnly

lemma ok {a : α} : FailsOnly P (.ok a) :=
  nofun

lemma error {e : ε} (h : P e) : FailsOnly P (.error e : Except ε α) := by
  intro e' he
  cases he
  exact h

lemma map {r : Except ε α} (h : FailsOnly P r) (f : α → β) : FailsOnly P (r.map f) :=
  fun e he => h e (map_eq_error he)

lemma bind {r : Except ε α} {f : α → Except ε β} (h : FailsOnly P r)
    (hf : ∀ a, r = .ok a → FailsOnly P (f a)) : FailsOnly P (r >>= f) := by
  cases r with
  | error e => exact error (h e rfl)
  | ok a => exact hf a rfl

lemma mapM {f : α → Except ε β} {xs : List α} (h : ∀ x ∈ xs, FailsOnly P (f x)) :
    FailsOnly P (xs.mapM f) := by
  induction xs with
  | nil => exact ok
  | cons x xs ih =>
    rw [List.mapM_cons]
    apply (h x List.mem_cons_self).bind
    intro y _
    exact (ih fun z hz => h z (List.mem_cons_of_mem _ hz)).bind fun _ _ => ok

end FailsOnly

end

/-- What a compilation can fail with: something is refused, a reference leads nowhere, a condition
cannot be read, a text is left open, or a value without references cannot be normalized. -/
inductive Arises : StyleError → Prop
  | invalid (definition : String) (problem : Problem) (suggestions : List String) :
    Arises (.invalid definition problem suggestions)
  | reference (definition : String) (site : Site) (target : Target) (problem : ReferenceProblem)
    (suggestions : List String) : Arises (.reference definition site target problem suggestions)
  | selector (selector : String) (problem : SelectorProblem) :
    Arises (.css (.invalidSelector selector problem))
  | text {input : List Char} {fault : CssFault} : IsUnclosed input fault → Arises (.css fault)
  | value (property : String) {problem : ValueProblem} : (∀ r, problem ≠ .unresolved r) →
    Arises (.css (.invalidValue property problem))

section

variable {α β : Type}

/-- A value or a condition is read, or fails in one of these ways. -/
abbrev Faults (r : Except CssFault α) : Prop :=
  FailsOnly (fun fault => Arises (.css fault)) r

/-- A computation that warns fails in one of these ways. -/
def Settles (p : Processing α) : Prop :=
  ∀ ws, FailsOnly Arises (p ws).1

namespace Settles

lemma pure {a : α} : Settles (Pure.pure a : Processing α) :=
  fun _ => .ok

lemma fail {e : StyleError} (h : Arises e) : Settles (Processing.fail e : Processing α) :=
  fun _ => .error h

lemma warn {w : Warning} : Settles (Processing.warn w) :=
  fun _ => .ok

lemma ofExcept {r : Except StyleError α} (h : FailsOnly Arises r) :
    Settles (Processing.ofExcept r) :=
  fun _ => h

lemma ofCss {r : Except CssFault α} (h : Faults r) : Settles (Processing.ofCss r) := by
  cases r with
  | error fault => exact ofExcept (.error (h fault rfl))
  | ok a => exact ofExcept .ok

lemma require {holds : Bool} {e : StyleError} (h : Arises e) :
    Settles (Processing.require holds e) := by
  cases holds with
  | true => exact pure
  | false => exact fail h

lemma bind {p : Processing α} {f : α → Processing β} (hp : Settles p)
    (hf : ∀ a, Gives p a → Settles (f a)) : Settles (p >>= f) := by
  intro ws
  change FailsOnly Arises (ExceptT.bindCont f (p ws).1 (p ws).2).1
  cases hr : (p ws).1 with
  | error e => exact .error (hp ws e hr)
  | ok a => exact hf a ⟨ws, hr⟩ (p ws).2

lemma mapM {f : α → Processing β} {xs : List α} (h : ∀ x ∈ xs, Settles (f x)) :
    Settles (xs.mapM f) := by
  induction xs with
  | nil => exact pure
  | cons x xs ih =>
    rw [List.mapM_cons]
    apply (h x List.mem_cons_self).bind
    intro y _
    exact (ih fun z hz => h z (List.mem_cons_of_mem _ hz)).bind fun _ _ => pure

lemma forM {f : α → Processing PUnit} {xs : List α} (h : ∀ x ∈ xs, Settles (f x)) :
    Settles (xs.forM f) := by
  induction xs with
  | nil => exact pure
  | cons x xs ih =>
    exact (h x List.mem_cons_self).bind fun _ _ =>
      ih fun z hz => h z (List.mem_cons_of_mem _ hz)

lemma collect {p : Processing α} (h : Settles p) : FailsOnly Arises p.collect.1 :=
  h []

end Settles

end

lemma faults_normalizeText (property : String) (raw : List Char) :
    Faults (normalizeText property raw) :=
  fun _ h => .text (unclosed_of_normalizeText h)

lemma faults_normalizeNumber (property : String) (x : Float) :
    Faults (normalizeNumber property x) := by
  unfold normalizeNumber
  dsimp only
  split
  · exact .error (.value _ nofun)
  · split
    · exact .ok
    · split
      · exact faults_normalizeText _ _
      · split <;> exact faults_normalizeText _ _

lemma faults_normalizeScalar (property : String) {value : Scalar}
    (h : isWrittenOut value = true) : Faults (normalizeScalar property value) := by
  cases value with
  | text => exact (faults_normalizeText _ _).map _
  | number => exact (faults_normalizeNumber _ _).map _
  | ref => cases h

lemma faults_normalizeList (property : String) {values : List Scalar}
    (h : values.all isWrittenOut = true) : Faults (normalizeList property values) := by
  unfold normalizeList
  split
  · exact .error (.value _ nofun)
  · exact .mapM fun value hvalue =>
      faults_normalizeScalar property (List.all_eq_true.1 h value hvalue)

/-- A value without references is normalized, or fails for another reason. -/
lemma faults_normalizeLeaf (property : String) {value : Value} (h : isLiteral value = true) :
    Faults (normalizeLeaf property value) := by
  cases value with
  | scalar => exact (faults_normalizeScalar property h).map _
  | fallback => exact (faults_normalizeList property h).map _
  | firstThatWorks => exact (faults_normalizeList property h).map _
  | map | unset => exact .error (.value _ nofun)

lemma faults_parse (written : String) : Faults (Condition.parse written) := by
  have hbalanced : ∀ text, Faults (Condition.checkBalanced text) := by
    intro text
    unfold Condition.checkBalanced
    split
    · exact .error (.selector _ _)
    · exact .ok
  unfold Condition.parse Condition.parseText
  split
  · exact .ok
  · dsimp only
    split
    · exact .error (.selector _ _)
    · apply (hbalanced _).bind
      intro _ _
      apply (hbalanced _).bind
      intro _ _
      split
      · exact .error (.selector _ _)
      · exact .ok
  · exact (hbalanced _).bind fun _ _ => .ok

lemma faults_compose (parent child : String) : Faults (compose parent child) := by
  unfold compose
  split
  · exact (faults_parse _).map _
  · exact .ok

mutual

lemma failsOnly_leavesOf (definition property key condition : String) : ∀ value : Value,
    FailsOnly Arises (leavesOf definition property key condition value)
  | .map entries => by
    rw [leavesOf]
    split
    · exact failsOnly_leavesIn definition property condition entries
    · exact .error (.invalid _ _ _)
  | .unset | .scalar _ | .fallback _ | .firstThatWorks _ => by
    rw [leavesOf]
    · split
      · exact .ok
      · rename_i fault hfault
        exact .error (faults_parse condition fault hfault)
    · nofun

lemma failsOnly_leavesIn (definition property parent : String) :
    ∀ entries : List (String × Value),
      FailsOnly Arises (leavesIn definition property parent entries)
  | [] => by
    rw [leavesIn]
    exact .ok
  | (key, value) :: rest => by
    rw [leavesIn]
    split
    · exact .error (.invalid _ _ _)
    · split
      · rename_i fault hfault
        exact .error (faults_compose parent key fault hfault)
      · apply (failsOnly_leavesOf definition property key _ value).bind
        intro _ _
        exact (failsOnly_leavesIn definition property parent rest).bind fun _ _ => .ok

end

lemma failsOnly_flatten (definition property : String) (entries : List (String × Value)) :
    FailsOnly Arises (flatten definition property entries) :=
  (failsOnly_leavesIn definition property "" entries).map _

lemma failsOnly_checkForbidden (definition : String) (properties : List String) :
    FailsOnly Arises (Expansion.checkForbidden definition properties) := by
  unfold Expansion.checkForbidden
  dsimp only
  split
  · exact .error (.invalid _ _ _)
  · exact .ok

lemma settles_validateProperty (config : Config) (definition property : String) :
    Settles (validateProperty config definition property) := by
  unfold validateProperty
  split
  · exact .fail (.invalid _ _ _)
  · split
    · exact .warn
    · exact .pure

lemma settles_checkVendors (config : Config) (definition property : String) (value : Normalized) :
    Settles (checkVendors config definition property value) := by
  apply Settles.forM
  intro text _
  unfold checkVendor
  split
  · exact .pure
  · split
    · exact .pure
    · split
      · exact .warn
      · exact .pure

section

variable (setting : Setting)

lemma settles_entries (property : String) (suffix atRule : Option String) {value : Value}
    (h : isLiteral value = true) : Settles (entries setting property suffix atRule value) := by
  unfold entries
  split
  · exact .pure
  · apply (Settles.ofCss (faults_normalizeLeaf property h)).bind
    intro _ _
    exact (settles_checkVendors _ _ _ _).bind fun _ _ => .pure

lemma settles_leafEntries (property : String) (scope : Option String) {leaf : Leaf}
    (h : isLiteral leaf.value = true) : Settles (leafEntries setting property scope leaf) := by
  apply (Settles.ofCss (faults_parse _)).bind
  intro _ _
  exact (settles_entries setting property _ _ h).bind fun _ _ => .pure

lemma settles_conditional (property : String) (scope : Option String)
    {entries : List (String × Value)} (h : areLiteral entries = true) :
    Settles (conditional setting property scope entries) := by
  apply (Settles.ofExcept (failsOnly_flatten _ _ _)).bind
  intro leaves hleaves
  have hliteral : ∀ leaf ∈ leaves, isLiteral leaf.value = true := by
    intro leaf hleaf
    have hwithin := within_of_leafIn (leafIn_of_flatten (gives_ofExcept hleaves) hleaf)
    exact hwithin.isLiteral h
  have hitems : Settles (leaves.mapM (leafEntries setting property scope)) :=
    .mapM fun leaf hleaf => settles_leafEntries setting property scope (hliteral leaf hleaf)
  exact hitems.bind fun _ _ => .pure

lemma settles_property (name : String) (scope : Option String) {value : Value}
    (h : isLiteral value = true) : Settles (Declaration.property setting name scope value) := by
  apply (Settles.require (.invalid _ _ _)).bind
  intro _ _
  apply (settles_validateProperty _ _ _).bind
  intro _ _
  split
  · split
    · exact settles_conditional setting name scope h
    · exact .fail (.invalid _ _ _)
  · exact (settles_entries setting name scope none h).bind fun _ _ => .pure

lemma settles_checkPolicy (declarations : Declarations) :
    Settles (checkPolicy setting declarations) := by
  unfold checkPolicy
  split
  · exact .ofExcept (failsOnly_checkForbidden _ _)
  · exact .pure

lemma settles_inPseudoElement (key : String) {item : String × Value}
    (h : isLiteral item.2 = true) : Settles (inPseudoElement setting key item) := by
  apply (Settles.require (.invalid _ _ _)).bind
  intro _ _
  exact settles_property setting _ _ h

lemma settles_slots {item : String × Value} (h : isLiteral item.2 = true) :
    Settles (slots setting item) := by
  unfold Declaration.slots
  split
  · apply (Settles.require (.invalid _ _ _)).bind
    intro _ _
    apply (Settles.ofCss (faults_parse _)).bind
    intro _ _
    split
    · rename_i group heq
      rw [heq] at h
      apply (settles_checkPolicy setting group).bind
      intro _ _
      have hgroup : Settles (group.mapM (inPseudoElement setting item.1)) :=
        .mapM fun inner hinner =>
          settles_inPseudoElement setting item.1 (areLiteral_iff.1 h inner hinner)
      exact hgroup.bind fun _ _ => .pure
    · exact .fail (.invalid _ _ _)
  · exact settles_property setting _ _ h

lemma settles_classEntries {declarations : Declarations} (h : areLiteral declarations = true) :
    Settles (classEntries setting declarations) := by
  apply (settles_checkPolicy setting declarations).bind
  intro _ _
  have hslots : Settles (declarations.mapM (slots setting)) :=
    .mapM fun item hitem => settles_slots setting (areLiteral_iff.1 h item hitem)
  exact hslots.bind fun _ _ => .pure

lemma settles_bind (parameters : List String) (item : String × String) :
    Settles (DynamicClass.bind setting parameters item) := by
  apply (Settles.require (.invalid _ _ _)).bind
  intro _ _
  apply (Settles.require (.invalid _ _ _)).bind
  intro _ _
  exact (settles_validateProperty _ _ _).bind fun _ _ => .pure

lemma settles_dynamic (parameters : List String) (properties : List (String × String)) :
    Settles (DynamicClass.compile setting parameters properties) := by
  unfold DynamicClass.compile
  apply (Settles.require (.invalid _ _ _)).bind
  intro _ _
  have hbound : Settles (properties.mapM (DynamicClass.bind setting parameters)) :=
    .mapM fun item _ => settles_bind setting parameters item
  dsimp only
  split
  · exact Settles.bind (.fail (.invalid _ _ _)) fun _ h => (gives_fail h).elim
  · apply (Settles.require (.invalid _ _ _)).bind
    intro _ _
    split
    · apply (Settles.ofExcept (failsOnly_checkForbidden _ _)).bind
      intro _ _
      exact hbound.bind fun _ _ => .pure
    · exact hbound.bind fun _ _ => .pure

end

section

variable {definition : String} {site : Site}

lemma failsOnly_varText (custom : String) {value : Value} (h : isLiteral value = true) :
    FailsOnly Arises (varText definition custom value) := by
  unfold varText
  split
  · rename_i fault hfault
    exact .error (faults_normalizeLeaf custom h fault hfault)
  · split
    · exact .ok
    · exact .error (.invalid _ _ _)

lemma failsOnly_conditionalVar (custom : String) {leaf : Leaf}
    (h : isLiteral leaf.value = true) :
    FailsOnly Arises (conditionalVar definition custom leaf) := by
  unfold conditionalVar
  split
  · rename_i fault hfault
    exact .error (faults_parse _ fault hfault)
  · exact .error (.invalid _ _ _)
  · split
    · exact .error (.invalid _ _ _)
    · exact (failsOnly_varText custom h).map _

lemma failsOnly_varValues (custom : String) {value : Value} (h : isLiteral value = true) :
    FailsOnly Arises (varValues definition custom value) := by
  unfold varValues
  split
  · exact .error (.invalid _ _ _)
  · apply (failsOnly_flatten _ _ _).bind
    intro leaves hleaves
    apply FailsOnly.mapM
    intro leaf hleaf
    have hwithin := within_of_leafIn (leafIn_of_flatten hleaves hleaf)
    exact failsOnly_conditionalVar custom (hwithin.isLiteral h)
  · exact (failsOnly_varText custom h).map _

variable {c : Context}

lemma failsOnly_resolveReference (r : Reference) :
    FailsOnly Arises (c.resolveReference definition site r) := by
  unfold Context.resolveReference
  split
  · exact .ok
  · split <;> exact .error (.reference _ _ _ _ _)

lemma failsOnly_resolveScalar (value : Scalar) :
    FailsOnly Arises (c.resolveScalar definition site value) := by
  cases value with
  | ref r => exact failsOnly_resolveReference r
  | _ => exact .ok

lemma failsOnly_resolveValue (value : Value) :
    FailsOnly Arises (c.resolveValue definition site value) := by
  -- no second walk over the value: it fails as its references do, taken one by one
  have hreferences : FailsOnly Arises
      ((referencesIn value).mapM (c.resolveReference definition site)) :=
    .mapM fun r _ => failsOnly_resolveReference r
  exact fun e he => hreferences e ((resolveValue_failsLike value e).1 he)

lemma failsOnly_declarationsOf (item : ClassItem) :
    FailsOnly Arises (c.declarationsOf definition site item) := by
  cases item with
  | property => exact (failsOnly_resolveValue _).map _
  | splice name =>
    change FailsOnly Arises (c.included definition site name)
    unfold Context.included
    split
    · exact .ok
    · split <;> exact .error (.reference _ _ _ _ _)

lemma failsOnly_resolvedVar (hc : RefFree c.scope) (space name : String) (value : Value) :
    FailsOnly Arises (c.resolvedVar definition site space name value) := by
  apply (failsOnly_resolveValue value).bind
  intro found hfound
  exact (failsOnly_varValues _ (isLiteral_of_resolveValue hc hfound)).bind fun _ _ => .ok

lemma settles_plainDeclaration (hc : RefFree c.scope) (item : String × Value) :
    Settles (c.plainDeclaration definition site item) := by
  apply (settles_validateProperty _ _ _).bind
  intro _ _
  apply (Settles.ofExcept (failsOnly_resolveValue item.2)).bind
  intro value hvalue
  have hliteral := isLiteral_of_resolveValue hc (gives_ofExcept hvalue)
  apply (Settles.require (.invalid _ _ _)).bind
  intro _ _
  apply (Settles.ofCss (faults_normalizeLeaf _ hliteral)).bind
  intro _ _
  exact (settles_checkVendors _ _ _ _).bind fun _ _ => .pure

lemma settles_plainBlock (hc : RefFree c.scope) (declarations : Declarations) :
    Settles (c.plainBlock definition site declarations) := by
  have hfound : Settles (declarations.mapM (c.plainDeclaration definition site)) :=
    .mapM fun item _ => settles_plainDeclaration hc item
  exact hfound.bind fun _ _ => .pure

lemma settles_frameBlock (hc : RefFree c.scope) (frame : String × Declarations) :
    Settles (frameBlock c definition site frame) :=
  (settles_plainBlock hc frame.2).bind fun _ _ => .pure

lemma settles_transitionPart (hc : RefFree c.scope) (part : String × Declarations) :
    Settles (c.transitionPart definition site part) := by
  apply (Settles.require (.invalid _ _ _)).bind
  intro _ _
  exact (settles_plainBlock hc part.2).bind fun _ _ => .pure

variable {name space : String}

lemma failsOnly_compileClass (hc : RefFree c.scope) (items : List ClassItem) :
    FailsOnly Arises (c.compileClass name site items) := by
  have hparts : FailsOnly Arises (items.mapM (c.declarationsOf name site)) :=
    .mapM fun item _ => failsOnly_declarationsOf item
  apply hparts.bind
  intro parts hparts
  exact (settles_classEntries _ (areLiteral_flatten hc hparts)).collect.bind fun _ _ => .ok

lemma failsOnly_compileVars (hc : RefFree c.scope) (vars : List (String × Var)) :
    FailsOnly Arises (c.compileVars space site vars) := by
  have hinside : RefFree (inGroup c space vars).scope := hc.of_eq rfl rfl
  have hvars : FailsOnly Arises (vars.mapM (groupVar c space site vars)) :=
    .mapM fun item _ =>
      (failsOnly_resolvedVar hinside space item.1 item.2.value).bind fun _ _ => .ok
  unfold Context.compileVars
  dsimp only
  split
  · exact .error (.invalid _ _ _)
  · exact hvars.bind fun _ _ => .ok

lemma failsOnly_compileConsts (scope : Scope) (values : List (String × Scalar)) :
    FailsOnly Arises (c.compileConsts space site scope values) := by
  induction values generalizing scope with
  | nil => exact .ok
  | cons item rest ih =>
    exact (failsOnly_resolveScalar (c := { c with scope }) item.2).bind fun _ _ => ih _

lemma failsOnly_compileTheme (hc : RefFree c.scope) (overrides : Declarations) :
    FailsOnly Arises (c.compileTheme space name site overrides) := by
  unfold Context.compileTheme
  dsimp only
  split
  · exact .error (.reference _ _ _ _ _)
  · split
    · exact .error (.invalid _ _ _)
    · have hvars : FailsOnly Arises (overrides.mapM fun o =>
          c.resolvedVar (qualified space name) site space o.1 o.2) :=
        .mapM fun o _ => failsOnly_resolvedVar hc space o.1 o.2
      exact hvars.bind fun _ _ => .ok

lemma failsOnly_compileKeyframes (hc : RefFree c.scope) (frames : List (String × Declarations)) :
    FailsOnly Arises (c.compileKeyframes name site frames) := by
  have hframes : Settles (frames.mapM (frameBlock c name site)) :=
    .mapM fun frame _ => settles_frameBlock hc frame
  exact hframes.collect.bind fun _ _ => .ok

lemma failsOnly_compilePositionTry (hc : RefFree c.scope) (declarations : Declarations) :
    FailsOnly Arises (c.compilePositionTry name site declarations) := by
  unfold Context.compilePositionTry
  dsimp only
  split
  · exact .error (.invalid _ _ _)
  · exact (settles_plainBlock hc declarations).collect.bind fun _ _ => .ok

lemma failsOnly_compileViewTransition (hc : RefFree c.scope)
    (parts : List (String × Declarations)) :
    FailsOnly Arises (c.compileViewTransition name site parts) := by
  have hparts : Settles (parts.mapM (c.transitionPart name site)) :=
    .mapM fun part _ => settles_transitionPart hc part
  exact hparts.collect.bind fun _ _ => .ok

/-- Behind a scope without references, a definition fails in one of these ways. -/
lemma failsOnly_compile (hc : RefFree c.scope) (d : Definition) :
    FailsOnly Arises (c.compile d) := by
  unfold Context.compile
  split
  · exact failsOnly_compileClass hc _
  · exact (settles_dynamic _ _ _).collect.bind fun _ _ => .ok
  · exact failsOnly_compileVars hc _
  · exact (failsOnly_compileConsts _ _).map _
  · exact failsOnly_compileTheme hc _
  · exact failsOnly_compileKeyframes hc _
  · exact failsOnly_compilePositionTry hc _
  · exact failsOnly_compileViewTransition hc _
  · exact .ok

end

lemma arises_of_check {config : Config} {sheet : Sheet} {e : StyleError}
    (h : sheet.check config = .error e) : Arises e := by
  have hfails : FailsOnly Arises (sheet.check config) := by
    unfold Sheet.check Config.validate
    apply FailsOnly.bind
    · split
      · exact .ok
      · exact .error (.invalid _ _ _)
    · intro _ _
      split
      · exact .error (.invalid _ _ _)
      · exact .ok
  exact hfails e h

lemma arises_of_compileFrom {config : Config} {sheet : Sheet} {start left : Registry}
    {definitions : List Definition} {e : StyleError}
    (h : Sheet.compileFrom config sheet start {} definitions = (left, .error e)) : Arises e := by
  obtain ⟨front, d, rest, scope, _, hfront, hfails⟩ := split_of_failure h
  have hscope := refFree_empty.run hfront
  exact failsOnly_compile (c := ⟨config, sheet, scope⟩) hscope d e hfails

/-- A compilation fails only in these ways. -/
lemma arises_of_compileInto {config : Config} {sheet : Sheet} {start left : Registry}
    {e : StyleError} (h : sheet.compileInto config start = (left, .error e)) : Arises e := by
  unfold Sheet.compileInto at h
  cases hcheck : sheet.check config with
  | error other =>
    rw [hcheck] at h
    cases h
    exact arises_of_check hcheck
  | ok _ =>
    rw [hcheck] at h
    dsimp only at h
    cases hrun : Sheet.compileFrom config sheet start {} sheet.definitions with
    | mk left' result =>
      rw [hrun] at h
      cases result with
      | error other =>
        cases h
        exact arises_of_compileFrom hrun
      | ok scope => cases h

end AtomicCss.Proofs
