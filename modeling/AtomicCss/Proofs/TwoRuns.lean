import AtomicCss.Proofs.Steps

/-!
# Runs that warn differently

Two runs are paired if they come to the same result and make the same warnings, but for those that
are not kept. The compiler asks whether a property is deprecated only to warn about it. So it runs
in pairs under every two answers, as long as no warning about a deprecated property is kept.
-/

namespace AtomicCss.Proofs

open Declaration

variable {α β : Type} {keep : Warning → Bool}

/-- The same result, and the same warnings among the kept ones, if these were the same before. -/
def Paired (keep : Warning → Bool) (p q : Processing α) : Prop :=
  ∀ ws ws', ws.filter keep = ws'.filter keep →
    (p ws).1 = (q ws').1 ∧ (p ws).2.filter keep = (q ws').2.filter keep

namespace Paired

lemma pure (a : α) : Paired keep (Pure.pure a) (Pure.pure a) :=
  fun _ _ h => ⟨rfl, h⟩

lemma fail (e : StyleError) : Paired keep (Processing.fail e : Processing α) (.fail e) :=
  fun _ _ h => ⟨rfl, h⟩

/-- Nothing is run behind a failure. -/
lemma fail_bind (e : StyleError) (f g : α → Processing β) :
    Paired keep (Processing.fail e >>= f) (Processing.fail e >>= g) :=
  fun _ _ h => ⟨rfl, h⟩

lemma ofExcept (r : Except StyleError α) : Paired keep (.ofExcept r) (.ofExcept r) :=
  fun _ _ h => ⟨rfl, h⟩

lemma ofCss (r : Except CssFault α) : Paired keep (.ofCss r) (.ofCss r) :=
  ofExcept _

lemma require (holds : Bool) (e : StyleError) :
    Paired keep (.require holds e) (.require holds e) := by
  cases holds with
  | true => exact pure ()
  | false => exact fail e

lemma warn (w : Warning) : Paired keep (.warn w) (.warn w) := by
  intro ws ws' h
  refine ⟨rfl, ?_⟩
  change (ws ++ [w]).filter keep = (ws' ++ [w]).filter keep
  rw [List.filter_append, List.filter_append, h]

/-- A warning that is not kept may be made by one of the two alone. -/
lemma unkept {w : Warning} (hw : keep w = false) (b b' : Bool) :
    Paired keep (if b then .warn w else Pure.pure ()) (if b' then .warn w else Pure.pure ()) := by
  have hmade : ∀ (b : Bool) (ws : List Warning),
      ((if b then .warn w else Pure.pure () : Processing Unit) ws).1 = .ok () ∧
        ((if b then .warn w else Pure.pure () : Processing Unit) ws).2.filter keep =
          ws.filter keep := by
    intro b ws
    cases b with
    | false => exact ⟨rfl, rfl⟩
    | true =>
      refine ⟨rfl, ?_⟩
      change (ws ++ [w]).filter keep = _
      rw [List.filter_append, List.filter_singleton, hw]
      exact List.append_nil _
  intro ws ws' h
  obtain ⟨hresult, hkept⟩ := hmade b ws
  obtain ⟨hresult', hkept'⟩ := hmade b' ws'
  exact ⟨hresult.trans hresult'.symm, hkept.trans (h.trans hkept'.symm)⟩

lemma bind {p q : Processing α} {f g : α → Processing β} (hp : Paired keep p q)
    (hf : ∀ a, Paired keep (f a) (g a)) : Paired keep (p >>= f) (q >>= g) := by
  intro ws ws' h
  obtain ⟨hresult, hkept⟩ := hp ws ws' h
  change (ExceptT.bindCont f (p ws).1 (p ws).2).1 = (ExceptT.bindCont g (q ws').1 (q ws').2).1 ∧
    (ExceptT.bindCont f (p ws).1 (p ws).2).2.filter keep =
      (ExceptT.bindCont g (q ws').1 (q ws').2).2.filter keep
  rw [hresult]
  cases (q ws').1 with
  | error e => exact ⟨rfl, hkept⟩
  | ok a => exact hf a _ _ hkept

lemma mapM {f g : α → Processing β} (hf : ∀ a, Paired keep (f a) (g a)) (xs : List α) :
    Paired keep (xs.mapM f) (xs.mapM g) := by
  induction xs with
  | nil => exact pure []
  | cons x xs ih =>
    rw [List.mapM_cons, List.mapM_cons]
    exact (hf x).bind fun _ => ih.bind fun _ => pure _

lemma forM {f g : α → Processing PUnit} (hf : ∀ a, Paired keep (f a) (g a)) (xs : List α) :
    Paired keep (xs.forM f) (xs.forM g) := by
  induction xs with
  | nil => exact pure PUnit.unit
  | cons x xs ih => exact (hf x).bind fun _ => ih

lemma collect {p q : Processing α} (h : Paired keep p q) :
    p.collect.1 = q.collect.1 ∧ p.collect.2.filter keep = q.collect.2.filter keep :=
  h [] [] rfl

end Paired

/-- The setting with another answer to what is deprecated. -/
def advised (isDeprecated : String → Bool) (setting : Setting) : Setting :=
  { setting with config := { setting.config with isDeprecated } }

section

variable (setting : Setting) (isDeprecated : String → Bool)

lemma paired_checkVendors (property : String) (value : Normalized) :
    Paired keep (checkVendors setting.config setting.definition property value)
      (checkVendors setting.config setting.definition property value) := by
  apply Paired.forM
  intro text
  unfold checkVendor
  split
  · exact .pure _
  · split
    · exact .pure _
    · split
      · exact .warn _
      · exact .pure _

lemma paired_entries (property : String) (suffix atRule : Option String) (value : Value) :
    Paired keep (entries setting property suffix atRule value)
      (entries (advised isDeprecated setting) property suffix atRule value) := by
  unfold entries
  split
  · exact .pure _
  · exact (Paired.ofCss _).bind fun _ => (paired_checkVendors setting _ _).bind fun _ => .pure _

lemma paired_plain (property : String) (scope : Option String) (value : Value) :
    Paired keep (plain setting property scope value)
      (plain (advised isDeprecated setting) property scope value) :=
  (paired_entries setting isDeprecated _ _ _ _).bind fun _ => .pure _

lemma paired_leafEntries (property : String) (scope : Option String) (leaf : Leaf) :
    Paired keep (leafEntries setting property scope leaf)
      (leafEntries (advised isDeprecated setting) property scope leaf) :=
  (Paired.ofCss _).bind fun _ => (paired_entries setting isDeprecated _ _ _ _).bind fun _ => .pure _

lemma paired_conditional (property : String) (scope : Option String) (map : List (String × Value)) :
    Paired keep (conditional setting property scope map)
      (conditional (advised isDeprecated setting) property scope map) := by
  apply (Paired.ofExcept _).bind
  intro leaves
  exact (Paired.mapM (paired_leafEntries setting isDeprecated property scope) leaves).bind
    fun _ => .pure _

lemma paired_checkPolicy (declarations : Declarations) :
    Paired keep (checkPolicy setting declarations)
      (checkPolicy (advised isDeprecated setting) declarations) := by
  change Paired keep (checkPolicy setting declarations) (checkPolicy setting declarations)
  unfold checkPolicy
  split
  · exact .ofExcept _
  · exact .pure _

variable (hkeep : ∀ definition property, keep ⟨definition, property, .deprecated⟩ = false)

include hkeep

lemma paired_validateProperty (property : String) :
    Paired keep (validateProperty setting.config setting.definition property)
      (validateProperty (advised isDeprecated setting).config setting.definition property) := by
  change Paired keep _ (if !setting.config.accepts property then _ else _)
  unfold validateProperty
  split
  · exact .fail _
  · exact .unkept (hkeep setting.definition property) _ _

lemma paired_property (name : String) (scope : Option String) (value : Value) :
    Paired keep (Declaration.property setting name scope value)
      (Declaration.property (advised isDeprecated setting) name scope value) := by
  apply (Paired.require _ _).bind
  intro _
  apply (paired_validateProperty setting isDeprecated hkeep _).bind
  intro _
  split
  · split
    · exact paired_conditional setting isDeprecated _ _ _
    · exact .fail _
  · exact paired_plain setting isDeprecated _ _ _

lemma paired_inPseudoElement (pseudo : String) (item : String × Value) :
    Paired keep (inPseudoElement setting pseudo item)
      (inPseudoElement (advised isDeprecated setting) pseudo item) :=
  (Paired.require _ _).bind fun _ => paired_property setting isDeprecated hkeep _ _ _

lemma paired_pseudoElement (key : String) (value : Value) :
    Paired keep (pseudoElement setting key value)
      (pseudoElement (advised isDeprecated setting) key value) := by
  apply (Paired.require _ _).bind
  intro _
  apply (Paired.ofCss _).bind
  intro _
  split
  · apply (paired_checkPolicy setting isDeprecated _).bind
    intro _
    exact (Paired.mapM (paired_inPseudoElement setting isDeprecated hkeep key) _).bind
      fun _ => .pure _
  · exact .fail _

lemma paired_slots (item : String × Value) :
    Paired keep (slots setting item) (slots (advised isDeprecated setting) item) := by
  unfold Declaration.slots
  split
  · exact paired_pseudoElement setting isDeprecated hkeep _ _
  · exact paired_property setting isDeprecated hkeep _ _ _

lemma paired_classEntries (declarations : Declarations) :
    Paired keep (classEntries setting declarations)
      (classEntries (advised isDeprecated setting) declarations) := by
  apply (paired_checkPolicy setting isDeprecated _).bind
  intro _
  exact (Paired.mapM (paired_slots setting isDeprecated hkeep) declarations).bind fun _ => .pure _

lemma paired_bind (parameters : List String) (item : String × String) :
    Paired keep (DynamicClass.bind setting parameters item)
      (DynamicClass.bind (advised isDeprecated setting) parameters item) := by
  apply (Paired.require _ _).bind
  intro _
  apply (Paired.require _ _).bind
  intro _
  exact (paired_validateProperty setting isDeprecated hkeep _).bind fun _ => .pure _

lemma paired_dynamic (parameters : List String) (properties : List (String × String)) :
    Paired keep (DynamicClass.compile setting parameters properties)
      (DynamicClass.compile (advised isDeprecated setting) parameters properties) := by
  have hbound := Paired.mapM (paired_bind setting isDeprecated hkeep parameters) properties
  unfold DynamicClass.compile
  apply (Paired.require _ _).bind
  intro _
  dsimp only
  split
  · exact Paired.fail_bind _ _ _
  · apply (Paired.require _ _).bind
    intro _
    change Paired keep _ (if setting.config.shorthands = .forbid then _ else _)
    split
    · exact (Paired.ofExcept _).bind fun _ => hbound.bind fun _ => .pure _
    · exact hbound.bind fun _ => .pure _

end

/-- The scope with other warnings so far. -/
def rewarned (warnings : List Warning) (scope : Scope) : Scope :=
  { scope with styles := { scope.styles with warnings } }

/-- The context of the other run: another answer to what is deprecated, and other warnings. -/
def twin (isDeprecated : String → Bool) (warnings : List Warning) (c : Context) : Context :=
  { c with config := { c.config with isDeprecated }, scope := rewarned warnings c.scope }

section

variable (c : Context) (isDeprecated : String → Bool) (warnings : List Warning)
  (definition : String) (site : Site)

mutual

/-- References lead to the same things in both runs. -/
lemma resolveValue_twin : ∀ value : Value,
    (twin isDeprecated warnings c).resolveValue definition site value =
      c.resolveValue definition site value
  | .unset => rfl
  | .scalar _ => rfl
  | .map entries => by
    rw [Context.resolveValue, Context.resolveValue, resolveEntries_twin entries]
  | .fallback _ => rfl
  | .firstThatWorks _ => rfl

lemma resolveEntries_twin : ∀ entries : List (String × Value),
    (twin isDeprecated warnings c).resolveEntries definition site entries =
      c.resolveEntries definition site entries
  | [] => rfl
  | (_, value) :: rest => by
    rw [Context.resolveEntries, Context.resolveEntries, resolveValue_twin value,
      resolveEntries_twin rest]

end

variable (hkeep : ∀ definition property, keep ⟨definition, property, .deprecated⟩ = false)

include hkeep

lemma paired_plainDeclaration (item : String × Value) :
    Paired keep (c.plainDeclaration definition site item)
      ((twin isDeprecated warnings c).plainDeclaration definition site item) := by
  unfold Context.plainDeclaration
  apply (paired_validateProperty ⟨c.config, definition⟩ isDeprecated hkeep _).bind
  intro _
  rw [resolveValue_twin]
  apply (Paired.ofExcept _).bind
  intro _
  apply (Paired.require _ _).bind
  intro _
  apply (Paired.ofCss _).bind
  intro _
  exact (paired_checkVendors ⟨c.config, definition⟩ _ _).bind fun _ => .pure _

lemma paired_plainBlock (declarations : Declarations) :
    Paired keep (c.plainBlock definition site declarations)
      ((twin isDeprecated warnings c).plainBlock definition site declarations) :=
  (Paired.mapM (paired_plainDeclaration c isDeprecated warnings definition site hkeep) _).bind
    fun _ => .pure _

lemma paired_frameBlock (frame : String × Declarations) :
    Paired keep (frameBlock c definition site frame)
      (frameBlock (twin isDeprecated warnings c) definition site frame) :=
  (paired_plainBlock c isDeprecated warnings definition site hkeep _).bind fun _ => .pure _

lemma paired_transitionPart (part : String × Declarations) :
    Paired keep (c.transitionPart definition site part)
      ((twin isDeprecated warnings c).transitionPart definition site part) :=
  (Paired.require _ _).bind fun _ =>
    (paired_plainBlock c isDeprecated warnings definition site hkeep _).bind fun _ => .pure _

end

end AtomicCss.Proofs
