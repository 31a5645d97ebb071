import AtomicCss.Proofs.FailedCompile
import AtomicCss.Proofs.SharedRegistry
import AtomicCss.Proofs.WarningLog

/-!
# Classes of their own declarations

A class without splices and references compiles to the same entries wherever it is defined. So a
sheet of such classes compiles if each of them does, into the rules of all their entries.
-/

namespace AtomicCss.Proofs

open Keyed Declaration Stylesheet

/-- Whether a value is written out, so that it need not be looked up. -/
def isWrittenOut : Scalar → Bool
  | .ref _ => false
  | _ => true

mutual

/-- Whether there are no references below a value. -/
def isLiteral : Value → Bool
  | .unset => true
  | .scalar value => isWrittenOut value
  | .map entries => areLiteral entries
  | .fallback values | .firstThatWorks values => values.all isWrittenOut

def areLiteral : List (String × Value) → Bool
  | [] => true
  | (_, value) :: rest => isLiteral value && areLiteral rest

end

lemma areLiteral_iff {entries : List (String × Value)} :
    areLiteral entries = true ↔ ∀ item ∈ entries, isLiteral item.2 = true := by
  induction entries with
  | nil => simp [areLiteral]
  | cons item rest ih => rw [areLiteral, Bool.and_eq_true, ih, List.forall_mem_cons]

section

variable {c : Context} {definition : String} {site : Site}

lemma resolveScalar_literal {value : Scalar} (h : isWrittenOut value = true) :
    c.resolveScalar definition site value = .ok value := by
  cases value with
  | ref r => cases h
  | _ => rfl

lemma resolveScalars_literal {values : List Scalar} (h : values.all isWrittenOut = true) :
    values.mapM (c.resolveScalar definition site) = .ok values := by
  induction values with
  | nil => rfl
  | cons value rest ih =>
    rw [List.all_cons, Bool.and_eq_true] at h
    rw [List.mapM_cons, resolveScalar_literal h.1, ih h.2]
    rfl

mutual

lemma resolveValue_literal : ∀ {value : Value}, isLiteral value = true →
    c.resolveValue definition site value = .ok value
  | .unset, _ => rfl
  | .scalar _, h => by
    rw [Context.resolveValue, resolveScalar_literal h]
    rfl
  | .map _, h => by
    rw [Context.resolveValue, resolveEntries_literal h]
    rfl
  | .fallback _, h => by
    rw [Context.resolveValue, resolveScalars_literal h]
    rfl
  | .firstThatWorks _, h => by
    rw [Context.resolveValue, resolveScalars_literal h]
    rfl

lemma resolveEntries_literal : ∀ {entries : List (String × Value)}, areLiteral entries = true →
    c.resolveEntries definition site entries = .ok entries
  | [], _ => rfl
  | (_, _) :: _, h => by
    rw [areLiteral, Bool.and_eq_true] at h
    rw [Context.resolveEntries, resolveValue_literal h.1, resolveEntries_literal h.2]
    rfl

end

/-- A class that consists of its own declarations. -/
def ownItems (declarations : Declarations) : List ClassItem :=
  declarations.map fun item => .property item.1 item.2

lemma declarationsOf_ownItems {declarations : Declarations} (h : areLiteral declarations = true) :
    (ownItems declarations).mapM (c.declarationsOf definition site) =
      .ok (declarations.map fun item => [item]) := by
  induction declarations with
  | nil => rfl
  | cons item rest ih =>
    rw [areLiteral, Bool.and_eq_true] at h
    have hhead : c.declarationsOf definition site (.property item.1 item.2) = .ok [item] := by
      rw [Context.declarationsOf, resolveValue_literal h.1]
      rfl
    have hcons : ownItems (item :: rest) = .property item.1 item.2 :: ownItems rest := rfl
    rw [hcons, List.mapM_cons, hhead, ih h.2]
    rfl

end

lemma compile_ownItems {c : Context} {name : String} {site : Site} {declarations : Declarations}
    (h : areLiteral declarations = true) :
    c.compile ⟨site, .staticClass name (ownItems declarations)⟩ =
      (classEntries ⟨c.config, name⟩ declarations).collect.1.map fun m =>
        classOutcome c name declarations m
          (classEntries ⟨c.config, name⟩ declarations).collect.2 := by
  have hflat : (declarations.map fun item => [item]).flatten = declarations := by
    rw [← List.flatMap_def, List.flatMap_singleton']
  change c.compileClass name site (ownItems declarations) = _
  unfold Context.compileClass
  rw [declarationsOf_ownItems h]
  dsimp only [bind, Except.bind]
  rw [hflat]
  cases (classEntries ⟨c.config, name⟩ declarations).collect.1 with
  | error e => rfl
  | ok m => rfl

/-- A static class without splices and references. -/
def SelfContained (d : Definition) : Prop :=
  ∃ name declarations, d.body = .staticClass name (ownItems declarations) ∧
    areLiteral declarations = true

/-- Such a class with the entries that it stands for, under its name. -/
inductive Makes (config : Config) : Definition → String × ClassEntries → Prop
  | intro {site : Site} {name : String} {declarations : Declarations} {m : ClassEntries} :
    areLiteral declarations = true → Gives (classEntries ⟨config, name⟩ declarations) m →
    Makes config ⟨site, .staticClass name (ownItems declarations)⟩ (name, m)

lemma compile_of_makes {c : Context} {d : Definition} {made : String × ClassEntries}
    (h : Makes c.config d made) :
    ∃ outcome, c.compile d = .ok outcome ∧
      outcome.rules = made.2.entries.filterMap Registry.ruleOf? ∧
      outcome.scope.styles.classes = put c.scope.styles.classes made.1 made.2 := by
  cases h with
  | @intro site name declarations m hliteral hgives =>
    have hentries := (steady_classEntries _ _).collect hgives
    rw [compile_ownItems hliteral, hentries]
    exact ⟨_, rfl, rfl, rfl⟩

lemma makes_of_compile {c : Context} {d : Definition} {outcome : Outcome} (hd : SelfContained d)
    (h : c.compile d = .ok outcome) : ∃ made, Makes c.config d made := by
  obtain ⟨site, body⟩ := d
  obtain ⟨name, declarations, rfl, hliteral⟩ := hd
  rw [compile_ownItems hliteral] at h
  obtain ⟨m, hm, _⟩ := map_eq_ok h
  exact ⟨(name, m), .intro hliteral (gives_of_collect hm)⟩

/-- The entries of all classes. -/
def entriesOf (made : List (String × ClassEntries)) : List Entry :=
  made.flatMap fun item => item.2.entries

/-- The registry of the rules of these entries. -/
def registered (entries : List Entry) : Registry :=
  Registry.empty.insertAll (entries.filterMap Registry.ruleOf?)

section

variable {config : Config} {definitions : List Definition}

/-- Classes compile one after the other, and offer the rules of all their entries. -/
lemma compileFrom_of_makes {made : List (String × ClassEntries)}
    (h : List.Forall₂ (Makes config) definitions made) (sheet : Sheet) (registry : Registry)
    (scope : Scope) :
    ∃ result, Sheet.compileFrom config sheet registry scope definitions =
        (registry.insertAll ((entriesOf made).filterMap Registry.ruleOf?), .ok result) ∧
      result.styles.classes = putAll scope.styles.classes made := by
  induction h generalizing registry scope with
  | nil => exact ⟨scope, rfl, rfl⟩
  | @cons d item ds rest hd _ ih =>
    have hmakes : Makes (Context.mk config sheet scope).config d item := hd
    obtain ⟨outcome, hstep, hrules, hclasses⟩ := compile_of_makes hmakes
    obtain ⟨result, hrun, hresult⟩ := ih (registry.insertAll outcome.rules) outcome.scope
    refine ⟨result, ?_, ?_⟩
    · have hsplit : (entriesOf (item :: rest)).filterMap Registry.ruleOf? =
          outcome.rules ++ (entriesOf rest).filterMap Registry.ruleOf? := by
        rw [hrules, entriesOf, List.flatMap_cons, List.filterMap_append]
        rfl
      rw [Sheet.compileFrom, hstep, hsplit, insertAll_append]
      exact hrun
    · rw [hresult, hclasses]
      rfl

lemma makes_of_compileFrom {sheet : Sheet} {registry : Registry} {scope result : Scope}
    (hds : ∀ d ∈ definitions, SelfContained d)
    (h : (Sheet.compileFrom config sheet registry scope definitions).2 = .ok result) :
    ∃ made, List.Forall₂ (Makes config) definitions made := by
  induction definitions generalizing registry scope with
  | nil => exact ⟨[], .nil⟩
  | cons d ds ih =>
    rw [Sheet.compileFrom] at h
    split at h
    · cases h
    · rename_i outcome hstep
      obtain ⟨item, hitem⟩ := makes_of_compile (hds d List.mem_cons_self) hstep
      obtain ⟨rest, hrest⟩ := ih (fun d hd => hds d (List.mem_cons_of_mem _ hd)) h
      exact ⟨item :: rest, .cons hitem hrest⟩

end

lemma keys_of_makes {config : Config} {definitions : List Definition}
    {made : List (String × ClassEntries)} (h : List.Forall₂ (Makes config) definitions made) :
    definitions.map (fun d => d.body.key) =
      (keys made).map fun name => (.staticClass, "", name) := by
  induction h with
  | nil => rfl
  | cons hd _ ih =>
    rw [List.map_cons, ih]
    cases hd
    rfl

section

variable {config : Config} {sheet : Sheet} {made : List (String × ClassEntries)}

lemma compile_of_check (hcheck : sheet.check config = .ok ())
    (h : List.Forall₂ (Makes config) sheet.definitions made) :
    ∃ styles, sheet.compile config = .ok styles ∧ styles.classes = putAll [] made ∧
      styles.rules = emit (registered (entriesOf made)) config.layers := by
  obtain ⟨result, hrun, hclasses⟩ := compileFrom_of_makes h sheet .empty {}
  refine ⟨writtenOver config _ result, ?_, hclasses, rfl⟩
  unfold Sheet.compile Sheet.compileInto
  rw [hcheck]
  dsimp only
  rw [hrun]
  rfl

lemma check_of_compile {styles : Styles} (hds : ∀ d ∈ sheet.definitions, SelfContained d)
    (hs : sheet.compile config = .ok styles) : sheet.check config = .ok () ∧
      ∃ made, List.Forall₂ (Makes config) sheet.definitions made := by
  unfold Sheet.compile Sheet.compileInto at hs
  split at hs
  · cases hs
  · rename_i hcheck
    obtain ⟨result, hrun, _⟩ := map_eq_ok hs
    exact ⟨hcheck, makes_of_compileFrom hds hrun⟩

/-- Every entry of a class is held by the compiled sheet, since no two classes have one name. -/
lemma holds_of_mem {styles : Styles} (hcheck : sheet.check config = .ok ())
    (h : List.Forall₂ (Makes config) sheet.definitions made)
    (hclasses : styles.classes = putAll [] made) {e : Entry} (he : e ∈ entriesOf made) :
    Holds styles e := by
  have hdistinct := (check_eq_ok_iff.1 hcheck).2
  rw [keys_of_makes h] at hdistinct
  obtain ⟨item, hitem, he⟩ := List.mem_flatMap.1 he
  refine .inl ⟨item.1, item.2, ?_, he⟩
  rw [hclasses]
  exact get?_putAll_of_mem hdistinct.of_map hitem []

end

/-- A sheet of classes of their own declarations. -/
def classSheet (classes : List (String × Declarations)) : Sheet :=
  ⟨.unknown, classes.map fun item => ⟨.unknown, .staticClass item.1 (ownItems item.2)⟩⟩

lemma selfContained_classSheet {classes : List (String × Declarations)}
    (h : classes.all (fun item => areLiteral item.2) = true) :
    ∀ d ∈ (classSheet classes).definitions, SelfContained d := by
  intro d hd
  obtain ⟨item, hitem, rfl⟩ := List.mem_map.1 hd
  exact ⟨item.1, item.2, rfl, List.all_eq_true.1 h item hitem⟩

end AtomicCss.Proofs
