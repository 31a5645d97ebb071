import AtomicCss.Proofs.Flatten
import AtomicCss.Proofs.Lookups
import AtomicCss.Proofs.OwnClasses

/-!
# No reference is left over

The constants of a scope and the declarations of its classes hold no references, since they are
resolved before they are kept. So whatever a definition resolves or takes over is free of them, at
any depth, and normalization never meets one.
-/

namespace AtomicCss.Proofs

open Keyed Context Declaration

/-- Nothing that a scope gives out holds a reference. -/
structure RefFree (scope : Scope) : Prop where
  consts : ∀ key value, get? scope.consts key = some value → isWrittenOut value = true
  declarations : ∀ name declarations, get? scope.declarations name = some declarations →
    areLiteral declarations = true

lemma refFree_empty : RefFree {} :=
  ⟨nofun, nofun⟩

lemma RefFree.of_eq {scope scope' : Scope} (h : RefFree scope)
    (hconsts : scope'.consts = scope.consts)
    (hdeclarations : scope'.declarations = scope.declarations) : RefFree scope' :=
  ⟨hconsts ▸ h.consts, hdeclarations ▸ h.declarations⟩

section

variable {c : Context} {label : String} {site : Site}

lemma isWrittenOut_of_resolveReference (hc : RefFree c.scope) {r : Reference} {value : Scalar}
    (h : c.resolveReference label site r = .ok value) : isWrittenOut value = true := by
  obtain ⟨kind, space, name⟩ := r
  unfold Context.resolveReference at h
  split at h
  · rename_i found hfound
    cases h
    cases kind with
    | const => exact hc.consts _ _ hfound
    | _ =>
      obtain ⟨text, _, rfl⟩ := Option.map_eq_some_iff.1 hfound
      rfl
  · split at h <;> cases h

lemma isWrittenOut_of_resolveScalar (hc : RefFree c.scope) {written value : Scalar}
    (h : c.resolveScalar label site written = .ok value) : isWrittenOut value = true := by
  cases written with
  | ref r => exact isWrittenOut_of_resolveReference hc h
  | _ =>
    cases h
    rfl

lemma all_isWrittenOut_of_resolveScalars (hc : RefFree c.scope) {written values : List Scalar}
    (h : written.mapM (c.resolveScalar label site) = .ok values) :
    values.all isWrittenOut = true := by
  rw [List.all_eq_true]
  intro value hvalue
  obtain ⟨w, _, hw⟩ := exists_of_forall₂ (mapM_eq_ok h) hvalue
  exact isWrittenOut_of_resolveScalar hc hw

mutual

/-- A resolved value holds no references at any depth. -/
lemma isLiteral_of_resolveValue (hc : RefFree c.scope) : ∀ {written value : Value},
    c.resolveValue label site written = .ok value → isLiteral value = true
  | .unset, _, h => by
    cases h
    rfl
  | .scalar _, _, h => by
    obtain ⟨found, hfound, rfl⟩ := map_eq_ok h
    exact isWrittenOut_of_resolveScalar hc hfound
  | .map _, _, h => by
    obtain ⟨found, hfound, rfl⟩ := map_eq_ok h
    exact areLiteral_of_resolveEntries hc hfound
  | .fallback _, _, h => by
    obtain ⟨found, hfound, rfl⟩ := map_eq_ok h
    exact all_isWrittenOut_of_resolveScalars hc hfound
  | .firstThatWorks _, _, h => by
    obtain ⟨found, hfound, rfl⟩ := map_eq_ok h
    exact all_isWrittenOut_of_resolveScalars hc hfound

lemma areLiteral_of_resolveEntries (hc : RefFree c.scope) :
    ∀ {written entries : List (String × Value)},
      c.resolveEntries label site written = .ok entries → areLiteral entries = true
  | [], _, h => by
    cases h
    rfl
  | (_, _) :: _, _, h => by
    obtain ⟨value, hvalue, h⟩ := bind_eq_ok h
    obtain ⟨rest, hrest, h⟩ := bind_eq_ok h
    cases h
    rw [areLiteral, isLiteral_of_resolveValue hc hvalue, areLiteral_of_resolveEntries hc hrest]
    rfl

end

lemma areLiteral_of_declarationsOf (hc : RefFree c.scope) {item : ClassItem}
    {declarations : Declarations} (h : c.declarationsOf label site item = .ok declarations) :
    areLiteral declarations = true := by
  cases item with
  | property name value =>
    obtain ⟨found, hfound, rfl⟩ := map_eq_ok h
    rw [areLiteral, isLiteral_of_resolveValue hc hfound]
    rfl
  | splice name =>
    change c.included label site name = .ok declarations at h
    unfold Context.included at h
    split at h
    · rename_i found hfound
      cases h
      exact hc.declarations _ _ hfound
    · split at h <;> cases h

lemma areLiteral_flatten (hc : RefFree c.scope) {items : List ClassItem}
    {parts : List Declarations} (h : items.mapM (c.declarationsOf label site) = .ok parts) :
    areLiteral parts.flatten = true := by
  rw [areLiteral_iff]
  intro item hitem
  obtain ⟨part, hpart, hitem⟩ := List.mem_flatten.1 hitem
  obtain ⟨_, _, hdeclarations⟩ := exists_of_forall₂ (mapM_eq_ok h) hpart
  exact areLiteral_iff.1 (areLiteral_of_declarationsOf hc hdeclarations) item hitem

lemma refFree_of_compileConsts {space : String} {scope result : Scope}
    {values : List (String × Scalar)} (hscope : RefFree scope)
    (h : c.compileConsts space site scope values = .ok result) : RefFree result := by
  induction values generalizing scope with
  | nil =>
    cases h
    exact hscope
  | cons item rest ih =>
    obtain ⟨value, hvalue, h⟩ := bind_eq_ok h
    have hnext : RefFree
        { scope with consts := put scope.consts (qualified space item.1) value } := by
      refine ⟨?_, hscope.declarations⟩
      intro key found hfound
      rw [get?_put] at hfound
      split at hfound
      · cases hfound
        exact isWrittenOut_of_resolveScalar (c := { c with scope }) hscope hvalue
      · exact hscope.consts key found hfound
    exact ih hnext h

/-- A definition keeps the scope free of references. -/
lemma RefFree.step {d : Definition} {outcome : Outcome} (hc : RefFree c.scope)
    (h : c.compile d = .ok outcome) : RefFree outcome.scope := by
  cases compile_eq_ok_iff.1 h with
  | staticClass hparts =>
    refine ⟨hc.consts, ?_⟩
    intro name declarations hget
    change get? (put c.scope.declarations _ _) name = _ at hget
    rw [get?_put] at hget
    split at hget
    · cases hget
      exact areLiteral_flatten hc hparts
    · exact hc.declarations name declarations hget
  | consts hscope => exact refFree_of_compileConsts hc hscope
  | _ => exact hc.of_eq rfl rfl

end

lemma RefFree.run {config : Config} {sheet : Sheet} {start left : Registry} {scope result : Scope}
    {definitions : List Definition} (hscope : RefFree scope)
    (h : Sheet.compileFrom config sheet start scope definitions = (left, .ok result)) :
    RefFree result := by
  apply compileFrom_invariant (P := fun _ scope => RefFree scope) ?_ h hscope
  intro registry scope d outcome _ hfree hstep
  exact RefFree.step (c := ⟨config, sheet, scope⟩) hfree hstep

/-- What a definition sees of itself is free of references as well. -/
lemma Asks.refFree {c inside : Context} {d : Definition} {own : List Definition} {label : String}
    {value : Value} (h : Asks c d own inside label value) (hc : RefFree c.scope) :
    RefFree inside.scope := by
  cases h with
  | vars => exact hc.of_eq rfl rfl
  | consts _ hscope => exact refFree_of_compileConsts hc hscope
  | _ => exact hc

/-- A value and the values below it. -/
inductive Within : Value → Value → Prop
  | self {value : Value} : Within value value
  | entry {key : String} {inner value : Value} {entries : List (String × Value)} :
    (key, inner) ∈ entries → Within inner value → Within (.map entries) value

lemma Within.isLiteral {whole value : Value} (h : Within whole value)
    (hwhole : isLiteral whole = true) : isLiteral value = true := by
  induction h with
  | self => exact hwhole
  | entry hmem _ ih => exact ih (areLiteral_iff.1 hwhole _ hmem)

lemma within_of_leafIn {parent : String} {entries : List (String × Value)} {leaf : Leaf}
    (h : LeafIn parent entries leaf) : Within (.map entries) leaf.value := by
  induction h with
  | here hmem => exact .entry hmem .self
  | inside hmem _ _ _ ih => exact .entry hmem ih

/-- What compiling a definition can hand on to be normalized: what it resolves, what it takes over
from classes, and everything below that. -/
inductive Handed (c : Context) (d : Definition) : Value → Prop
  | resolved {own : List Definition} {inside : Context} {label : String}
    {written whole value : Value} : Asks c d own inside label written →
    inside.resolveValue label d.site written = .ok whole → Within whole value → Handed c d value
  | spliced {name other property : String} {items : List ClassItem} {declarations : Declarations}
    {whole value : Value} : d.body = .staticClass name items → .splice other ∈ items →
    c.included name d.site other = .ok declarations → (property, whole) ∈ declarations →
    Within whole value → Handed c d value

lemma Handed.isLiteral {c : Context} {d : Definition} {value : Value} (h : Handed c d value)
    (hc : RefFree c.scope) : isLiteral value = true := by
  cases h with
  | resolved hasks hresolved hwithin =>
    exact hwithin.isLiteral (isLiteral_of_resolveValue (hasks.refFree hc) hresolved)
  | @spliced name other property items declarations whole _ _ _ hincluded hmem hwithin =>
    have htaken : c.declarationsOf name d.site (.splice other) = .ok declarations := hincluded
    have hliteral := areLiteral_of_declarationsOf hc htaken
    exact hwithin.isLiteral (areLiteral_iff.1 hliteral _ hmem)

end AtomicCss.Proofs
