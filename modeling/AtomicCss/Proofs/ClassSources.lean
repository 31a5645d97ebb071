import AtomicCss.Proofs.Splicing

/-!
# Where compiled classes come from

A compiled class belongs to a definition of the sheet. It is what the declarations of this
definition give, with those of the spliced classes in their places, and every defined class is
compiled.
-/

namespace AtomicCss.Proofs

open Keyed Declaration

/-- The names and pseudo-elements that the parts of a class are written under. -/
def itemKeys (items : List ClassItem) : List String :=
  items.filterMap fun
    | .property name _ => some name
    | .splice _ => none

/-- The declarations of a class are what its definition in the sheet stands for. Their keys are
those of the definition once everything is pasted that it splices. -/
inductive WrittenAs (config : Config) (sheet : Sheet) (name : String)
    (declarations : Declarations) : Prop
  | intro {site : Site} {items pasted : List ClassItem} {earlier : Scope}
    {parts : List Declarations} : ⟨site, .staticClass name items⟩ ∈ sheet.definitions →
    items.mapM (Context.declarationsOf ⟨config, sheet, earlier⟩ name site) = .ok parts →
    parts.flatten = declarations → Pasted sheet items pasted →
    itemKeys pasted = keys declarations → WrittenAs config sheet name declarations

/-- What is stored along a run: the declarations of classes, and the classes that they give. -/
structure StoresWritten (config : Config) (sheet : Sheet) (scope : Scope) : Prop where
  declarations : ∀ name declarations, get? scope.declarations name = some declarations →
    WrittenAs config sheet name declarations
  classes : ∀ name m, get? scope.styles.classes name = some m →
    ∃ declarations, WrittenAs config sheet name declarations ∧
      Gives (classEntries ⟨config, name⟩ declarations) m

section

variable {config : Config} {sheet : Sheet} {start registry : Registry} {scope : Scope}
  {styles : Styles} {name : String}

lemma itemKeys_append (items more : List ClassItem) :
    itemKeys (items ++ more) = itemKeys items ++ itemKeys more :=
  List.filterMap_append

/-- The parts of a class can be pasted, and have the keys of what they stand for. -/
lemma pastedKeys_of_items (hstores : StoresWritten config sheet scope) {label : String}
    {site : Site} {items : List ClassItem} {parts : List Declarations}
    (h : items.mapM (Context.declarationsOf ⟨config, sheet, scope⟩ label site) = .ok parts) :
    ∃ pasted, Pasted sheet items pasted ∧ itemKeys pasted = keys parts.flatten := by
  induction items generalizing parts with
  | nil =>
    cases h
    exact ⟨[], .nil, rfl⟩
  | cons item rest ih =>
    rw [List.mapM_cons] at h
    obtain ⟨first, hfirst, h⟩ := bind_eq_ok h
    obtain ⟨others, hothers, h⟩ := bind_eq_ok h
    cases h
    obtain ⟨tail, htail, hkeys⟩ := ih hothers
    have hflat : keys (first :: others).flatten = keys first ++ keys others.flatten :=
      List.map_append
    rw [hflat, ← hkeys]
    cases item with
    | property name value =>
      obtain ⟨result, _, rfl⟩ := map_eq_ok hfirst
      exact ⟨_, .property htail, rfl⟩
    | splice name =>
      obtain ⟨hown, _, _, hinner, hsame⟩ :=
        hstores.declarations name first (stored_of_splice hfirst)
      exact ⟨_, .splice hown hinner htail, by rw [itemKeys_append, hsame]⟩

lemma StoresWritten.step {d : Definition} {outcome : Outcome} (hd : d ∈ sheet.definitions)
    (hstep : Context.compile ⟨config, sheet, scope⟩ d = .ok outcome)
    (h : StoresWritten config sheet scope) : StoresWritten config sheet outcome.scope := by
  have hsame : outcome.scope.declarations = scope.declarations →
      outcome.scope.styles.classes = scope.styles.classes →
      StoresWritten config sheet outcome.scope := by
    intro hdeclarations hclasses
    constructor
    · rw [hdeclarations]
      exact h.declarations
    · rw [hclasses]
      exact h.classes
  cases compile_eq_ok_iff.1 hstep with
  | @staticClass site name items parts m warnings hparts hentries =>
    obtain ⟨pasted, hpasted, hkeys⟩ := pastedKeys_of_items h hparts
    have hwritten : WrittenAs config sheet name parts.flatten := .intro hd hparts rfl hpasted hkeys
    constructor
    · intro other declarations hget
      change get? (put scope.declarations name parts.flatten) other = _ at hget
      rw [get?_put] at hget
      split at hget
      · rename_i heq
        cases hget
        exact heq ▸ hwritten
      · exact h.declarations other declarations hget
    · intro other m' hget
      change get? (put scope.styles.classes name m) other = _ at hget
      rw [get?_put] at hget
      split at hget
      · rename_i heq
        cases hget
        rw [heq]
        exact ⟨_, hwritten, gives_of_collect (congrArg Prod.fst hentries)⟩
      · exact h.classes other m' hget
  | consts hscope =>
    obtain ⟨consts, rfl⟩ := scope_of_compileConsts hscope
    exact hsame rfl rfl
  | _ => exact hsame rfl rfl

/-- A compiled class is what the declarations of a definition give. -/
lemma written_of_compileInto {m : ClassEntries}
    (h : sheet.compileInto config start = (registry, .ok styles))
    (hget : get? styles.classes name = some m) :
    ∃ declarations, WrittenAs config sheet name declarations ∧
      Gives (classEntries ⟨config, name⟩ declarations) m := by
  obtain ⟨_, scope, hrun, hstyles⟩ := compileInto_eq_ok_iff.1 h
  have hstores : StoresWritten config sheet scope := by
    apply compileFrom_invariant (P := fun _ scope => StoresWritten config sheet scope) ?_ hrun
      ⟨nofun, nofun⟩
    intro registry scope d outcome hd hknown hstep
    exact hknown.step hd hstep
  rw [hstyles] at hget
  exact hstores.classes name m hget

/-- No class is lost on the way. -/
lemma class_of_definition {site : Site} {items : List ClassItem}
    (h : sheet.compileInto config start = (registry, .ok styles))
    (hdefined : ⟨site, .staticClass name items⟩ ∈ sheet.definitions) :
    ∃ m, get? styles.classes name = some m := by
  obtain ⟨_, scope, hrun, hstyles⟩ := compileInto_eq_ok_iff.1 h
  obtain ⟨front, rest, hsplit⟩ := List.append_of_mem hdefined
  rw [hsplit] at hrun
  obtain ⟨left, before, outcome, _, hstep, hrest⟩ := compileFrom_split hrun
  have hentered : (get? outcome.scope.styles.classes name).isSome := by
    cases compile_eq_ok_iff.1 hstep with
    | @staticClass _ _ _ parts m =>
      change (get? (put before.styles.classes name m) name).isSome
      rw [get?_put, if_pos rfl]
      rfl
  have hkept : (get? scope.styles.classes name).isSome := by
    apply compileFrom_invariant (P := fun _ scope => (get? scope.styles.classes name).isSome) ?_
      hrest hentered
    intro _ scope d outcome _ hknown hstep
    cases classStep_of_compile hstep with
    | static _ hclasses =>
      rw [hclasses, get?_put]
      split
      · rfl
      · exact hknown
    | dynamic _ hclasses | none hclasses =>
      rw [hclasses]
      exact hknown
  rw [hstyles]
  exact Option.isSome_iff_exists.1 hkept

end

end AtomicCss.Proofs
