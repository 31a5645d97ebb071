import AtomicCss.Proofs.StableLookups

/-!
# Splicing is pasting

A class that takes over another one gets the declarations that this one was compiled to. Writing
the parts of the other class in their place means that their references are resolved again, later
and elsewhere. They resolve to the same, so the sheet compiles to the same.
-/

namespace AtomicCss.Proofs

open Keyed Context

/-- The parts of a class with the parts of other classes in the place of every splice, and theirs in
the place of the splices among these, at any depth. -/
inductive Pasted (sheet : Sheet) : List ClassItem → List ClassItem → Prop
  | nil : Pasted sheet [] []
  | property {name : String} {value : Value} {items pasted : List ClassItem} :
    Pasted sheet items pasted →
    Pasted sheet (.property name value :: items) (.property name value :: pasted)
  | splice {site : Site} {name : String} {own inner items pasted : List ClassItem} :
    ⟨site, .staticClass name own⟩ ∈ sheet.definitions → Pasted sheet own inner →
    Pasted sheet items pasted → Pasted sheet (.splice name :: items) (inner ++ pasted)

/-- Nothing is left to be spliced. -/
lemma Pasted.properties {sheet : Sheet} {items pasted : List ClassItem}
    (h : Pasted sheet items pasted) :
    ∀ item ∈ pasted, ∃ name value, item = .property name value := by
  induction h with
  | nil => nofun
  | property _ ih =>
    intro item hitem
    rcases List.mem_cons.1 hitem with rfl | hitem
    · exact ⟨_, _, rfl⟩
    · exact ih item hitem
  | splice _ _ _ ihinner ih =>
    intro item hitem
    rcases List.mem_append.1 hitem with hitem | hitem
    · exact ihinner item hitem
    · exact ih item hitem

/-- Parts of a class stand for these declarations, whatever class they are in. -/
def Yields (c : Context) (items : List ClassItem) (declarations : Declarations) : Prop :=
  ∀ label site, ∃ parts, items.mapM (c.declarationsOf label site) = .ok parts ∧
    parts.flatten = declarations

section

variable {c c' : Context} {items more : List ClassItem} {declarations others : Declarations}

lemma Yields.append (h : Yields c items declarations) (hmore : Yields c more others) :
    Yields c (items ++ more) (declarations ++ others) := by
  intro label site
  obtain ⟨parts, hparts, rfl⟩ := h label site
  obtain ⟨parts', hparts', rfl⟩ := hmore label site
  refine ⟨parts ++ parts', ?_, List.flatten_append⟩
  rw [List.mapM_append, hparts, hparts']
  rfl

lemma yields_nil : Yields c [] [] :=
  fun _ _ => ⟨[], rfl, rfl⟩

lemma yields_property {label : String} {site : Site} {name : String} {value result : Value}
    (h : c.resolveValue label site value = .ok result) :
    Yields c [.property name value] [(name, result)] := by
  intro label' site'
  have hsame : c.resolveValue label' site' value = .ok result :=
    resolveValue_extends (fun _ _ _ hv => hv) h
  refine ⟨[[(name, result)]], ?_, rfl⟩
  rw [List.mapM_cons, Context.declarationsOf, hsame]
  rfl

/-- Properties stand for the same in a scope that gives more. -/
lemma Yields.extends (h : Yields c items declarations) (hc : Extends c.scope c'.scope)
    (hitems : ∀ item ∈ items, ∃ name value, item = .property name value) :
    Yields c' items declarations := by
  intro label site
  obtain ⟨parts, hparts, rfl⟩ := h label site
  refine ⟨parts, ?_, rfl⟩
  -- the induction is on the parts, and what they all stand for is of no use in it
  clear h
  induction items generalizing parts with
  | nil => exact hparts
  | cons item rest ih =>
    obtain ⟨name, value, rfl⟩ := hitems item List.mem_cons_self
    rw [List.mapM_cons] at hparts ⊢
    obtain ⟨first, hfirst, hparts⟩ := bind_eq_ok hparts
    obtain ⟨others, hothers, hparts⟩ := bind_eq_ok hparts
    obtain ⟨result, hresult, rfl⟩ := map_eq_ok hfirst
    have hsame : c'.resolveValue label site value = .ok result := resolveValue_extends hc hresult
    rw [Context.declarationsOf, hsame,
      ih (fun item hitem => hitems item (List.mem_cons_of_mem _ hitem)) others hothers]
    exact hparts

end

/-- The stored declarations of a class are what its parts stand for, once they are pasted. -/
def StoresPasted (config : Config) (sheet : Sheet) (scope : Scope) : Prop :=
  ∀ name declarations, get? scope.declarations name = some declarations →
    ∀ site own, ⟨site, .staticClass name own⟩ ∈ sheet.definitions →
      (∃ pasted, Pasted sheet own pasted) ∧
        ∀ pasted, Pasted sheet own pasted → Yields ⟨config, sheet, scope⟩ pasted declarations

/-- Stored declarations belong to a class of the sheet. -/
def StoresDefined (sheet : Sheet) (scope : Scope) : Prop :=
  ∀ name declarations, get? scope.declarations name = some declarations →
    ∃ site own, ⟨site, .staticClass name own⟩ ∈ sheet.definitions

section

variable {config : Config} {sheet : Sheet} {start left : Registry}
  {front rest : List Definition} {d : Definition} {scope scope' : Scope}

/-- A splice stands for what is stored. -/
lemma stored_of_splice {label name : String} {site : Site} {declarations : Declarations}
    (h : Context.declarationsOf ⟨config, sheet, scope⟩ label site (.splice name) =
      .ok declarations) : get? scope.declarations name = some declarations := by
  change Context.included ⟨config, sheet, scope⟩ label site name = .ok declarations at h
  unfold Context.included at h
  split at h
  · rename_i found hfound
    cases h
    exact hfound
  · split at h <;> cases h

/-- The parts of a class and the pasted ones stand for the same declarations. -/
lemma pasted_of_stores (hdefined : StoresDefined sheet scope)
    (hstores : StoresPasted config sheet scope) {label : String} {site : Site}
    {items : List ClassItem} {parts : List Declarations}
    (h : items.mapM (Context.declarationsOf ⟨config, sheet, scope⟩ label site) = .ok parts) :
    (∃ pasted, Pasted sheet items pasted) ∧
      ∀ pasted, Pasted sheet items pasted → Yields ⟨config, sheet, scope⟩ pasted parts.flatten := by
  induction items generalizing parts with
  | nil =>
    cases h
    refine ⟨⟨[], .nil⟩, fun pasted hpasted => ?_⟩
    cases hpasted
    exact yields_nil
  | cons item rest ih =>
    rw [List.mapM_cons] at h
    obtain ⟨first, hfirst, h⟩ := bind_eq_ok h
    obtain ⟨others, hothers, h⟩ := bind_eq_ok h
    cases h
    obtain ⟨⟨tail, htail⟩, hyields⟩ := ih hothers
    rw [List.flatten_cons]
    cases item with
    | property name value =>
      obtain ⟨result, hresult, rfl⟩ := map_eq_ok hfirst
      refine ⟨⟨_, .property htail⟩, fun pasted hpasted => ?_⟩
      cases hpasted with
      | property hpasted => exact (yields_property hresult).append (hyields _ hpasted)
    | splice name =>
      have hstored := stored_of_splice hfirst
      obtain ⟨site', own, hown⟩ := hdefined name first hstored
      obtain ⟨⟨inner, hinner⟩, _⟩ := hstores name first hstored site' own hown
      refine ⟨⟨_, .splice hown hinner htail⟩, fun pasted hpasted => ?_⟩
      cases hpasted with
      | splice hother hpastedinner hpastedtail =>
        obtain ⟨_, hgives⟩ := hstores name first hstored _ _ hother
        exact (hgives _ hpastedinner).append (hyields _ hpastedtail)

lemma staticClass_unique (hkeys : (sheet.definitions.map fun e => e.body.key).Nodup)
    {site site' : Site} {name : String} {items items' : List ClassItem}
    (h : ⟨site, .staticClass name items⟩ ∈ sheet.definitions)
    (h' : ⟨site', .staticClass name items'⟩ ∈ sheet.definitions) : items = items' := by
  have hsame := List.inj_on_of_nodup_map hkeys h h' rfl
  cases hsame
  rfl

/-- The next definition keeps what is stored as it should be. -/
lemma stores_of_compile (hkeys : (sheet.definitions.map fun e => e.body.key).Nodup)
    (hd : d ∈ sheet.definitions) {outcome : Outcome}
    (hstep : Context.compile ⟨config, sheet, scope⟩ d = .ok outcome)
    (hmore : Extends scope outcome.scope) (hdefined : StoresDefined sheet scope)
    (hstores : StoresPasted config sheet scope) :
    StoresDefined sheet outcome.scope ∧ StoresPasted config sheet outcome.scope := by
  have hkept : ∀ name declarations, get? scope.declarations name = some declarations →
      ∀ site own, ⟨site, .staticClass name own⟩ ∈ sheet.definitions →
        (∃ pasted, Pasted sheet own pasted) ∧ ∀ pasted, Pasted sheet own pasted →
          Yields ⟨config, sheet, outcome.scope⟩ pasted declarations := by
    intro name declarations hget site own hown
    obtain ⟨hpasted, hyields⟩ := hstores name declarations hget site own hown
    exact ⟨hpasted, fun pasted hp => (hyields pasted hp).extends hmore hp.properties⟩
  have hsame : outcome.scope.declarations = scope.declarations →
      StoresDefined sheet outcome.scope ∧ StoresPasted config sheet outcome.scope := by
    intro heq
    constructor
    · intro name declarations hget
      exact hdefined name declarations (heq ▸ hget)
    · intro name declarations hget
      exact hkept name declarations (heq ▸ hget)
  cases compile_eq_ok_iff.1 hstep with
  | @staticClass site name items parts _ _ hparts =>
    constructor
    · intro other declarations hget
      change get? (put scope.declarations _ _) other = _ at hget
      rw [get?_put] at hget
      split at hget
      · rename_i heq
        rw [heq]
        exact ⟨site, items, hd⟩
      · exact hdefined other declarations hget
    · intro other declarations hget site' own hown
      change get? (put scope.declarations _ _) other = _ at hget
      rw [get?_put] at hget
      split at hget
      · rename_i heq
        subst heq
        cases hget
        obtain rfl := staticClass_unique hkeys hd hown
        obtain ⟨hpasted, hyields⟩ := pasted_of_stores hdefined hstores hparts
        exact ⟨hpasted, fun pasted hp => (hyields pasted hp).extends hmore hp.properties⟩
      · exact hkept other declarations hget site' own hown
  | consts hscope =>
    obtain ⟨consts, rfl⟩ := scope_of_compileConsts hscope
    exact hsame rfl
  | _ => exact hsame rfl

/-- Along a run, what is stored belongs to a class, and is what its pasted parts stand for. -/
lemma stores_of_run (hkeys : (sheet.definitions.map fun e => e.body.key).Nodup)
    (hconsts : (sheet.names .const).Nodup) (hsplit : sheet.definitions = front ++ rest)
    (hfront : Sheet.compileFrom config sheet start {} front = (left, .ok scope)) :
    StoresDefined sheet scope ∧ StoresPasted config sheet scope := by
  induction front using List.reverseRecOn generalizing left scope rest with
  | nil =>
    cases hfront
    exact ⟨nofun, nofun⟩
  | append_singleton front d ih =>
    obtain ⟨left₀, scope₀, outcome, hbefore, hstep, hend⟩ := compileFrom_split hfront
    cases hend
    rw [List.append_assoc] at hsplit
    obtain ⟨hdefined, hstores⟩ := ih hsplit hbefore
    have hmore : Extends scope₀ outcome.scope :=
      extends_of_learns hkeys hconsts hsplit hbefore (learns_of_compile hstep)
    have hd : d ∈ sheet.definitions := by
      rw [hsplit]
      exact List.mem_append_right _ List.mem_cons_self
    exact stores_of_compile hkeys hd hstep hmore hdefined hstores

/-- Only the declarations that its parts stand for matter to a class. -/
lemma compileClass_congr {c : Context} {name : String} {site : Site}
    {items items' : List ClassItem} {parts parts' : List Declarations}
    (h : items.mapM (c.declarationsOf name site) = .ok parts)
    (h' : items'.mapM (c.declarationsOf name site) = .ok parts')
    (hsame : parts'.flatten = parts.flatten) :
    c.compileClass name site items' = c.compileClass name site items := by
  unfold Context.compileClass
  rw [h, h']
  dsimp only [bind, Except.bind]
  rw [hsame]

/-- In a sheet that compiles and has no two constants with one qualified name, the parts of a class
can be pasted, and nothing is left to be spliced then. The sheet with the pasted class compiles to
the same, into the same registry. -/
theorem compileInto_pasted {registry : Registry} {styles : Styles} {site : Site} {name : String}
    {items : List ClassItem} (h : sheet.compileInto config start = (registry, .ok styles))
    (hconsts : (sheet.names .const).Nodup)
    (hsplit : sheet.definitions = front ++ ⟨site, .staticClass name items⟩ :: rest) :
    (∃ pasted, Pasted sheet items pasted) ∧
      ∀ pasted, Pasted sheet items pasted →
        (∀ item ∈ pasted, ∃ property value, item = .property property value) ∧
        Sheet.compileInto config
          { sheet with definitions := front ++ ⟨site, .staticClass name pasted⟩ :: rest } start =
          (registry, .ok styles) := by
  obtain ⟨hcheck, final, hrun, hstyles⟩ := compileInto_eq_ok_iff.1 h
  obtain ⟨hvalid, hkeys⟩ := check_eq_ok_iff.1 hcheck
  have hwhole := hrun
  rw [hsplit] at hwhole
  obtain ⟨left, scope, outcome, hfront, hstep, hrest⟩ := compileFrom_split hwhole
  obtain ⟨hdefined, hstores⟩ := stores_of_run hkeys hconsts hsplit hfront
  obtain ⟨parts, hparts, _⟩ := bind_eq_ok hstep
  obtain ⟨hpasted, hyields⟩ := pasted_of_stores hdefined hstores hparts
  refine ⟨hpasted, fun pasted hp => ⟨hp.properties, ?_⟩⟩
  obtain ⟨parts', hparts', hsame⟩ := hyields pasted hp name site
  have hclass : Context.compile ⟨config, sheet, scope⟩ ⟨site, .staticClass name pasted⟩ =
      .ok outcome := (compileClass_congr hparts hparts' hsame).trans hstep
  have hpastedrun : Sheet.compileFrom config sheet start {}
      (front ++ ⟨site, .staticClass name pasted⟩ :: rest) = (registry, .ok final) := by
    rw [compileFrom_append hfront, Sheet.compileFrom, hclass]
    exact hrest
  rw [compileInto_eq_ok_iff]
  refine ⟨check_eq_ok_iff.2 ⟨hvalid, ?_⟩, final, compileFrom_sheet hpastedrun _, hstyles⟩
  have hsamekeys : (front ++ ⟨site, .staticClass name pasted⟩ :: rest).map (fun e => e.body.key) =
      sheet.definitions.map fun e => e.body.key := by
    rw [hsplit, List.map_append, List.map_append]
    rfl
  rw [hsamekeys]
  exact hkeys

end

def sizeItem : ClassItem :=
  .property "width" (.scalar (.ref ⟨.const, "size", "one"⟩))

def toneItem : ClassItem :=
  .property "color" (.scalar (.ref ⟨.var, "tone", "main"⟩))

def clearItem : ClassItem :=
  .property "opacity" (.scalar (.text "0"))

/-- A class that uses a constant, one that takes it over and uses a variable, and a last one. -/
def toneSheet (items : List ClassItem) : Sheet :=
  ⟨.unknown, [
    ⟨.unknown, .consts "size" [("one", .text "1px")]⟩,
    ⟨.unknown, .staticClass "base" [sizeItem]⟩,
    ⟨.unknown, .vars "tone" [("main", ⟨.scalar (.text "red"), none⟩)]⟩,
    ⟨.unknown, .staticClass "middle" [.splice "base", toneItem]⟩,
    ⟨.unknown, .staticClass "whole" items⟩]⟩

theorem compileInto_pasted_tone :
    ∃ registry styles,
      (toneSheet [clearItem, .splice "middle"]).compileInto {} .empty = (registry, .ok styles) ∧
      (toneSheet [clearItem, sizeItem, toneItem]).compileInto {} .empty =
        (registry, .ok styles) := by
  have hok : ((toneSheet [clearItem, .splice "middle"]).compileInto {} .empty).2.isOk = true := by
    decide +kernel
  obtain ⟨styles, hstyles⟩ := eq_ok_of_isOk hok
  have hcompiles : (toneSheet [clearItem, .splice "middle"]).compileInto {} .empty =
      (_, .ok styles) := Prod.ext rfl hstyles
  have hconsts : ((toneSheet [clearItem, .splice "middle"]).names .const).Nodup := by
    decide +kernel
  have hbase : ⟨.unknown, .staticClass "base" [sizeItem]⟩ ∈
      (toneSheet [clearItem, .splice "middle"]).definitions :=
    List.mem_cons_of_mem _ List.mem_cons_self
  have hmiddle : ⟨.unknown, .staticClass "middle" [.splice "base", toneItem]⟩ ∈
      (toneSheet [clearItem, .splice "middle"]).definitions :=
    List.mem_append_right [_, _, _] List.mem_cons_self
  have hpasted : Pasted (toneSheet [clearItem, .splice "middle"]) [clearItem, .splice "middle"]
      [clearItem, sizeItem, toneItem] :=
    .property (.splice hmiddle (.splice hbase (.property .nil) (.property .nil)) .nil)
  have hsplit : (toneSheet [clearItem, .splice "middle"]).definitions =
      (toneSheet []).definitions.take 4 ++
        ⟨.unknown, .staticClass "whole" [clearItem, .splice "middle"]⟩ :: [] := rfl
  obtain ⟨_, hsame⟩ := compileInto_pasted hcompiles hconsts hsplit
  exact ⟨_, styles, hcompiles, (hsame _ hpasted).2⟩

end AtomicCss.Proofs
