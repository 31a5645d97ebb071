import AtomicCss.Proofs.ConditionBlocks
import AtomicCss.Proofs.ContentAddress
import AtomicCss.Proofs.EmittedClasses
import AtomicCss.Proofs.RuleCore

/-!
# The blocks of variables

A group of variables has one block for each at-rule of its values. Every block begins with a
declaration of some variable of the group, and this variable can be read off the text of the block.
So blocks that read the same belong to one group, as long as variables have different custom
properties.
-/

namespace AtomicCss.Proofs

open Keyed Context

/-- The blocks of a group, given what its variables resolve to. -/
def groupBlocks (resolved : List (String × Option VarType × List (Option String × String))) :
    Blocks :=
  Blocks.defaultFirst (resolved.foldl (fun blocks var => blocks.addAll var.1 var.2.2) [])

/-- The declarations of a group, each with the at-rule around it. -/
def groupItems (resolved : List (String × Option VarType × List (Option String × String))) :
    List (Option String × String) :=
  declared (resolved.map fun var => (var.1, var.2.2))

/-- The text of a block of variables. -/
def rootText (block : Option String × List String) : String :=
  wrapAtRules block.1 (braced ":root" (String.intercalate ";" block.2))

lemma rootRule_eq (start : String) (block : Option String × List String) :
    rootRule start block =
      (Naming.contentName start (rootText block), .block .rootVars (rootText block)) :=
  rfl

lemma groupBlocks_eq (resolved : List (String × Option VarType × List (Option String × String))) :
    groupBlocks resolved = (blockOrder (groupItems resolved)).map fun atRule =>
      (atRule, within (groupItems resolved) atRule) := by
  unfold groupBlocks
  rw [← defaultFirst_gathered, groupItems, ← foldl_addAll_eq_gathered, List.foldl_map]

/-- A group at its place in the sheet, with what its variables resolve to there. -/
structure GroupAt (config : Config) (sheet : Sheet) (front : List Definition) (site : Site)
    (space : String) (vars : List (String × Var))
    (resolved : List (String × Option VarType × List (Option String × String))) : Prop where
  split : ∃ rest, sheet.definitions = front ++ ⟨site, .vars space vars⟩ :: rest
  resolves : ∃ left scope,
    Sheet.compileFrom config sheet .empty {} front = (left, .ok scope) ∧
      vars.mapM (groupVar ⟨config, sheet, scope⟩ space site vars) = .ok resolved

/-- A block of some group of the sheet. -/
def IsRootBlock (config : Config) (sheet : Sheet) (block : Option String × List String) : Prop :=
  ∃ front site space vars resolved, GroupAt config sheet front site space vars resolved ∧
    block ∈ groupBlocks resolved

section

variable {config : Config} {sheet : Sheet} {front other : List Definition} {site site' : Site}
  {space : String} {vars others : List (String × Var)}
  {resolved results : List (String × Option VarType × List (Option String × String))}

/-- Where keys do not repeat, an item stands at one place. -/
lemma split_unique {α β : Type} {key : α → β} {front back front' back' : List α} {d d' : α}
    (hkeys : ((front ++ d :: back).map key).Nodup)
    (heq : front ++ d :: back = front' ++ d' :: back') (hkey : key d' = key d) :
    front = front' ∧ d = d' := by
  rw [List.map_append, List.map_cons] at hkeys
  have hnew := (List.nodup_cons.1 (List.nodup_middle.1 hkeys)).1
  rw [List.mem_append, not_or] at hnew
  have habsent : ∀ {items : List α}, key d ∉ items.map key → d' ∉ items :=
    fun h hmem => h (hkey ▸ List.mem_map_of_mem hmem)
  obtain ⟨hfront, hd, _⟩ :=
    (List.append_cons_inj_of_notMem (habsent hnew.1) (habsent hnew.2)).1 heq
  exact ⟨hfront, hd⟩

/-- A namespace has one group, at one place, and this resolves to one thing. -/
lemma GroupAt.unique (hkeys : (sheet.definitions.map fun d => d.body.key).Nodup)
    (h : GroupAt config sheet front site space vars resolved)
    (hother : GroupAt config sheet other site' space others results) :
    front = other ∧ resolved = results := by
  obtain ⟨⟨rest, hsplit⟩, left, scope, hrun, hresolved⟩ := h
  obtain ⟨⟨rest', hsplit'⟩, left', scope', hrun', hresults⟩ := hother
  rw [hsplit] at hkeys
  obtain ⟨rfl, hd⟩ := split_unique hkeys (hsplit.symm.trans hsplit') rfl
  cases hd
  cases hrun.symm.trans hrun'
  exact ⟨rfl, Except.ok.inj (hresolved.symm.trans hresults)⟩

end

lemma colon_notMem_varName {config : Config} (hvalid : config.validate = .ok ())
    (space name : String) : ':' ∉ (Naming.varName config.classStart space name).toList := by
  rw [Naming.varName, String.toList_append, List.mem_append]
  rintro (hdash | hcolon)
  · revert hdash
    decide
  · have hname := nameChar_of_mem_contentName hvalid hcolon
    revert hname
    decide

section

variable {definition customProperty : String} {value : Value}
  {values : List (Option String × String)}

lemma clear_of_conditionalVar {leaf : Declaration.Leaf} {v : Option String × String}
    (h : conditionalVar definition customProperty leaf = .ok v) : ClearAtRule v.1 := by
  unfold conditionalVar at h
  split at h
  · cases h
  · cases h
  · rename_i hparsed
    split at h
    · cases h
    · obtain ⟨_, _, rfl⟩ := map_eq_ok h
      exact clearAtRule_of_parse hparsed

/-- The at-rules of the values of a variable are clear. -/
lemma clear_of_varValues (h : varValues definition customProperty value = .ok values) :
    ∀ v ∈ values, ClearAtRule v.1 := by
  intro v hv
  cases value with
  | unset => cases h
  | map entries =>
    obtain ⟨leaves, _, h⟩ := bind_eq_ok h
    obtain ⟨leaf, _, hleaf⟩ := exists_of_forall₂ (mapM_eq_ok h) hv
    exact clear_of_conditionalVar hleaf
  | scalar | fallback | firstThatWorks =>
    obtain ⟨text, _, rfl⟩ := map_eq_ok h
    rw [List.mem_singleton.1 hv]
    exact nofun

end

section

variable {config : Config} {sheet : Sheet} {front : List Definition} {site : Site}
  {space : String} {vars : List (String × Var)}
  {resolved : List (String × Option VarType × List (Option String × String))}

/-- What the variables of a group resolve to. -/
lemma GroupAt.var (h : GroupAt config sheet front site space vars resolved)
    {found : String × Option VarType × List (Option String × String)} (hfound : found ∈ resolved) :
    ∃ name, (space, name) ∈ sheet.targets .var ∧
      found.1 = Naming.varName config.classStart space name ∧
      ∀ v ∈ found.2.2, ClearAtRule v.1 := by
  obtain ⟨⟨rest, hsplit⟩, left, scope, _, hresolved⟩ := h
  obtain ⟨item, hitem, hgives⟩ := exists_of_forall₂ (mapM_eq_ok hresolved) hfound
  obtain ⟨⟨custom, values⟩, hvar, hgives⟩ := bind_eq_ok hgives
  cases hgives
  obtain ⟨value, _, hvar⟩ := bind_eq_ok hvar
  obtain ⟨values', hvalues, hvar⟩ := bind_eq_ok hvar
  cases hvar
  refine ⟨item.1, ?_, rfl, clear_of_varValues hvalues⟩
  rw [Sheet.targets, hsplit]
  exact List.mem_flatMap.2 ⟨_, List.mem_append_right _ List.mem_cons_self,
    List.mem_map.2 ⟨item, hitem, rfl⟩⟩

lemma mem_groupItems {item : Option String × String} : item ∈ groupItems resolved ↔
    ∃ found ∈ resolved, ∃ v ∈ found.2.2, item = (v.1, found.1 ++ ":" ++ v.2) := by
  unfold groupItems declared
  simp only [List.mem_flatMap, List.mem_map, exists_exists_and_eq_and]
  constructor
  · rintro ⟨found, hfound, v, hv, rfl⟩
    exact ⟨found, hfound, v, hv, rfl⟩
  · rintro ⟨found, hfound, v, hv, rfl⟩
    exact ⟨found, hfound, v, hv, rfl⟩

lemma mem_within {items : List (Option String × String)} {atRule : Option String} {text : String} :
    text ∈ within items atRule ↔ (atRule, text) ∈ items := by
  unfold within
  simp only [List.mem_map, List.mem_filter, decide_eq_true_eq]
  constructor
  · rintro ⟨⟨rule, t⟩, ⟨hitem, rfl⟩, rfl⟩
    exact hitem
  · exact fun hitem => ⟨_, ⟨hitem, rfl⟩, rfl⟩

lemma mem_groupBlocks {block : Option String × List String} :
    block ∈ groupBlocks resolved ↔ block.1 ∈ atRulesOf (groupItems resolved) ∧
      block.2 = within (groupItems resolved) block.1 := by
  rw [groupBlocks_eq, List.mem_map]
  constructor
  · rintro ⟨atRule, hrule, rfl⟩
    exact ⟨mem_blockOrder.1 hrule, rfl⟩
  · rintro ⟨hrule, hblock⟩
    exact ⟨block.1, mem_blockOrder.2 hrule, by rw [← hblock]⟩

/-- A block begins with a declaration of some variable of its group, inside clear at-rules. -/
lemma GroupAt.block (h : GroupAt config sheet front site space vars resolved)
    {block : Option String × List String} (hblock : block ∈ groupBlocks resolved) :
    ClearAtRule block.1 ∧ ∃ name text rest, (space, name) ∈ sheet.targets .var ∧
      block.2 = (Naming.varName config.classStart space name ++ ":" ++ text) :: rest := by
  obtain ⟨hrule, hdeclarations⟩ := mem_groupBlocks.1 hblock
  have hdeclared : ∀ text ∈ block.2, (block.1, text) ∈ groupItems resolved := by
    intro text htext
    rw [hdeclarations] at htext
    exact mem_within.1 htext
  cases hlist : block.2 with
  | nil =>
    obtain ⟨item, hitem, hitemrule⟩ := List.mem_map.1 (mem_atRulesOf.1 hrule)
    have hmem : item.2 ∈ block.2 := by
      rw [hdeclarations]
      exact mem_within.2 (hitemrule ▸ hitem)
    rw [hlist] at hmem
    cases hmem
  | cons first rest =>
    obtain ⟨found, hfound, v, hv, heq⟩ :=
      mem_groupItems.1 (hdeclared first (hlist ▸ List.mem_cons_self))
    obtain ⟨hv1, rfl⟩ := Prod.mk.inj heq
    obtain ⟨name, htarget, hname, hclear⟩ := h.var hfound
    exact ⟨hv1 ▸ hclear v hv, name, v.2, rest, htarget, by rw [hname]⟩

end

/-- Different variables have different custom properties. -/
def DistinctVars (config : Config) (sheet : Sheet) : Prop :=
  ∀ t ∈ sheet.targets .var, ∀ t' ∈ sheet.targets .var,
    Naming.varName config.classStart t.1 t.2 = Naming.varName config.classStart t'.1 t'.2 → t = t'

/-- A text between separators begins with the first of its parts. -/
lemma exists_intercalate_cons (separator first : String) (rest : List String) :
    ∃ more, (String.intercalate separator (first :: rest)).toList = first.toList ++ more := by
  rw [String.toList_intercalate, List.map_cons]
  cases rest with
  | nil => exact ⟨[], by simp [List.intercalate]⟩
  | cons second rest => exact ⟨_, by simp [List.intercalate]; rfl⟩

section

variable {config : Config} {sheet : Sheet} {front front' : List Definition} {site site' : Site}
  {space space' : String} {vars vars' : List (String × Var)}
  {resolved resolved' : List (String × Option VarType × List (Option String × String))}
  {block block' : Option String × List String}

/-- The text in front of which a declaration ends names its variable. -/
lemma target_of_declaration (hvalid : config.validate = .ok ()) (hnames : DistinctVars config sheet)
    {name name' : String} (htarget : (space, name) ∈ sheet.targets .var)
    (htarget' : (space', name') ∈ sheet.targets .var) {rest rest' : List Char}
    (heq : (Naming.varName config.classStart space name).toList ++ ':' :: rest =
      (Naming.varName config.classStart space' name').toList ++ ':' :: rest') :
    (space, name) = (space', name') := by
  obtain ⟨hcustom, _⟩ := eq_of_delimited (colon_notMem_varName hvalid space name)
    (colon_notMem_varName hvalid space' name') heq
  exact hnames _ htarget _ htarget' (String.toList_injective hcustom)

/-- Blocks that read the same belong to one group. -/
lemma space_of_rootText_eq (hvalid : config.validate = .ok ()) (hnames : DistinctVars config sheet)
    (h : GroupAt config sheet front site space vars resolved)
    (h' : GroupAt config sheet front' site' space' vars' resolved')
    (hblock : block ∈ groupBlocks resolved) (hblock' : block' ∈ groupBlocks resolved')
    (heq : rootText block = rootText block') : space = space' := by
  obtain ⟨hclear, name, text, rest, htarget, hlist⟩ := h.block hblock
  obtain ⟨hclear', name', text', rest', htarget', hlist'⟩ := h'.block hblock'
  obtain ⟨closing, closing', hrules⟩ := append_eq_of_wrapAtRules hclear hclear'
    (head_braced rfl (String.intercalate ";" block.2))
    (head_braced rfl (String.intercalate ";" block'.2)) heq
  obtain ⟨more, hmore⟩ := exists_intercalate_cons ";"
    (Naming.varName config.classStart space name ++ ":" ++ text) rest
  obtain ⟨more', hmore'⟩ := exists_intercalate_cons ";"
    (Naming.varName config.classStart space' name' ++ ":" ++ text') rest'
  rw [hlist, hlist'] at hrules
  unfold braced at hrules
  simp only [String.toList_append, hmore, hmore', List.append_assoc] at hrules
  have hcustoms := List.append_cancel_left (List.append_cancel_left hrules)
  have htargets := target_of_declaration hvalid hnames htarget htarget' hcustoms
  exact (Prod.mk.inj htargets).1

end

end AtomicCss.Proofs
