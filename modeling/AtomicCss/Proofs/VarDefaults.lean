import AtomicCss.Proofs.RootBlocks

/-!
# Defaults stand in front of conditional values

The registry holds the blocks of variables in the order of the groups, the block of the defaults
first in each group. As blocks that read the same belong to one group, none of them was registered
for another group before. So the default of a variable is written out in front of its values under
at-rules, which would have no effect otherwise.
-/

namespace AtomicCss.Proofs

open Keyed Context Stylesheet

section

variable {config : Config} {sheet : Sheet} {start left : Registry} {scope result : Scope}
  {front rest : List Definition}

/-- A run only adds rules behind those that are there. -/
lemma rules_of_run {definitions : List Definition}
    (h : Sheet.compileFrom config sheet start scope definitions = (left, .ok result)) :
    ∃ more, left.rules = start.rules ++ more := by
  induction definitions generalizing start scope with
  | nil =>
    cases h
    exact ⟨[], (List.append_nil _).symm⟩
  | cons d ds ih =>
    obtain ⟨outcome, _, h⟩ := compileFrom_cons h
    obtain ⟨more, hmore⟩ := ih h
    rw [rules_insertAll, List.append_assoc] at hmore
    exact ⟨_, hmore⟩

/-- The only rules for variables are the blocks of groups. -/
lemma rootRule_of_compile {c : Context} {d : Definition} {outcome : Outcome}
    (h : c.compile d = .ok outcome) {r : NamedRule} (hr : r ∈ outcome.rules)
    (hkind : r.2.kind = .rootVars) :
    ∃ site space vars resolved, d = ⟨site, .vars space vars⟩ ∧
      vars.mapM (groupVar c space site vars) = .ok resolved ∧
      ∃ block ∈ groupBlocks resolved, r = rootRule c.config.classStart block := by
  have hentry : ∀ {m : ClassEntries}, r ∈ m.entries.filterMap Registry.ruleOf? → False := by
    intro m hmem
    obtain ⟨e, _, he⟩ := List.mem_filterMap.1 hmem
    obtain ⟨_, _, rfl⟩ := Option.map_eq_some_iff.1 he
    cases hkind
  cases compile_eq_ok_iff.1 h with
  | staticClass => exact (hentry hr).elim
  | dynamicClass =>
    rcases List.mem_append.1 hr with hr | hr
    · obtain ⟨_, _, rfl⟩ := List.mem_map.1 hr
      cases hkind
    · exact (hentry hr).elim
  | vars hnew hresolved =>
    rcases List.mem_append.1 hr with hr | hr
    · obtain ⟨var, _, hr⟩ := List.mem_filterMap.1 hr
      obtain ⟨_, _, rfl⟩ := Option.map_eq_some_iff.1 hr
      cases hkind
    · obtain ⟨block, hblock, rfl⟩ := List.mem_map.1 hr
      exact ⟨_, _, _, _, rfl, hresolved, block, hblock, rfl⟩
  | consts | marker => cases hr
  | theme | keyframes | positionTry | viewTransition =>
    rw [List.mem_singleton.1 hr] at hkind
    cases hkind

/-- The rules for variables that a run has registered are blocks of its groups. -/
lemma rootRule_of_run (hsplit : sheet.definitions = front ++ rest)
    (hrun : Sheet.compileFrom config sheet .empty {} front = (left, .ok scope)) {r : NamedRule}
    (hr : r ∈ left.rules) (hkind : r.2.kind = .rootVars) :
    ∃ before site space vars more resolved, front = before ++ ⟨site, .vars space vars⟩ :: more ∧
      GroupAt config sheet before site space vars resolved ∧
      ∃ block ∈ groupBlocks resolved, r = rootRule config.classStart block := by
  induction front using List.reverseRecOn generalizing left scope rest with
  | nil =>
    cases hrun
    cases hr
  | append_singleton front d ih =>
    obtain ⟨left₀, scope₀, outcome, hbefore, hstep, hend⟩ := compileFrom_split hrun
    cases hend
    rw [List.append_assoc] at hsplit
    rcases mem_insertAll hr with hr | hr
    · obtain ⟨before, site, space, vars, more, resolved, rfl, hgroup, hblock⟩ :=
        ih hsplit hbefore hr
      exact ⟨before, site, space, vars, more ++ [d], resolved, by simp, hgroup, hblock⟩
    · obtain ⟨site, space, vars, resolved, rfl, hresolved, hblock⟩ :=
        rootRule_of_compile hstep hr hkind
      exact ⟨front, site, space, vars, [], resolved, rfl,
        ⟨⟨rest, hsplit⟩, left₀, scope₀, hbefore, hresolved⟩, hblock⟩

end

/-- Blocks of the sheet that differ in their text differ in their digest. -/
def DigestsApart (config : Config) (sheet : Sheet) : Prop :=
  ∀ block block', IsRootBlock config sheet block → IsRootBlock config sheet block' →
    Digest.short (rootText block) = Digest.short (rootText block') →
    rootText block = rootText block'

section

variable {config : Config} {sheet : Sheet} {registry left : Registry} {final scope : Scope}
  {front : List Definition} {site : Site} {space : String} {vars : List (String × Var)}
  {resolved : List (String × Option VarType × List (Option String × String))}
  {block block' : Option String × List String}

lemma rootRule_eq_of_key (hdigest : DigestsApart config sheet)
    (hblock : IsRootBlock config sheet block) (hblock' : IsRootBlock config sheet block')
    (hkey : (rootRule config.classStart block).key = (rootRule config.classStart block').key) :
    rootText block = rootText block' := by
  apply hdigest block block' hblock hblock'
  have hnames : Naming.contentName config.classStart (rootText block) =
      Naming.contentName config.classStart (rootText block') := (Prod.mk.inj hkey).2
  exact (String.append_right_inj _).1 hnames

lemma rootRule_congr {start : String} (h : rootText block = rootText block') :
    rootRule start block = rootRule start block' := by
  rw [rootRule_eq, rootRule_eq, h]

/-- The whole run, cut behind a group. -/
lemma GroupAt.run (h : GroupAt config sheet front site space vars resolved)
    (hrun : Sheet.compileFrom config sheet .empty {} sheet.definitions = (registry, .ok final)) :
    ∃ left scope more,
      Sheet.compileFrom config sheet .empty {} front = (left, .ok scope) ∧
      registry.rules = (left.insertAll (groupRules config.classStart resolved)).rules ++ more := by
  obtain ⟨⟨rest, hsplit⟩, left, scope, hfront, hresolved⟩ := h
  rw [hsplit, compileFrom_append hfront] at hrun
  obtain ⟨outcome, hstep, hrest⟩ := compileFrom_cons hrun
  cases compile_eq_ok_iff.1 hstep with
  | vars _ hresults =>
    obtain rfl := Except.ok.inj (hresolved.symm.trans hresults)
    obtain ⟨more, hmore⟩ := rules_of_run hrest
    exact ⟨left, scope, more, hfront, hmore⟩

/-- Every block of a group is registered. -/
lemma GroupAt.registered (h : GroupAt config sheet front site space vars resolved)
    (hrun : Sheet.compileFrom config sheet .empty {} sheet.definitions = (registry, .ok final))
    (hdigest : DigestsApart config sheet) (hblock : block ∈ groupBlocks resolved) :
    rootRule config.classStart block ∈ ofKind .rootVars registry.rules := by
  obtain ⟨left, scope, more, _, hrules⟩ := h.run hrun
  have hoffered : rootRule config.classStart block ∈ groupRules config.classStart resolved :=
    List.mem_append_right _ (List.mem_map_of_mem hblock)
  obtain ⟨found, hfound, hkey⟩ := List.any_eq_true.1 (contains_insertAll (r := left) hoffered)
  have hkey : found.key = (rootRule config.classStart block).key := of_decide_eq_true hkey
  have hmem : found ∈ registry.rules := hrules ▸ List.mem_append_left _ hfound
  have hkind : found.2.kind = .rootVars := (Prod.mk.inj hkey).1
  obtain ⟨_, _, _, _, _, _, _, hgroup, block', hblock', rfl⟩ :=
    rootRule_of_run (List.append_nil _).symm hrun hmem hkind
  have htext := rootRule_eq_of_key hdigest ⟨_, _, _, _, _, hgroup, hblock'⟩
    ⟨_, _, _, _, _, h, hblock⟩ hkey
  rw [← rootRule_congr htext]
  exact mem_ofKind.2 ⟨hmem, rfl⟩

/-- No block of a group is registered in front of the group. -/
lemma GroupAt.free (h : GroupAt config sheet front site space vars resolved)
    (hcheck : sheet.check config = .ok ()) (hnames : DistinctVars config sheet)
    (hdigest : DigestsApart config sheet)
    (hfront : Sheet.compileFrom config sheet .empty {} front = (left, .ok scope))
    (hblock : block ∈ groupBlocks resolved) {r : NamedRule} (hr : r ∈ left.rules) :
    r.key ≠ (rootRule config.classStart block).key := by
  intro hkey
  obtain ⟨hvalid, hkeys⟩ := check_eq_ok_iff.1 hcheck
  obtain ⟨rest, hsplit⟩ := h.split
  obtain ⟨before, _, space', _, more, _, hsame, hgroup, block', hblock', rfl⟩ :=
    rootRule_of_run hsplit hfront hr (Prod.mk.inj hkey).1
  have htext := rootRule_eq_of_key hdigest ⟨_, _, _, _, _, hgroup, hblock'⟩
    ⟨_, _, _, _, _, h, hblock⟩ hkey
  obtain rfl : space' = space := space_of_rootText_eq hvalid hnames hgroup h hblock' hblock htext
  -- the other group would be the same one, and stand in front of itself
  obtain ⟨rfl, _⟩ := hgroup.unique hkeys h
  have hlength := congrArg List.length hsame
  simp at hlength

end

end AtomicCss.Proofs
