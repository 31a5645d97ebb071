import AtomicCss.Proofs.ConditionBlocks
import AtomicCss.Proofs.Steps

/-!
# The order of the overrides of a theme

A theme with its overrides in another order has the same blocks, since the declarations in a block
are sorted. The blocks themselves are not: behind the default one they stand in the order in which
their at-rules first appear. So the theme is the same if that order is, and only then are its
blocks.
-/

namespace AtomicCss.Proofs

open Keyed Context

/-- What a theme leaves behind, given its blocks. -/
def themeOutcome (c : Context) (space name : String) (blocks : Blocks) : Outcome :=
  let className := Naming.contentName c.config.classStart (themeText space blocks)
  { rules := [(className, .block .theme (themeCss className blocks))]
    scope :=
      { c.scope with
        styles :=
          { c.scope.styles with
            themes := put c.scope.styles.themes (qualified space name) className } } }

/-- The overrides of a theme, resolved. -/
def resolvedOverrides (c : Context) (space name : String) (site : Site) (overrides : Declarations) :
    Except StyleError (List (String × List (Option String × String))) :=
  overrides.mapM fun o => c.resolvedVar (qualified space name) site space o.1 o.2

/-- The at-rules of the values, in the order in which they first appear. -/
def conditionOrder (resolved : List (String × List (Option String × String))) :
    List (Option String) :=
  (atRulesOf (declared resolved)).filter Option.isSome

lemma compileTheme_iff_outcome {c : Context} {space name : String} {site : Site}
    {overrides : Declarations} {outcome : Outcome} :
    c.compile ⟨site, .theme space name overrides⟩ = .ok outcome ↔
      (∃ names, get? c.scope.varGroups space = some names ∧ ∀ o ∈ overrides, o.1 ∈ names) ∧
        ∃ resolved, resolvedOverrides c space name site overrides = .ok resolved ∧
          outcome = themeOutcome c space name (themeBlocks resolved) := by
  rw [compile_eq_ok_iff]
  constructor
  · intro h
    cases h with
    | theme hgroup hnames hresolved hname =>
      subst hname
      exact ⟨⟨_, hgroup, hnames⟩, _, hresolved, rfl⟩
  · rintro ⟨⟨names, hgroup, hnames⟩, resolved, hresolved, rfl⟩
    exact .theme hgroup hnames hresolved rfl

lemma sortTexts_eq_of_perm {texts others : List String} (h : others.Perm texts) :
    sortTexts others = sortTexts texts :=
  mergeSort_eq_of_perm (fun text => text) h fun _ _ _ _ heq => heq

lemma themeBlocks_eq (resolved : List (String × List (Option String × String))) :
    themeBlocks resolved = (blockOrder (declared resolved)).map fun atRule =>
      (atRule, sortTexts (within (declared resolved) atRule)) := by
  unfold themeBlocks
  dsimp only
  rw [foldl_addAll_eq_gathered, defaultFirst_gathered, List.map_map]
  rfl

section

variable {resolved others : List (String × List (Option String × String))}

/-- Values in another order make the same blocks. -/
lemma themeBlocks_of_perm (h : others.Perm resolved) :
    themeBlocks others = (blockOrder (declared others)).map fun atRule =>
      (atRule, sortTexts (within (declared resolved) atRule)) := by
  rw [themeBlocks_eq]
  apply List.map_congr_left
  intro atRule _
  have hitems : (declared others).Perm (declared resolved) := h.flatMap_right _
  have hblock : (within (declared others) atRule).Perm (within (declared resolved) atRule) :=
    (hitems.filter _).map _
  rw [sortTexts_eq_of_perm hblock]

lemma perm_atRulesOf (h : others.Perm resolved) :
    (atRulesOf (declared others)).Perm (atRulesOf (declared resolved)) := by
  rw [List.perm_ext_iff_of_nodup (nodup_atRulesOf _) (nodup_atRulesOf _)]
  intro atRule
  have hitems : (declared others).Perm (declared resolved) := h.flatMap_right _
  rw [mem_atRulesOf, mem_atRulesOf, (hitems.map _).mem_iff]

/-- There is at most one block without an at-rule, whatever the order. -/
lemma filter_isNone_eq (h : others.Perm resolved) :
    (atRulesOf (declared others)).filter Option.isNone =
      (atRulesOf (declared resolved)).filter Option.isNone := by
  have hall : ∀ ks : List (Option String), ks.Pairwise fun _ _ => True :=
    fun _ => List.pairwise_of_forall fun _ _ => trivial
  refine List.Perm.eq_of_pairwise ?_ (hall _) (hall _) ((perm_atRulesOf h).filter _)
  intro a b ha hb _ _
  rw [Option.isNone_iff_eq_none.1 (List.mem_filter.1 ha).2,
    Option.isNone_iff_eq_none.1 (List.mem_filter.1 hb).2]

lemma blockOrder_eq_iff (h : others.Perm resolved) :
    blockOrder (declared others) = blockOrder (declared resolved) ↔
      conditionOrder others = conditionOrder resolved := by
  unfold blockOrder conditionOrder
  rw [filter_isNone_eq h, List.append_cancel_left_eq]

lemma perm_blockOrder (h : others.Perm resolved) :
    (blockOrder (declared others)).Perm (blockOrder (declared resolved)) := by
  unfold blockOrder
  rw [filter_isNone_eq h]
  exact ((perm_atRulesOf h).filter _).append_left _

/-- The blocks are the same up to their order, which is that of the conditions. -/
lemma perm_themeBlocks (h : others.Perm resolved) :
    (themeBlocks others).Perm (themeBlocks resolved) ∧
      (themeBlocks others = themeBlocks resolved ↔
        conditionOrder others = conditionOrder resolved) := by
  rw [themeBlocks_of_perm h, themeBlocks_eq, ← blockOrder_eq_iff h]
  refine ⟨(perm_blockOrder h).map _, fun heq => ?_, fun heq => by rw [heq]⟩
  have hkeys := congrArg (List.map Prod.fst) heq
  simpa [Function.comp_def] using hkeys

end

/-- A theme that compiles also compiles with its overrides in any other order, to the same blocks up
to their order. They are the same in the same order, and so give the same class and the same text,
exactly if the at-rules of the values first appear in the same order. -/
theorem theme_of_permuted {c : Context} {space name : String} {site : Site}
    {overrides others : Declarations} {outcome : Outcome} (hperm : others.Perm overrides)
    (h : c.compile ⟨site, .theme space name overrides⟩ = .ok outcome) :
    ∃ resolved resolved',
      resolvedOverrides c space name site overrides = .ok resolved ∧
      resolvedOverrides c space name site others = .ok resolved' ∧
      outcome = themeOutcome c space name (themeBlocks resolved) ∧
      c.compile ⟨site, .theme space name others⟩ =
        .ok (themeOutcome c space name (themeBlocks resolved')) ∧
      (themeBlocks resolved').Perm (themeBlocks resolved) ∧
      (themeBlocks resolved' = themeBlocks resolved ↔
        conditionOrder resolved' = conditionOrder resolved) := by
  obtain ⟨⟨names, hgroup, hnames⟩, resolved, hresolved, rfl⟩ := compileTheme_iff_outcome.1 h
  obtain ⟨resolved', hothers, hsame⟩ := mapM_perm hperm hresolved
  have hnames' : ∀ o ∈ others, o.1 ∈ names := fun o ho => hnames o (hperm.mem_iff.1 ho)
  have hagain := compileTheme_iff_outcome.2 ⟨⟨names, hgroup, hnames'⟩, resolved', hothers, rfl⟩
  exact ⟨resolved, resolved', hresolved, hothers, rfl, hagain, perm_themeBlocks hsame⟩

/-- A place behind a group of two variables. -/
def inkContext : Context :=
  ⟨{}, .empty, withVars {} "x" "ink" ["text", "line"]⟩

/-- A value with another one under an at-rule. -/
def conditioned (atRule : String) : Value :=
  .map [("default", .scalar (.text "black")), (atRule, .scalar (.text "gray"))]

/-- Two overrides with values under at-rules. -/
def inkTheme (overrides : List (String × String)) : Definition :=
  ⟨.unknown, .theme "ink" "dim" (overrides.map fun o => (o.1, conditioned o.2))⟩

theorem theme_of_permuted_print :
    ∃ outcome,
      inkContext.compile (inkTheme [("text", "@media print"), ("line", "@media print")]) =
        .ok outcome ∧
      inkContext.compile (inkTheme [("line", "@media print"), ("text", "@media print")]) =
        .ok outcome := by
  have hok : (inkContext.compile
      (inkTheme [("text", "@media print"), ("line", "@media print")])).isOk = true := by
    decide +kernel
  obtain ⟨outcome, houtcome⟩ := eq_ok_of_isOk hok
  have hperm : ([("line", "@media print"), ("text", "@media print")].map
      fun o => (o.1, conditioned o.2)).Perm
        ([("text", "@media print"), ("line", "@media print")].map
          fun o => (o.1, conditioned o.2)) := .swap _ _ []
  obtain ⟨resolved, resolved', hresolved, hothers, rfl, hagain, _, hiff⟩ :=
    theme_of_permuted hperm houtcome
  have horder : ∀ overrides ∈ [[("text", "@media print"), ("line", "@media print")],
      [("line", "@media print"), ("text", "@media print")]],
      (resolvedOverrides inkContext "ink" "dim" .unknown
        (overrides.map fun o => (o.1, conditioned o.2))).toOption.map conditionOrder =
          some [some "@media print"] := by
    decide +kernel
  have hfirst := horder _ List.mem_cons_self
  have hsecond := horder _ (List.mem_cons_of_mem _ List.mem_cons_self)
  rw [hresolved] at hfirst
  rw [hothers] at hsecond
  rw [hiff.2 ((Option.some.inj hsecond).trans (Option.some.inj hfirst).symm)] at hagain
  exact ⟨_, houtcome, hagain⟩

/-- A value under an at-rule only. -/
def onlyUnder (atRule : String) : Value :=
  .map [(atRule, .scalar (.text "gray"))]

/-- Two overrides, each with a value under an at-rule of its own. -/
def paperOverrides : Declarations :=
  [("text", onlyUnder "@media print"), ("line", onlyUnder "@media screen")]

lemma themeBlocks_pair {a b : String} (hne : a ≠ b) (v w x y : String) :
    themeBlocks [(v, [(some a, x)]), (w, [(some b, y)])] =
      [(some a, [v ++ ":" ++ x]), (some b, [w ++ ":" ++ y])] := by
  have hitems : declared [(v, [(some a, x)]), (w, [(some b, y)])] =
      [(some a, v ++ ":" ++ x), (some b, w ++ ":" ++ y)] := rfl
  have hrules : atRulesOf [(some a, v ++ ":" ++ x), (some b, w ++ ":" ++ y)] =
      [some a, some b] := by
    change ([some a] ++ [some b]).eraseDups = _
    rw [eraseDups_append_of_notMem (by simpa using hne.symm)]
    rfl
  rw [themeBlocks_eq, hitems, blockOrder, hrules]
  simp [within, sortTexts, hne, hne.symm]

/-- With values under two at-rules the order of the overrides shows: the theme gets another class
and another text. -/
theorem theme_order_shows :
    ∃ outcome again,
      inkContext.compile ⟨.unknown, .theme "ink" "paper" paperOverrides⟩ = .ok outcome ∧
      inkContext.compile ⟨.unknown, .theme "ink" "paper" paperOverrides.reverse⟩ = .ok again ∧
      again.scope.styles.themes ≠ outcome.scope.styles.themes ∧
      again.rules.map (fun r => r.2.css) ≠ outcome.rules.map fun r => r.2.css := by
  let text := Naming.varName "x" "ink" "text"
  let line := Naming.varName "x" "ink" "line"
  have hnames : ∃ names, get? inkContext.scope.varGroups "ink" = some names ∧
      ∀ o ∈ paperOverrides, o.1 ∈ names := ⟨_, rfl, by decide +kernel⟩
  have hfirst : resolvedOverrides inkContext "ink" "paper" .unknown paperOverrides =
      .ok [(text, [(some "@media print", "gray")]), (line, [(some "@media screen", "gray")])] :=
    eq_ok_of_toOption (by decide +kernel)
  have hsecond : resolvedOverrides inkContext "ink" "paper" .unknown paperOverrides.reverse =
      .ok [(line, [(some "@media screen", "gray")]), (text, [(some "@media print", "gray")])] :=
    eq_ok_of_toOption (by decide +kernel)
  have hne : "@media print" ≠ "@media screen" := by decide
  have hblocks := themeBlocks_pair hne text line "gray" "gray"
  have hblocks' := themeBlocks_pair hne.symm line text "gray" "gray"
  refine ⟨_, _, compileTheme_iff_outcome.2 ⟨hnames, _, hfirst, rfl⟩,
    compileTheme_iff_outcome.2 ⟨by simpa using hnames, _, hsecond, rfl⟩, ?_, ?_⟩
  · rw [hblocks, hblocks']
    decide +kernel
  · rw [hblocks, hblocks']
    decide +kernel

end AtomicCss.Proofs
