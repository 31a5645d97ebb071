import AtomicCss.Proofs.RuleSources
import Mathlib.Data.List.Flatten
import Mathlib.Data.List.Sort

/-!
# Registries that sheets share

What a sheet offers to a registry does not depend on what is there already. So a compilation only
adds rules behind the old ones, what was written out before keeps its text and its order, and
compiling the same sheet again adds nothing.
-/

namespace AtomicCss.Proofs

open Registry Stylesheet

lemma registry_ext {r s : Registry} (h : r.rules = s.rules) : r = s := by
  cases r
  cases s
  subst h
  rfl

lemma insertAll_append (r : Registry) (rules more : List NamedRule) :
    r.insertAll (rules ++ more) = (r.insertAll rules).insertAll more :=
  List.foldl_append

/-- Rules that are offered a second time are there already. -/
lemma insertAll_insertAll (r : Registry) (rules : List NamedRule) :
    (r.insertAll rules).insertAll rules = r.insertAll rules := by
  have hnone : (firsts rules).filter
      (fun x => !(r.insertAll rules).contains x.2.kind x.1) = [] := by
    apply List.filter_eq_nil_iff.2
    intro x hx
    simp [contains_insertAll (r := r) (mem_firsts hx)]
  apply registry_ext
  rw [rules_insertAll (r.insertAll rules), hnone, List.append_nil]

/-- Definitions offer the same rules to every registry, up to the first that fails. -/
lemma compileFrom_insertAll (config : Config) (sheet : Sheet) (scope : Scope)
    (definitions : List Definition) : ∃ rules result, ∀ registry,
      Sheet.compileFrom config sheet registry scope definitions =
        (registry.insertAll rules, result) := by
  induction definitions generalizing scope with
  | nil => exact ⟨[], .ok scope, fun _ => rfl⟩
  | cons d ds ih =>
    cases hstep : Context.compile ⟨config, sheet, scope⟩ d with
    | error e =>
      refine ⟨[], .error e, fun registry => ?_⟩
      rw [Sheet.compileFrom, hstep]
      rfl
    | ok outcome =>
      obtain ⟨rules, result, hrest⟩ := ih outcome.scope
      refine ⟨outcome.rules ++ rules, result, fun registry => ?_⟩
      rw [Sheet.compileFrom, hstep, insertAll_append]
      exact hrest (registry.insertAll outcome.rules)

/-- The compiled sheet over a registry. -/
def writtenOver (config : Config) (registry : Registry) (scope : Scope) : Styles :=
  { scope.styles with rules := emit registry config.layers }

lemma compileInto_insertAll (config : Config) (sheet : Sheet) : ∃ rules result, ∀ registry,
    sheet.compileInto config registry = (registry.insertAll rules,
      Except.map (writtenOver config (registry.insertAll rules)) result) := by
  cases hcheck : sheet.check config with
  | error e =>
    refine ⟨[], .error e, fun registry => ?_⟩
    rw [Sheet.compileInto, hcheck]
    rfl
  | ok _ =>
    obtain ⟨rules, result, hrun⟩ := compileFrom_insertAll config sheet {} sheet.definitions
    refine ⟨rules, result, fun registry => ?_⟩
    rw [Sheet.compileInto, hcheck]
    dsimp only
    rw [hrun]
    rfl

/-- A sheet that is compiled once more into the registry that it left finds all of its rules there:
the registry stays as it is, and the compiled sheet is the same. -/
theorem compileInto_again {config : Config} {sheet : Sheet} {start registry : Registry}
    {styles : Styles} (h : sheet.compileInto config start = (registry, .ok styles)) :
    sheet.compileInto config registry = (registry, .ok styles) := by
  obtain ⟨rules, result, hcompile⟩ := compileInto_insertAll config sheet
  rw [hcompile] at h ⊢
  obtain ⟨rfl, hresult⟩ := Prod.mk.inj h
  rw [insertAll_insertAll, hresult]

/-- A variable, a theme that overrides it, and a class with a plain and a conditional value. -/
def tonedSheet : Sheet :=
  Sheet.empty
    |>.define (.vars "tone" [("main", ⟨.scalar (.text "red"), none⟩)])
    |>.define (.theme "tone" "dark" [("main", .scalar (.text "navy"))])
    |>.define (.staticClass "one" [.property "color" (.scalar (.text "red")),
      .property "float" (.map [("default", .scalar (.text "start")), (":hover", .unset)])])

/-- A registry in which the key of one of these rules is taken by a foreign one. -/
def takenRegistry : Registry :=
  Registry.empty.insertAll
    [("x59c6b15", ⟨.atomic, ".x59c6b15\x7bcolor:blue\x7d", none, 0, "color", "", 1⟩),
      ("other", .block .theme ".other\x7b\x7d")]

theorem compileInto_again_taken :
    ∃ registry styles, tonedSheet.compileInto {} takenRegistry = (registry, .ok styles) ∧
      tonedSheet.compileInto {} registry = (registry, .ok styles) ∧
      registry.rules.map Prod.fst = ["x59c6b15", "other", "xd6728fe", "x9efed45", "x630410f"] := by
  have hok : (tonedSheet.compileInto {} takenRegistry).2.isOk = true := by decide +kernel
  have hnames : (tonedSheet.compileInto {} takenRegistry).1.rules.map Prod.fst =
      ["x59c6b15", "other", "xd6728fe", "x9efed45", "x630410f"] := by
    decide +kernel
  obtain ⟨styles, hstyles⟩ := eq_ok_of_isOk hok
  have hfirst : tonedSheet.compileInto {} takenRegistry =
      ((tonedSheet.compileInto {} takenRegistry).1, .ok styles) :=
    Prod.ext rfl hstyles
  exact ⟨_, styles, hfirst, compileInto_again hfirst, hnames⟩

/-- The keys of two rules stand in this order. -/
def Precedes (a b : NamedRule) : Prop :=
  (orderKey a).compare (orderKey b) = .lt

instance : DecidableRel Precedes :=
  fun a b => inferInstanceAs (Decidable ((orderKey a).compare (orderKey b) = .lt))

instance : Std.Antisymm Precedes where
  antisymm a b hab hba := by
    unfold Precedes at hab hba
    rw [compare_swap (orderKey a) (orderKey b), hab] at hba
    cases hba

lemma nodup_of_precedes {rules : List NamedRule} (h : rules.Pairwise Precedes) : rules.Nodup := by
  apply h.imp
  rintro a _ hlt rfl
  rw [Precedes, compare_self] at hlt
  cases hlt

/-- Sorted rules do not change their order when others come in between. -/
lemma sublist_of_precedes {rules more : List NamedRule} (hrules : rules.Pairwise Precedes)
    (hmore : more.Pairwise Precedes) (h : rules ⊆ more) : rules.Sublist more :=
  List.sublist_of_subperm_of_pairwise (List.subperm_of_subset (nodup_of_precedes hrules) h)
    hrules hmore

lemma sortedAtomic_sublist {r s : Registry} (h : r.rules ⊆ s.rules) :
    (sortedAtomic r.rules).Sublist (sortedAtomic s.rules) := by
  apply sublist_of_precedes (increasing_sortedAtomic r.distinct)
    (increasing_sortedAtomic s.distinct)
  intro x hx
  obtain ⟨hmem, hkind⟩ := mem_sortedAtomic.1 hx
  exact mem_sortedAtomic.2 ⟨h hmem, hkind⟩

lemma ofKinds_sublist {rules more : List NamedRule} (h : rules.Sublist more)
    (kinds : List RuleKind) : (ofKinds kinds rules).Sublist (ofKinds kinds more) :=
  List.Sublist.flatMap_right kinds fun _ _ => h.filter _

lemma layerStatement_sublist (layers : Bool) {atomics more : List NamedRule}
    (h : atomics.Sublist more) :
    (layerStatement layers atomics).Sublist (layerStatement layers more) := by
  unfold layerStatement
  split
  · rename_i hdeclared
    have hmore : more ≠ [] := by
      rintro rfl
      exact hdeclared.2 (List.sublist_nil.1 h)
    rw [if_pos ⟨hdeclared.1, hmore⟩]
  · exact List.nil_sublist _

/-- More rules leave what is written out of the old ones in its order. -/
lemma emit_sublist {r s : Registry} (h : r.rules.Sublist s.rules) (layers : Bool) :
    (emit r layers).Sublist (emit s layers) := by
  have hatomics : (sortedAtomic r.rules).Sublist (sortedAtomic s.rules) :=
    sortedAtomic_sublist h.subset
  have hbefore := (ofKinds_sublist h kindsBeforeAtomic).map plainRule
  have hthemes := (h.filter fun x => x.2.kind = .theme).map plainRule
  rw [emit_eq, emit_eq]
  exact ((hbefore.append (layerStatement_sublist layers hatomics)).append
    (hatomics.flatMap (atomicRules layers))).append hthemes

lemma rules_prefix_insertAll (r : Registry) (rules : List NamedRule) :
    r.rules <+: (r.insertAll rules).rules := by
  rw [rules_insertAll]
  exact List.prefix_append _ _

/-- A compilation, whether it succeeds or fails, leaves the rules that are there under their keys,
in their order and ahead of the new ones, and everything that was written out before is still
written out in the same order. -/
theorem compileInto_grows (config : Config) (sheet : Sheet) (start : Registry) :
    start.rules <+: (sheet.compileInto config start).1.rules ∧
    (∀ kind name rule, start.get? kind name = some rule →
      (sheet.compileInto config start).1.get? kind name = some rule) ∧
    (∀ layers, (emit start layers).Sublist (emit (sheet.compileInto config start).1 layers)) ∧
    ∀ styles, (sheet.compileInto config start).2 = .ok styles →
      (emit start config.layers).Sublist styles.rules := by
  obtain ⟨rules, result, hcompile⟩ := compileInto_insertAll config sheet
  rw [hcompile]
  have hahead := rules_prefix_insertAll start rules
  have hemit : ∀ layers, (emit start layers).Sublist (emit (start.insertAll rules) layers) :=
    emit_sublist hahead.sublist
  refine ⟨hahead, fun kind name rule => registry_get?_insertAll rules, hemit, ?_⟩
  intro styles hstyles
  obtain ⟨scope, _, rfl⟩ := map_eq_ok hstyles
  exact hemit config.layers

end AtomicCss.Proofs
