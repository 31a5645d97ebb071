import AtomicCss.Proofs.Compilation

/-!
# The order of atomic rules

Written out, atomic rules stand in the order of their keys. Conditions of one property that differ
in their at-rules only have keys that differ in the class name only, so it is the digests and not
the source that order their rules.
-/

namespace AtomicCss.Proofs

open Keyed Declaration Stylesheet

lemma compare_def : RuleKey.compare = compareLex (compareOn RuleKey.priority)
    (compareLex (compareOn RuleKey.property)
      (compareLex (compareOn RuleKey.selector) (compareOn RuleKey.className))) := rfl

instance : Std.TransCmp RuleKey.compare :=
  compare_def ▸ inferInstanceAs (Std.TransCmp (compareLex _ _))

lemma le_trans_key {a b c : RuleKey} (hab : a.le b = true) (hbc : b.le c = true) :
    a.le c = true :=
  Std.TransCmp.isLE_trans hab hbc

lemma compare_swap (a b : RuleKey) : b.compare a = (a.compare b).swap :=
  Std.OrientedCmp.eq_swap

lemma compare_self (a : RuleKey) : a.compare a = .eq :=
  Std.ReflCmp.compare_self

lemma le_total_key (a b : RuleKey) : (a.le b || b.le a) = true := by
  unfold RuleKey.le
  rw [compare_swap a b]
  cases a.compare b <;> rfl

lemma pairwise_sortedAtomic (rules : List NamedRule) :
    (sortedAtomic rules).Pairwise fun a b => (orderKey a).le (orderKey b) = true := by
  apply List.pairwise_mergeSort
  · intro a b c
    exact le_trans_key
  · intro a b
    exact le_total_key _ _

lemma mem_sortedAtomic {rules : List NamedRule} {r : NamedRule} :
    r ∈ sortedAtomic rules ↔ r ∈ rules ∧ r.2.kind = .atomic := by
  unfold sortedAtomic ofKind
  rw [List.mem_mergeSort, List.mem_filter]
  simp

/-- In a sorted list the smaller of two members stands in front. -/
lemma split_of_pairwise {rules : List NamedRule} {a b : NamedRule}
    (hsorted : rules.Pairwise fun a b => (orderKey a).le (orderKey b) = true) (ha : a ∈ rules)
    (hb : b ∈ rules) (hlt : (orderKey a).compare (orderKey b) = .lt) :
    ∃ pre mid post, rules = pre ++ a :: mid ++ b :: post := by
  have hnot : (orderKey b).le (orderKey a) = false := by
    unfold RuleKey.le
    rw [compare_swap (orderKey a) (orderKey b), hlt]
    rfl
  induction rules with
  | nil => cases ha
  | cons r rest ih =>
    obtain ⟨hhead, hrest⟩ := List.pairwise_cons.1 hsorted
    rcases List.mem_cons.1 ha with rfl | ha'
    · rcases List.mem_cons.1 hb with rfl | hb'
      · rw [compare_self] at hlt
        cases hlt
      · obtain ⟨mid, post, rfl⟩ := List.append_of_mem hb'
        exact ⟨[], mid, post, rfl⟩
    · rcases List.mem_cons.1 hb with rfl | hb'
      · rw [hhead a ha'] at hnot
        cases hnot
      · obtain ⟨pre, mid, post, rfl⟩ := ih hrest ha' hb'
        exact ⟨r :: pre, mid, post, rfl⟩

/-- One rule, with its twin, is written out in front of another. -/
def WrittenBefore (layers : Bool) (rules : List CssRule) (a b : NamedRule) : Prop :=
  ∃ pre mid post, rules = pre ++ atomicRules layers a ++ mid ++ atomicRules layers b ++ post

/-- Atomic rules are written in the order of their keys. -/
lemma writtenBefore_of_compare {registry : Registry} (layers : Bool) {a b : NamedRule}
    (ha : registry.get? .atomic a.1 = some a.2) (hb : registry.get? .atomic b.1 = some b.2)
    (hlt : (orderKey a).compare (orderKey b) = .lt) :
    WrittenBefore layers (emit registry layers) a b := by
  have hmem : ∀ {r : NamedRule}, registry.get? .atomic r.1 = some r.2 →
      r ∈ sortedAtomic registry.rules := fun h =>
    mem_sortedAtomic.2 (registry_get?_eq_some_iff.1 h)
  obtain ⟨pre, mid, post, hsplit⟩ :=
    split_of_pairwise (pairwise_sortedAtomic registry.rules) (hmem ha) (hmem hb) hlt
  unfold emit atomicPart
  dsimp only
  rw [hsplit]
  refine ⟨kindsBeforeAtomic.flatMap (fun kind => blocks kind registry.rules) ++
    (if layers && !(pre ++ a :: mid ++ b :: post).isEmpty then [layerOrder] else []) ++
      pre.flatMap (atomicRules layers), mid.flatMap (atomicRules layers),
    post.flatMap (atomicRules layers) ++ blocks .theme registry.rules, ?_⟩
  simp only [List.flatMap_append, List.flatMap_cons, List.append_assoc]

/-- The priority of an entry that is no unset follows from what it applies to. -/
lemma priority_of_entryOf {config : Config} {property : String} {suffix atRule : Option String}
    {value : Value} {e : Entry} (h : EntryOf config property suffix atRule value e)
    (hu : e.isUnset = false) : e.priority = priority e.property e.suffix e.atRule ∧
      isGiven e.atRule = e.atRule.isSome := by
  cases h with
  | unset => cases hu
  | @build normalized part _ _ =>
    refine ⟨rfl, ?_⟩
    change isGiven (nonempty? atRule) = (nonempty? atRule).isSome
    cases atRule with
    | none => rfl
    | some s =>
      unfold nonempty? isGiven
      by_cases hs : s.isEmpty = true <;> simp [Option.filter, hs]

/-- Entries of one bundle that differ in their at-rules have the same key up to their class
names. -/
lemma orderKey_of_bundle {config : Config} {property : String} {scope : Option String}
    {value : Value} {key : String} {bundle : Bundle}
    (h : SlotOf config property scope value (key, .bundle bundle)) {p₁ p₂ : String × Entry}
    (h₁ : p₁ ∈ bundle) (h₂ : p₂ ∈ bundle) (hu₁ : p₁.2.isUnset = false)
    (hu₂ : p₂.2.isUnset = false) (hsuffix : p₁.2.suffix = p₂.2.suffix)
    (ha₁ : p₁.2.atRule.isSome) (ha₂ : p₂.2.atRule.isSome) (n₁ n₂ : String) :
    (orderKey (n₁, .ofEntry p₁.2)).compare (orderKey (n₂, .ofEntry p₂.2)) = compare n₁ n₂ := by
  cases h with
  | bundle _ _ _ hentries =>
    obtain ⟨hproperty₁, _, _, _, _, _, hentry₁⟩ := hentries p₁ h₁
    obtain ⟨hproperty₂, _, _, _, _, _, hentry₂⟩ := hentries p₂ h₂
    obtain ⟨hpriority₁, hgiven₁⟩ := priority_of_entryOf hentry₁ hu₁
    obtain ⟨hpriority₂, hgiven₂⟩ := priority_of_entryOf hentry₂ hu₂
    have hpriority : p₁.2.priority = p₂.2.priority := by
      rw [hpriority₁, hpriority₂, hproperty₁, hproperty₂, hsuffix]
      unfold priority
      rw [hgiven₁, hgiven₂, ha₁, ha₂]
    have hselector : p₁.2.selector = p₂.2.selector := by
      unfold Entry.selector
      rw [hsuffix]
    unfold RuleKey.compare orderKey Rule.ofEntry
    dsimp only
    rw [hpriority, hselector, hproperty₁, hproperty₂]
    simp [Std.ReflCmp.compare_self]

lemma compare_of_lt {a b : String} (h : a < b) : compare a b = .lt := by
  change compareOfLessAndEq a b = .lt
  unfold compareOfLessAndEq
  rw [if_pos h]

/-- Two conditions of one property with the same suffix, both with an at-rule: there is a rule under
the class name of each, and if these are their own rules, then they are written out in the order of
the class names, whichever condition was written first. -/
theorem atRules_by_className {config : Config} {sheet : Sheet} {registry : Registry}
    {styles : Styles} {name key : String} {m : ClassEntries} {bundle : Bundle}
    {p₁ p₂ : String × Entry} {n₁ n₂ : String}
    (hs : sheet.compileInto config .empty = (registry, .ok styles))
    (hm : get? styles.classes name = some m) (hb : get? m key = some (.bundle bundle))
    (h₁ : p₁ ∈ bundle) (h₂ : p₂ ∈ bundle) (hn₁ : p₁.2.className = some n₁)
    (hn₂ : p₂.2.className = some n₂) (hsuffix : p₁.2.suffix = p₂.2.suffix)
    (ha₁ : p₁.2.atRule.isSome) (ha₂ : p₂.2.atRule.isSome) :
    registry.contains .atomic n₁ = true ∧ registry.contains .atomic n₂ = true ∧
    (registry.get? .atomic n₁ = some (.ofEntry p₁.2) →
      registry.get? .atomic n₂ = some (.ofEntry p₂.2) →
      (n₁ < n₂ → WrittenBefore config.layers styles.rules (n₁, .ofEntry p₁.2) (n₂, .ofEntry p₂.2)) ∧
      (n₂ < n₁ → WrittenBefore config.layers styles.rules (n₂, .ofEntry p₂.2) (n₁, .ofEntry p₁.2)))
    := by
  obtain ⟨hrules, hcompiled⟩ := compiled_of_compileInto hs
  obtain ⟨⟨declarations, hgives⟩, hregistered⟩ := hcompiled.classes hm
  have hslot := mem_of_get? hb
  have hentry : ∀ {p : String × Entry}, p ∈ bundle → p.2 ∈ m.entries := fun hp =>
    List.mem_flatMap.2 ⟨_, hslot, List.mem_map.2 ⟨_, hp, rfl⟩⟩
  refine ⟨hregistered _ (hentry h₁) n₁ hn₁, hregistered _ (hentry h₂) n₂ hn₂, ?_⟩
  intro hr₁ hr₂
  obtain ⟨property, scope, value, _, _, hfrom⟩ := slotOf_of_mem hgives hslot
  have hu₁ : p₁.2.isUnset = false := by simp [Entry.isUnset, hn₁]
  have hu₂ : p₂.2.isUnset = false := by simp [Entry.isUnset, hn₂]
  rw [hrules]
  constructor
  · intro hlt
    apply writtenBefore_of_compare config.layers hr₁ hr₂
    rw [orderKey_of_bundle hfrom h₁ h₂ hu₁ hu₂ hsuffix ha₁ ha₂]
    exact compare_of_lt hlt
  · intro hlt
    apply writtenBefore_of_compare config.layers hr₂ hr₁
    rw [orderKey_of_bundle hfrom h₂ h₁ hu₂ hu₁ hsuffix.symm ha₂ ha₁]
    exact compare_of_lt hlt

/-- Blue on a screen, and behind it red in print. -/
def screenThenPrint : Sheet :=
  Sheet.empty.define (.staticClass "one"
    [.property "color" (.map [("@media screen", .scalar (.text "blue")),
      ("@media print", .scalar (.text "red"))])])

def onScreen : Entry :=
  .build {} "color" ⟨["blue"]⟩ none (some "@media screen")

def inPrint : Entry :=
  .build {} "color" ⟨["red"]⟩ none (some "@media print")

lemma screenThenPrint_compiles :
    ∃ registry styles, screenThenPrint.compileInto {} .empty = (registry, .ok styles) ∧
      get? styles.classes "one" =
        some [("color", .bundle [("@media screen", onScreen), ("@media print", inPrint)])] ∧
      registry.rules = [("xe49ee56", .ofEntry onScreen), ("x7ab5cd9", .ofEntry inPrint)] := by
  have hrules : (screenThenPrint.compileInto {} .empty).1.rules =
      [("xe49ee56", .ofEntry onScreen), ("x7ab5cd9", .ofEntry inPrint)] := by
    decide +kernel
  have hclasses : (screenThenPrint.compileInto {} .empty).2.toOption.map
      (fun styles => get? styles.classes "one") =
        some (some [("color", .bundle [("@media screen", onScreen), ("@media print", inPrint)])]) := by
    decide +kernel
  cases h : screenThenPrint.compileInto {} .empty with
  | mk registry result =>
    rw [h] at hrules hclasses
    cases result with
    | error e => cases hclasses
    | ok styles => exact ⟨registry, styles, rfl, Option.some.inj hclasses, hrules⟩

theorem atRules_by_className_print :
    ∃ registry styles, screenThenPrint.compileInto {} .empty = (registry, .ok styles) ∧
      WrittenBefore false styles.rules ("x7ab5cd9", .ofEntry inPrint)
        ("xe49ee56", .ofEntry onScreen) := by
  obtain ⟨registry, styles, hs, hclass, hrules⟩ := screenThenPrint_compiles
  have hget : ∀ {n : String} {e : Entry}, (n, Rule.ofEntry e) ∈ registry.rules →
      registry.get? .atomic n = some (.ofEntry e) := fun h =>
    registry_get?_eq_some_iff.2 ⟨h, rfl⟩
  have hslot : get? [("color", Slot.bundle [("@media screen", onScreen),
      ("@media print", inPrint)])] "color" =
        some (.bundle [("@media screen", onScreen), ("@media print", inPrint)]) := rfl
  have hscreen : ("@media screen", onScreen) ∈
      [("@media screen", onScreen), ("@media print", inPrint)] := List.mem_cons_self
  have hprint : ("@media print", inPrint) ∈
      [("@media screen", onScreen), ("@media print", inPrint)] := by simp
  have hn₁ : onScreen.className = some "xe49ee56" := by decide +kernel
  have hn₂ : inPrint.className = some "x7ab5cd9" := by decide +kernel
  obtain ⟨_, _, horder⟩ :=
    atRules_by_className hs hclass hslot hscreen hprint hn₁ hn₂ rfl rfl rfl
  refine ⟨registry, styles, hs, ?_⟩
  exact (horder (hget (by simp [hrules])) (hget (by simp [hrules]))).2 (by decide)

/-- The rule that was written last stands first. -/
theorem print_before_screen :
    ∃ registry styles, screenThenPrint.compileInto {} .empty = (registry, .ok styles) ∧
      get? styles.classes "one" =
        some [("color", .bundle [("@media screen", onScreen), ("@media print", inPrint)])] ∧
      styles.rules =
        [⟨"@media print\x7b.x7ab5cd9.x7ab5cd9\x7bcolor:red\x7d\x7d", 70800⟩,
          ⟨"@media screen\x7b.xe49ee56.xe49ee56\x7bcolor:blue\x7d\x7d", 70800⟩] := by
  obtain ⟨registry, styles, hs, hclass, hrules⟩ := screenThenPrint_compiles
  refine ⟨registry, styles, hs, hclass, ?_⟩
  have hsorted : sortedAtomic registry.rules =
      [("x7ab5cd9", .ofEntry inPrint), ("xe49ee56", .ofEntry onScreen)] := by
    have hle : (orderKey ("xe49ee56", .ofEntry onScreen)).le
        (orderKey ("x7ab5cd9", .ofEntry inPrint)) = false := by decide +kernel
    have hatomic : ofKind .atomic registry.rules = registry.rules := by
      rw [hrules]
      rfl
    rw [sortedAtomic, hatomic, hrules]
    simp [List.mergeSort, List.MergeSort.Internal.splitInTwo, hle]
  have hblocks : ∀ kind, kind ≠ .atomic → blocks kind registry.rules = [] := by
    intro kind hkind
    have hnot : ¬RuleKind.atomic = kind := fun h => hkind h.symm
    rw [hrules]
    simp [blocks, ofKind, Rule.ofEntry, hnot]
  rw [(compiled_of_compileInto hs).1]
  have hbefore : kindsBeforeAtomic.flatMap (fun kind => blocks kind registry.rules) = [] := by
    rw [List.flatMap_eq_nil_iff]
    intro kind hkind
    apply hblocks
    rintro rfl
    exact absurd hkind (by decide)
  rw [emit, hbefore, hblocks .theme (by decide), atomicPart, hsorted]
  decide +kernel

end AtomicCss.Proofs
