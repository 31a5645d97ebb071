import AtomicCss.Proofs.ConditionText
import AtomicCss.Proofs.Targets

/-!
# What a compiled class looks like

Plain values, maps of conditions, groups of pseudo-elements, expanded shorthands and parameters all
give slots of one form: the key is that of the entries' property in one scope, an entry that sets
something is named after its own parts, and its suffix and at-rule are those of the condition that
it is stored under.
-/

namespace AtomicCss.Proofs

open Keyed Declaration

/-- The condition that a key of a bundle stands for, as it was written. -/
def writtenKey (key : String) : String :=
  if key = defaultKey then "" else key

/-- An entry is an unset and nothing else, or it is named after its own parts and sorted by them. -/
structure SelfNamed (config : Config) (e : Entry) : Prop where
  unset_iff : e.className = none ↔ e = .unset e.property e.suffix e.atRule
  className : ∀ name, e.className = some name →
    name = Naming.atomicClass config.classStart e.property e.value e.suffix e.pseudoElement e.atRule
  priority : ∀ name, e.className = some name → e.priority = priority e.property e.suffix e.atRule
  pseudoElement : e.pseudoElement = e.suffix.bind fun s => (Condition.splitPseudoElement s).1

/-- The suffix of an entry in a scope: the pseudo-element, and behind it what the condition adds. -/
def scopedSuffix (scope suffix : Option String) : Option String :=
  nonempty? (some (scope.getD "" ++ suffix.getD ""))

/-- A slot under its key. All its entries have one scope. -/
inductive Represented (config : Config) : String → Slot → Prop
  | atomic {scope : Option String} {e : Entry} : IsPseudoScope scope → SelfNamed config e →
    e.suffix = scope → e.atRule = none →
    Represented config (Naming.slotKey e.property scope) (.atomic e)
  | bundle {key : String} {scope : Option String} {bundle : Bundle} : IsPseudoScope scope →
    (∀ item ∈ bundle, key = Naming.slotKey item.2.property scope ∧ SelfNamed config item.2 ∧
      ∃ condition, Condition.parse (writtenKey item.1) = .ok condition ∧
        item.2.atRule = condition.atRule ∧
        item.2.suffix = scopedSuffix scope condition.suffix) →
    Represented config key (.bundle bundle)

lemma nonempty?_nonempty? (text : Option String) : nonempty? (nonempty? text) = nonempty? text := by
  unfold nonempty?
  rw [Option.filter_filter]
  simp

lemma scopedSuffix_eq {scope suffix : Option String} (hscope : IsScope scope)
    (hsuffix : IsScope suffix) : scopedSuffix scope suffix = suffixBehind scope suffix := by
  have hbehind := nonempty?_eq (isScope_suffixBehind hscope hsuffix)
  cases scope with
  | none =>
    cases suffix with
    | none => rfl
    | some s => simpa [scopedSuffix, suffixBehind] using hbehind
  | some pseudo =>
    cases suffix with
    | none => simpa [scopedSuffix, suffixBehind] using hbehind
    | some s => exact hbehind

lemma selfNamed_unset (config : Config) (property : String) (suffix atRule : Option String) :
    SelfNamed config (.unset property suffix atRule) where
  unset_iff := by
    simp only [Entry.unset, nonempty?_nonempty?]
  className := nofun
  priority := nofun
  pseudoElement := rfl

lemma selfNamed_build (config : Config) (property : String) (value : Normalized)
    (suffix atRule : Option String) :
    SelfNamed config (.build config property value suffix atRule) where
  unset_iff := by
    constructor
    · nofun
    · intro h
      exact congrArg Entry.className h
  className := by
    rintro name ⟨⟩
    rfl
  priority := by
    intro name _
    rfl
  pseudoElement := rfl

lemma selfNamed_of_entryOf {config : Config} {property : String} {suffix atRule : Option String}
    {value : Value} {e : Entry} (h : EntryOf config property suffix atRule value e) :
    SelfNamed config e := by
  cases h with
  | unset => exact selfNamed_unset config _ _ _
  | build => exact selfNamed_build config _ _ _ _

/-- A text is empty, or begins as a condition does. -/
def OpensCondition (text : String) : Prop :=
  text = "" ∨ beginsCondition text = true

lemma beginsCondition_append {front : String} (h : beginsCondition front = true)
    (back : String) : beginsCondition (front ++ back) = true := by
  unfold beginsCondition at h ⊢
  rw [String.toList_append]
  cases hfront : front.toList with
  | nil =>
    rw [hfront] at h
    cases h
  | cons c cs =>
    rw [hfront] at h
    exact h

lemma beginsCondition_of_head {text : String} (h : text.toList.head? = some '@') :
    beginsCondition text = true := by
  obtain ⟨rest, hrest⟩ := List.head?_eq_some_iff.1 h
  unfold beginsCondition
  rw [hrest]
  rfl

lemma beginsCondition_of_ofKey? {key : String} (hkind : (ConditionKind.ofKey? key).isSome)
    (hdefault : key ≠ defaultKey) : beginsCondition key = true := by
  unfold ConditionKind.ofKey? at hkind
  rw [if_neg hdefault] at hkind
  unfold beginsCondition
  split at hkind
  · rename_i heq
    rw [heq]
    rfl
  · rename_i heq
    rw [heq]
    rfl
  · rename_i heq
    rw [heq]
    rfl
  · cases hkind

lemma opensCondition_compose {parent key condition : String} (hparent : OpensCondition parent)
    (hkind : (ConditionKind.ofKey? key).isSome) (h : compose parent key = .ok condition) :
    OpensCondition condition := by
  unfold compose at h
  split at h
  · rename_i hat
    obtain ⟨parsed, hparsed, rfl⟩ := map_eq_ok h
    have hhead : key.toList.head? = some '@' := by
      simp only [Bool.and_eq_true, decide_eq_true_eq] at hat
      exact hat.1
    -- an at-rule is put behind those of the parent, which come first
    refine .inr (beginsCondition_append ?_ _)
    cases hrule : parsed.atRule with
    | none => simpa using beginsCondition_of_head hhead
    | some rule =>
      exact beginsCondition_append (beginsCondition_of_head (head_of_parse hparsed hrule)) _
  · cases h
    unfold Condition.join
    split
    · exact hparent
    · rename_i hdefault
      have hkey := beginsCondition_of_ofKey? hkind hdefault
      rcases hparent with rfl | hparent
      · simpa [OpensCondition] using .inr hkey
      · exact .inr (beginsCondition_append hparent key)

lemma opensCondition_of_leafIn {parent : String} {map : List (String × Value)} {leaf : Leaf}
    (h : LeafIn parent map leaf) (hparent : OpensCondition parent) :
    OpensCondition leaf.condition := by
  induction h with
  | here _ hkind hcompose => exact opensCondition_compose hparent hkind hcompose
  | inside _ hkind hcompose _ ih => exact ih (opensCondition_compose hparent hkind hcompose)

/-- The key of a bundle tells what was written. -/
lemma writtenKey_bundleKey {written : String} (h : OpensCondition written) :
    writtenKey (bundleKey written) = written := by
  unfold bundleKey
  rcases h with rfl | h
  · rfl
  · have hne : written ≠ "" := by
      rintro rfl
      cases h
    have hdefault : written ≠ defaultKey := by
      rintro rfl
      cases h
    rw [if_neg (by simpa using hne), writtenKey, if_neg hdefault]

lemma represented_of_slotOf {config : Config} {property : String} {scope : Option String}
    {value : Value} {item : String × Slot} (hscope : IsPseudoScope scope)
    (h : SlotOf config property scope value item) : Represented config item.1 item.2 := by
  cases h with
  | atomic he =>
    obtain ⟨hsuffix, hatRule⟩ := parts_of_entryOf he hscope.isScope nofun
    exact .atomic hscope (selfNamed_of_entryOf he) hsuffix hatRule
  | bundle _ hflatten _ hentries =>
    refine .bundle hscope fun item hitem => ?_
    obtain ⟨hproperty, leaf, hleaf, hentry⟩ := hentries item hitem
    obtain ⟨parsed, horigin⟩ := origin_of_leafEntry hscope.isScope hentry
    have hopens := opensCondition_of_leafIn (leafIn_of_flatten hflatten hleaf) (.inl rfl)
    obtain ⟨_, _, hkey, hentryOf⟩ := hentry
    have hwritten : writtenKey item.1 = leaf.condition := by
      rw [hkey]
      exact writtenKey_bundleKey hopens
    refine ⟨by rw [hproperty], selfNamed_of_entryOf hentryOf, parsed, ?_, horigin.atRule, ?_⟩
    · rw [hwritten]
      exact horigin.parse
    · rw [scopedSuffix_eq hscope.isScope (nonempty_of_parse horigin.parse).1]
      exact horigin.suffix

/-- All classes of a compiled sheet, static and dynamic ones, consist of slots of this form. -/
theorem compiled_represented {config : Config} {sheet : Sheet} {start registry : Registry}
    {styles : Styles} (h : sheet.compileInto config start = (registry, .ok styles)) :
    (∀ name m, get? styles.classes name = some m → ∀ item ∈ m,
      Represented config item.1 item.2) ∧
    ∀ name d, get? styles.dynamics name = some d → ∀ item ∈ d.entries,
      Represented config item.1 item.2 := by
  obtain ⟨_, hcompiled⟩ := compiled_of_compileInto h
  constructor
  · intro name m hget item hitem
    obtain ⟨⟨declarations, hgives⟩, _⟩ := hcompiled.classes hget
    obtain ⟨property, scope, value, hdeclares, _, hslot⟩ := slotOf_of_mem hgives hitem
    exact represented_of_slotOf (isPseudoScope_of_declares hdeclares) hslot
  · intro name d hget item hitem
    obtain ⟨⟨parameters, properties, hgives⟩, _⟩ := hcompiled.dynamics hget
    obtain ⟨p, _, rfl⟩ := dynamic_slot hgives hitem
    exact .atomic isPseudoScope_none (selfNamed_build config _ _ _ _) rfl rfl

/-- A class with a shorthand in a group, under nested conditions one of which is unset, and a
dynamic class. -/
def framedSheet : Sheet :=
  Sheet.empty
    |>.define (.staticClass "frame"
      [.property "color" (.scalar (.text "red")),
        .property "::after" (.map [("margin", .map [("default", .scalar (.text "1px 2px")),
          (":hover", .map [("@media print", .unset)])])])])
    |>.define (.dynamicClass "tinted" ["tint"] [("backgroundColor", "tint")])

theorem compiled_represented_framed :
    ∃ registry styles m d,
      framedSheet.compileInto { shorthands := .flatten } .empty = (registry, .ok styles) ∧
      get? styles.classes "frame" = some m ∧ get? styles.dynamics "tinted" = some d ∧
      keys m = ["color", "margin-top:::after", "margin-right:::after", "margin-bottom:::after",
        "margin-left:::after"] ∧
      (∀ item ∈ m, Represented { shorthands := .flatten } item.1 item.2) ∧
      ∀ item ∈ d.entries, Represented { shorthands := .flatten } item.1 item.2 := by
  have hclasses : (framedSheet.compileInto { shorthands := .flatten } .empty).2.toOption.map
      (fun styles => ((get? styles.classes "frame").map keys,
        (get? styles.dynamics "tinted").isSome)) =
      some (some ["color", "margin-top:::after", "margin-right:::after", "margin-bottom:::after",
        "margin-left:::after"], true) := by
    decide +kernel
  obtain ⟨styles, hstyles, hfound⟩ := Option.map_eq_some_iff.1 hclasses
  obtain ⟨hframe, htinted⟩ := Prod.mk.inj hfound
  obtain ⟨m, hm, hkeys⟩ := Option.map_eq_some_iff.1 hframe
  obtain ⟨d, hd⟩ := Option.isSome_iff_exists.1 htinted
  have hcompiles : framedSheet.compileInto { shorthands := .flatten } .empty =
      (_, .ok styles) := Prod.ext rfl (eq_ok_of_toOption hstyles)
  obtain ⟨hstatic, hdynamic⟩ := compiled_represented hcompiles
  exact ⟨_, styles, m, d, hcompiles, hm, hd, hkeys, hstatic _ _ hm, hdynamic _ _ hd⟩

end AtomicCss.Proofs
