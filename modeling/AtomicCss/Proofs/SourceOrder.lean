import AtomicCss.Proofs.OwnClasses
import AtomicCss.Proofs.RegistrationOrder
import AtomicCss.Proofs.RuleText
import Mathlib.Data.List.Perm.Basic

/-!
# The order of classes and declarations

Classes that use nothing of other definitions may be defined in any order, and the declarations of
a class may be written in any order if they have no keys in common. The stylesheet stays the same
as long as a class name stands for one rule. Names are short digests, so this is not a matter of
course, and rules of one name and one text may still be sorted differently.
-/

namespace AtomicCss.Proofs

open Keyed Declaration Stylesheet

/-- The keys of what a declaration gives a class. -/
def slotKeys (setting : Setting) (item : String × Value) : List String :=
  match (slots setting item).collect.1 with
  | .ok found => keys found
  | .error _ => []

/-- Two declarations give a class different keys. -/
def KeysApart (setting : Setting) (a b : String × Value) : Prop :=
  (slotKeys setting a).Disjoint (slotKeys setting b)

lemma gives_checkPolicy_perm {setting : Setting} {declarations other : Declarations}
    (hperm : declarations.Perm other) (h : Gives (checkPolicy setting declarations) ()) :
    Gives (checkPolicy setting other) () := by
  have hnames : (checkedNames declarations).Perm (checkedNames other) :=
    ((hperm.map Prod.fst).filter fun key => !beginsCondition key).map Property.dashCase
  refine gives_checkPolicy_iff.2 fun hforbid s hs hshorthand l hl => ?_
  have hcompatible := gives_checkPolicy_iff.1 h hforbid
  exact hcompatible s (hnames.mem_iff.2 hs) hshorthand l (hnames.mem_iff.2 hl)

lemma keys_of_slots {setting : Setting} {declarations : Declarations}
    {found : List (List (String × Slot))}
    (h : List.Forall₂ (fun item part => Gives (slots setting item) part) declarations found) :
    found.map keys = declarations.map (slotKeys setting) := by
  induction h with
  | nil => rfl
  | @cons item part _ _ hpart _ ih =>
    have hkeys : slotKeys setting item = keys part := by
      rw [slotKeys, (steady_slots setting item).collect hpart]
    rw [List.map_cons, List.map_cons, ih, hkeys]

/-- Declarations without common keys may be written in any order. -/
lemma gives_classEntries_perm {setting : Setting} {declarations other : Declarations}
    {m : ClassEntries} (hperm : declarations.Perm other)
    (hapart : declarations.Pairwise (KeysApart setting))
    (h : Gives (classEntries setting declarations) m) :
    ∃ m', Gives (classEntries setting other) m' ∧ ∀ item, item ∈ m' ↔ item ∈ m := by
  obtain ⟨_, hpolicy, h⟩ := gives_bind h
  obtain ⟨found, hfound, h⟩ := gives_bind h
  obtain rfl := gives_pure h
  have hslots := gives_mapM hfound
  obtain ⟨found', hslots', hperm'⟩ := List.perm_comp_forall₂ hperm.symm hslots
  have hapart : (found.map keys).Pairwise List.Disjoint := by
    rw [keys_of_slots hslots]
    exact List.pairwise_map.2 hapart
  have hapart' : (found'.map keys).Pairwise List.Disjoint :=
    hapart.perm (hperm'.symm.map keys) List.disjoint_symm
  refine ⟨putAll [] found'.flatten, ?_, ?_⟩
  · have hall : Gives (other.mapM (slots setting)) found' :=
      gives_mapM_of (steady_slots setting) hslots'
    refine gives_bind_of (gives_checkPolicy_perm hperm hpolicy) (gives_bind_of hall ⟨[], rfl⟩ ?_) ?_
    · exact .pure _
    · exact (Steady.mapM (steady_slots setting) other).bind fun _ => .pure _
  · intro item
    rw [mem_putAll_flatten hapart, mem_putAll_flatten hapart']
    simp only [hperm'.mem_iff]

/-- A definition whose declarations may stand in another order, if they have no keys in common. The
site plays no part. -/
inductive Shuffled (config : Config) : Definition → Definition → Prop
  | kept {site otherSite : Site} {body : Body} : Shuffled config ⟨site, body⟩ ⟨otherSite, body⟩
  | reordered {site otherSite : Site} {name : String} {declarations other : Declarations} :
    declarations.Perm other → declarations.Pairwise (KeysApart ⟨config, name⟩) →
    Shuffled config ⟨site, .staticClass name (ownItems declarations)⟩
      ⟨otherSite, .staticClass name (ownItems other)⟩

/-- The definitions of a sheet in another order, each of them shuffled. -/
def Rearranged (config : Config) (sheet other : Sheet) : Prop :=
  ∃ shuffled, List.Forall₂ (Shuffled config) sheet.definitions shuffled ∧
    shuffled.Perm other.definitions

lemma ownItems_injective : Function.Injective ownItems := by
  apply List.map_injective_iff.2
  rintro ⟨name, value⟩ ⟨other, otherValue⟩ h
  cases h
  rfl

lemma Shuffled.key_eq {config : Config} {d d' : Definition} (h : Shuffled config d d') :
    d'.body.key = d.body.key := by
  cases h <;> rfl

lemma Shuffled.makes {config : Config} {d d' : Definition} {made : String × ClassEntries}
    (hd : Shuffled config d d') (h : Makes config d made) :
    ∃ m, Makes config d' (made.1, m) ∧ ∀ e, e ∈ m.entries ↔ e ∈ made.2.entries := by
  cases hd with
  | kept =>
    cases h with
    | intro hliteral hgives => exact ⟨_, .intro hliteral hgives, fun _ => Iff.rfl⟩
  | @reordered site otherSite name declarations other hperm hapart =>
    generalize hitems : ownItems declarations = items at h
    cases h with
    | intro hliteral hgives =>
      obtain rfl := ownItems_injective hitems
      obtain ⟨m', hgives', hsame⟩ := gives_classEntries_perm hperm hapart hgives
      refine ⟨m', .intro ?_ hgives', fun e => ?_⟩
      · rw [areLiteral_iff] at hliteral ⊢
        exact fun item hitem => hliteral item (hperm.mem_iff.2 hitem)
      · unfold ClassEntries.entries
        simp only [List.mem_flatMap, hsame]

lemma makes_of_shuffled {config : Config} {definitions shuffled : List Definition}
    {made : List (String × ClassEntries)}
    (hshuffled : List.Forall₂ (Shuffled config) definitions shuffled)
    (h : List.Forall₂ (Makes config) definitions made) :
    ∃ again, List.Forall₂ (Makes config) shuffled again ∧
      ∀ e, e ∈ entriesOf again ↔ e ∈ entriesOf made := by
  induction hshuffled generalizing made with
  | nil =>
    cases h
    exact ⟨[], .nil, fun _ => Iff.rfl⟩
  | cons hd _ ih =>
    cases h with
    | @cons _ item _ rest hitem hrest =>
      obtain ⟨m, hm, hsame⟩ := hd.makes hitem
      obtain ⟨again, hagain, hentries⟩ := ih hrest
      refine ⟨(item.1, m) :: again, .cons hm hagain, fun e => ?_⟩
      unfold entriesOf at hentries ⊢
      rw [List.flatMap_cons, List.flatMap_cons, List.mem_append, List.mem_append, hentries, hsame]

lemma Rearranged.makes {config : Config} {sheet other : Sheet}
    {made : List (String × ClassEntries)} (hother : Rearranged config sheet other)
    (h : List.Forall₂ (Makes config) sheet.definitions made) :
    ∃ again, List.Forall₂ (Makes config) other.definitions again ∧
      ∀ e, e ∈ entriesOf again ↔ e ∈ entriesOf made := by
  obtain ⟨shuffled, hshuffled, hperm⟩ := hother
  obtain ⟨inPlace, hinPlace, hentries⟩ := makes_of_shuffled hshuffled h
  obtain ⟨again, hagain, hmade⟩ := List.perm_comp_forall₂ hperm.symm hinPlace
  refine ⟨again, hagain, fun e => ?_⟩
  rw [← hentries]
  exact (hmade.flatMap_right _).mem_iff

lemma keys_of_shuffled {config : Config} {definitions shuffled : List Definition}
    (h : List.Forall₂ (Shuffled config) definitions shuffled) :
    shuffled.map (fun d => d.body.key) = definitions.map fun d => d.body.key := by
  induction h with
  | nil => rfl
  | cons hd _ ih => rw [List.map_cons, List.map_cons, ih, hd.key_eq]

lemma Rearranged.check {config : Config} {sheet other : Sheet}
    (h : Rearranged config sheet other) (hsheet : sheet.check config = .ok ()) :
    other.check config = .ok () := by
  obtain ⟨shuffled, hshuffled, hperm⟩ := h
  rw [check_eq_ok_iff] at hsheet ⊢
  refine ⟨hsheet.1, (hperm.map _).nodup_iff.1 ?_⟩
  rw [keys_of_shuffled hshuffled]
  exact hsheet.2

/-- Entries of one class name have this in common. -/
def SharedByName (same : Entry → Entry → Prop) (styles : Styles) : Prop :=
  ∀ e f, Holds styles e → Holds styles f → e.isUnset = false → e.className = f.className →
    same e f

lemma agreeing_rules {config : Config} {registry : Registry} {styles : Styles}
    {entries : List Entry} (hcompiled : Compiled config registry styles)
    (hnamed : SharedByName Alike styles) (hentries : ∀ e ∈ entries, Holds styles e) :
    Agreeing (entries.filterMap Registry.ruleOf?) := by
  intro r hr s hs hkey
  obtain ⟨e, he, hre⟩ := List.mem_filterMap.1 hr
  obtain ⟨f, hf, hsf⟩ := List.mem_filterMap.1 hs
  obtain ⟨name, hname, rfl⟩ := Option.map_eq_some_iff.1 hre
  obtain ⟨other, hother, rfl⟩ := Option.map_eq_some_iff.1 hsf
  obtain rfl : name = other := (Prod.mk.inj hkey).2
  have hu : e.isUnset = false := by simp [Entry.isUnset, hname]
  have hv : f.isUnset = false := by simp [Entry.isUnset, hother]
  have halike := hnamed e f (hentries e he) (hentries f hf) hu (hname.trans hother.symm)
  have hrule := ofEntry_eq_of_alike (built_of_holds hcompiled (hentries e he) hu)
    (built_of_holds hcompiled (hentries f hf) hv) halike
  rw [hrule]

lemma plainRules_registered (entries : List Entry) : plainRules (registered entries).rules = [] := by
  apply List.filter_eq_nil_iff.2
  intro r hr
  rw [registered, rules_empty_insertAll] at hr
  obtain ⟨e, _, he⟩ := List.mem_filterMap.1 (mem_firsts hr)
  obtain ⟨name, _, rfl⟩ := Option.map_eq_some_iff.1 he
  simp [Rule.ofEntry]

/-- What is written out of entries depends neither on their order nor on their number. -/
lemma emit_registered {entries more : List Entry}
    (hagree : Agreeing (entries.filterMap Registry.ruleOf?)) (h : ∀ e, e ∈ more ↔ e ∈ entries)
    (layers : Bool) : emit (registered more) layers = emit (registered entries) layers := by
  have hrules : ∀ r, r ∈ more.filterMap Registry.ruleOf? ↔
      r ∈ entries.filterMap Registry.ruleOf? := by
    intro r
    simp only [List.mem_filterMap, h]
  have hmore : Agreeing (more.filterMap Registry.ruleOf?) :=
    fun r hr s hs => hagree r ((hrules r).1 hr) s ((hrules s).1 hs)
  refine emit_congr (fun r => ?_) ?_ layers
  · rw [registered, registered, mem_empty_insertAll hagree, mem_empty_insertAll hmore, hrules]
  · rw [plainRules_registered, plainRules_registered]

/-- The stylesheet does not depend on the order of the source. If the classes of a sheet use nothing
of each other, and entries of one class name have one text, property and suffix, then the classes
may be defined in another order, and the declarations of each class may stand in another order if
they have no keys in common: the sheet compiles to the same text. -/
theorem css_of_rearranged {config : Config} {sheet other : Sheet} {styles : Styles}
    (hplain : ∀ d ∈ sheet.definitions, SelfContained d) (hother : Rearranged config sheet other)
    (hs : sheet.compile config = .ok styles) (hnamed : SharedByName Alike styles) :
    ∃ again, other.compile config = .ok again ∧ again.css = styles.css := by
  obtain ⟨hcheck, made, hmade⟩ := check_of_compile hplain hs
  obtain ⟨registry, _, hcompiled⟩ := compiled_of_compile hs
  obtain ⟨styles', hstyles, hclasses, hrules⟩ := compile_of_check hcheck hmade
  obtain rfl := Except.ok.inj (hs.symm.trans hstyles)
  obtain ⟨moved, hmoved, hentries⟩ := hother.makes hmade
  obtain ⟨again, hagain, _, hrules'⟩ := compile_of_check (hother.check hcheck) hmoved
  have hagree := agreeing_rules hcompiled hnamed fun e he =>
    holds_of_mem hcheck hmade hclasses he
  refine ⟨again, hagain, ?_⟩
  unfold Styles.css
  rw [hrules, hrules', emit_registered hagree hentries]

/-- The entries of all compiled classes. -/
def heldEntries (styles : Styles) : List Entry :=
  entriesOf styles.classes ++ styles.dynamics.flatMap fun item => item.2.entries.entries

lemma mem_heldEntries {styles : Styles} {e : Entry} (h : Holds styles e) :
    e ∈ heldEntries styles := by
  rcases h with ⟨name, m, hget, he⟩ | ⟨name, d, hget, he⟩
  · exact List.mem_append_left _ (List.mem_flatMap.2 ⟨_, mem_of_get? hget, he⟩)
  · exact List.mem_append_right _ (List.mem_flatMap.2 ⟨_, mem_of_get? hget, he⟩)

/-- What entries of one class name have in common can be computed. -/
lemma sharedByName_of_compile {config : Config} {sheet : Sheet} {styles : Styles}
    {same : Entry → Entry → Prop} [DecidableRel same] (hs : sheet.compile config = .ok styles)
    (h : ((sheet.compile config).toOption.map heldEntries).all (fun entries =>
      decide (∀ e ∈ entries, ∀ f ∈ entries, e.isUnset = false → e.className = f.className →
        same e f)) = true) : SharedByName same styles := by
  rw [hs] at h
  intro e f he hf
  exact of_decide_eq_true h e (mem_heldEntries he) f (mem_heldEntries hf)

/-- A plain value, a map of conditions one of which is unset, and a group of a pseudo-element. -/
def variedDeclarations : Declarations :=
  [("color", .scalar (.text "red")),
    ("margin", .map [("default", .scalar (.text "1px")), (":hover", .unset),
      ("@media print", .map [(":focus", .scalar (.text "0"))])]),
    ("::before", .map [("color", .scalar (.text "navy"))])]

def floatDeclarations : Declarations :=
  [("float", .scalar (.text "start")), ("color", .scalar (.text "red"))]

theorem css_of_rearranged_varied :
    ∃ styles again,
      (classSheet [("one", variedDeclarations), ("two", floatDeclarations)]).compile {} =
        .ok styles ∧
      (classSheet [("two", floatDeclarations), ("one", variedDeclarations.reverse)]).compile {} =
        .ok again ∧ again.css = styles.css := by
  have hok : ((classSheet [("one", variedDeclarations), ("two", floatDeclarations)]).compile
      {}).isOk = true := by
    decide +kernel
  obtain ⟨styles, hs⟩ := eq_ok_of_isOk hok
  have hapart : variedDeclarations.Pairwise (KeysApart ⟨{}, "one"⟩) := by
    unfold KeysApart List.Disjoint
    decide +kernel
  have hmoved : Rearranged {} (classSheet [("one", variedDeclarations), ("two", floatDeclarations)])
      (classSheet [("two", floatDeclarations), ("one", variedDeclarations.reverse)]) :=
    ⟨_, .cons (.reordered (List.reverse_perm _).symm hapart) (.cons .kept .nil), .swap _ _ _⟩
  obtain ⟨again, hagain, hcss⟩ := css_of_rearranged (selfContained_classSheet rfl) hmoved hs
    (sharedByName_of_compile hs (by decide +kernel))
  exact ⟨styles, again, hs, hagain, hcss⟩

/-- Atomic rules that are sorted are written out as they stand. -/
lemma emit_of_increasing {registry : Registry} {sorted : List NamedRule}
    (hperm : registry.rules.Perm sorted) (hatomic : ∀ r ∈ sorted, r.2.kind = .atomic)
    (hsorted : sorted.Pairwise Precedes) :
    emit registry false = sorted.flatMap (atomicRules false) := by
  have hkind : ∀ r ∈ registry.rules, r.2.kind = .atomic := fun r hr =>
    hatomic r (hperm.mem_iff.1 hr)
  have hnone : ∀ kind, kind ≠ .atomic → ofKind kind registry.rules = [] := by
    intro kind hne
    apply List.filter_eq_nil_iff.2
    intro r hr
    simp [hkind r hr, hne.symm]
  have hbefore : ofKinds kindsBeforeAtomic registry.rules = [] := by
    apply List.flatMap_eq_nil_iff.2
    intro kind hmem
    apply hnone
    rintro rfl
    exact absurd hmem (by decide)
  have hatomics : sortedAtomic registry.rules = sorted := by
    have hincreasing : (sortedAtomic registry.rules).Pairwise Precedes :=
      increasing_sortedAtomic registry.distinct
    have hall : ofKind .atomic registry.rules = registry.rules :=
      List.filter_eq_self.2 fun r hr => by simp [hkind r hr]
    have hsame : (sortedAtomic registry.rules).Perm sorted := by
      unfold sortedAtomic
      rw [hall]
      exact (List.mergeSort_perm _ _).trans hperm
    exact hsame.eq_of_pairwise' hincreasing hsorted
  rw [emit_eq, hbefore, hatomics, hnone .theme (by decide)]
  simp [layerStatement]

/-- The rules of some classes, all of them atomic, in the order of their keys. -/
structure Sorts (classes : List (String × Declarations)) (sorted : List NamedRule) : Prop where
  compiles : ((classSheet classes).compile {}).isOk = true
  rules : ((classSheet classes).compileInto {} .empty).1.rules.Perm sorted
  atomic : ∀ r ∈ sorted, r.2.kind = .atomic
  increasing : sorted.Pairwise Precedes

/-- Sorted rules as one text. -/
def written (sorted : List NamedRule) : String :=
  String.intercalate "\n" ((sorted.flatMap (atomicRules false)).map CssRule.text)

lemma Sorts.css {classes : List (String × Declarations)} {sorted : List NamedRule}
    (h : Sorts classes sorted) :
    ∃ styles, (classSheet classes).compile {} = .ok styles ∧ styles.css = written sorted := by
  obtain ⟨styles, hs⟩ := eq_ok_of_isOk h.compiles
  obtain ⟨hrules, _⟩ := compiled_of_compileInto (Prod.ext rfl hs)
  refine ⟨styles, hs, ?_⟩
  rw [Styles.css, hrules, emit_of_increasing h.rules h.atomic h.increasing]
  rfl

/-- The classes are compiled as they stand and backwards, and the stylesheets differ, though entries
of one class name have one text on either side, and this in common. -/
def OrderCounts (same : Entry → Entry → Prop) (classes : List (String × Declarations)) : Prop :=
  (∀ d ∈ (classSheet classes).definitions, SelfContained d) ∧
  Rearranged {} (classSheet classes) (classSheet classes.reverse) ∧
  ∃ styles again, (classSheet classes).compile {} = .ok styles ∧
    (classSheet classes.reverse).compile {} = .ok again ∧
    SharedByName (fun e f => (e.ltr = f.ltr ∧ e.rtl = f.rtl) ∧ same e f) styles ∧
    again.css ≠ styles.css

lemma orderCounts_of_sorts {same : Entry → Entry → Prop} [DecidableRel same]
    {classes : List (String × Declarations)} {sorted backwards : List NamedRule}
    (hliteral : classes.all (fun item => areLiteral item.2) = true)
    (hsorted : Sorts classes sorted) (hbackwards : Sorts classes.reverse backwards)
    (hshared : (((classSheet classes).compile {}).toOption.map heldEntries).all (fun entries =>
      decide (∀ e ∈ entries, ∀ f ∈ entries, e.isUnset = false → e.className = f.className →
        (e.ltr = f.ltr ∧ e.rtl = f.rtl) ∧ same e f)) = true)
    (hne : written backwards ≠ written sorted) : OrderCounts same classes := by
  obtain ⟨styles, hs, hcss⟩ := hsorted.css
  obtain ⟨again, hagain, hcss'⟩ := hbackwards.css
  refine ⟨selfContained_classSheet hliteral, ?_, styles, again, hs, hagain,
    sharedByName_of_compile hs hshared, by rwa [hcss, hcss']⟩
  exact ⟨_, List.forall₂_same.2 fun _ _ => .kept, (List.reverse_perm _).symm.map _⟩

/-- Two declarations with one digest and one text, whose properties differ. -/
def tonedClasses : List (String × Declarations) :=
  [("one", [("--tone:qedkmf", .scalar (.text "red"))]),
    ("dark", [("--tone-dark", .scalar (.text "navy"))]),
    ("two", [("--tone", .scalar (.text "qedkmf:red"))])]

/-- Two declarations with one digest and one text, whose suffixes differ. -/
def hoveredClasses : List (String × Declarations) :=
  [("one", [("--tone", .map [(":hover", .scalar (.text "sjnhnd\x7b--tone:red"))])]),
    ("dark", [("--tone", .map [(":hover:focus", .scalar (.text "navy"))])]),
    ("two", [("--tone", .map [(":hover\x7b--tone:sjnhnd", .scalar (.text "red"))])])]

def toneRule (name property value : String) : NamedRule :=
  (name, ⟨.atomic, braced ("." ++ name) (property ++ ":" ++ value), none, 110200, property, "", 1⟩)

def hoverRule (name suffix value : String) : NamedRule :=
  (name, ⟨.atomic, braced ("." ++ name ++ suffix) ("--tone:" ++ value), none, 110500, "--tone",
    suffix, 2⟩)

lemma sorts_toned :
    Sorts tonedClasses
        [toneRule "xb5f1190" "--tone-dark" "navy", toneRule "xb3571cc" "--tone:qedkmf" "red"] ∧
      Sorts tonedClasses.reverse
        [toneRule "xb3571cc" "--tone" "qedkmf:red", toneRule "xb5f1190" "--tone-dark" "navy"] := by
  constructor <;> constructor <;> decide +kernel

lemma sorts_hovered :
    Sorts hoveredClasses [hoverRule "xbba4124" ":hover" "sjnhnd\x7b--tone:red",
        hoverRule "xbc31228" ":hover:focus" "navy"] ∧
      Sorts hoveredClasses.reverse [hoverRule "xbc31228" ":hover:focus" "navy",
        hoverRule "xbba4124" ":hover\x7b--tone:sjnhnd" "red"] := by
  constructor <;> constructor <;> decide +kernel

/-- It does not do that entries of one class name have one text, not even if they have also one
suffix or one property: rules of one name are sorted by these, and of two such rules the one that is
defined first counts. -/
theorem order_counts_on_collision :
    OrderCounts (fun e f => e.suffix = f.suffix) tonedClasses ∧
      OrderCounts (fun e f => e.property = f.property) hoveredClasses := by
  obtain ⟨htoned, htoned'⟩ := sorts_toned
  obtain ⟨hhovered, hhovered'⟩ := sorts_hovered
  constructor
  · exact orderCounts_of_sorts rfl htoned htoned' (by decide +kernel) (by decide +kernel)
  · exact orderCounts_of_sorts rfl hhovered hhovered' (by decide +kernel) (by decide +kernel)

end AtomicCss.Proofs
