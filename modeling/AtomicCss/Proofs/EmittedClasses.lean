import AtomicCss.Proofs.FailedCompile
import AtomicCss.Proofs.RuleSources
import AtomicCss.Proofs.Targets

/-!
# Every class that is named is written out

A class string names entries of compiled classes, whose rules are registered with them, and themes,
whose rules are registered as well. All that is registered is written out. Generated names hold no
spaces, so the names can be read off the string again.
-/

namespace AtomicCss.Proofs

open Keyed Stylesheet

/-- The names in a text of names with spaces between them. -/
def spacedNames (text : String) : List String :=
  ((text.toList.splitOn ' ').map String.ofList).filter fun name => !name.isEmpty

/-- A name that can stand between spaces. -/
def IsSingleName (name : String) : Prop :=
  name ≠ "" ∧ ' ' ∉ name.toList

lemma spacedNames_intercalate {names : List String} (h : ∀ name ∈ names, IsSingleName name) :
    spacedNames (String.intercalate " " names) = names := by
  unfold spacedNames
  rw [String.toList_intercalate]
  cases names with
  | nil => rfl
  | cons first rest =>
    have hspace : (" " : String).toList = [' '] := rfl
    have hfree : ∀ cs ∈ (first :: rest).map String.toList, ' ' ∉ cs := by
      intro cs hcs
      obtain ⟨name, hname, rfl⟩ := List.mem_map.1 hcs
      exact (h name hname).2
    rw [hspace, List.splitOn_intercalate ' ' hfree (by simp), List.map_map]
    have hsame : String.ofList ∘ String.toList = id := by
      funext name
      exact String.ofList_toList
    rw [hsame, List.map_id, List.filter_eq_self]
    intro name hname
    simpa using (h name hname).1

/-- What generated names begin with is not empty, and has few characters to choose from. -/
lemma classStart_of_validate {config : Config} (h : config.validate = .ok ()) :
    config.classStart.toList ≠ [] ∧
      ∀ c ∈ config.classStart.toList, (c.isAlphanum || c == '_' || c == '-') = true := by
  have hvalid : Config.isValidStart config.classStart.toList = true := by
    unfold Config.validate at h
    split at h
    · assumption
    · cases h
  cases hcs : config.classStart.toList with
  | nil =>
    rw [hcs] at hvalid
    cases hvalid
  | cons c cs =>
    rw [hcs] at hvalid
    exact ⟨List.cons_ne_nil _ _, List.all_eq_true.1 (Bool.and_eq_true_iff.1 hvalid).2⟩

lemma isAlphanum_of_mem_short {text : String} {c : Char} (h : c ∈ (Digest.short text).toList) :
    c.isAlphanum = true := by
  have hdigit : ∀ n < 16, (Nat.digitChar n).isAlphanum = true := by decide
  unfold Digest.short at h
  rw [String.toList_ofList] at h
  obtain ⟨byte, _, hbyte⟩ := List.mem_flatMap.1 (List.mem_of_mem_take h)
  have hbound := byte.toNat_lt
  rcases List.mem_pair.1 hbyte with rfl | rfl <;> apply hdigit <;> omega

/-- Generated names have few characters as well, since what they begin with is checked. -/
lemma nameChar_of_mem_contentName {config : Config} (h : config.validate = .ok ()) {text : String}
    {c : Char} (hc : c ∈ (Naming.contentName config.classStart text).toList) :
    (c.isAlphanum || c == '_' || c == '-') = true := by
  rw [Naming.contentName, String.toList_append, List.mem_append] at hc
  rcases hc with hstart | hdigest
  · exact (classStart_of_validate h).2 c hstart
  · rw [isAlphanum_of_mem_short hdigest]
    rfl

lemma isSingleName_contentName {config : Config} (h : config.validate = .ok ()) (text : String) :
    IsSingleName (Naming.contentName config.classStart text) := by
  constructor
  · intro heq
    have hlists := congrArg String.toList heq
    rw [Naming.contentName, String.toList_append] at hlists
    exact (classStart_of_validate h).1 (List.append_eq_nil_iff.1 hlists).1
  · intro hspace
    exact absurd (nameChar_of_mem_contentName h hspace) (by decide)

/-- The classes of themes are registered, and their names are generated. -/
structure ThemesRegistered (config : Config) (registry : Registry) (styles : Styles) : Prop where
  registered : ∀ label className, get? styles.themes label = some className →
    registry.contains .theme className = true
  named : ∀ label className, get? styles.themes label = some className →
    ∃ digested, className = Naming.contentName config.classStart digested

lemma ThemesRegistered.step {c : Context} {d : Definition} {outcome : Outcome}
    {registry : Registry} (hstep : c.compile d = .ok outcome)
    (h : ThemesRegistered c.config registry c.scope.styles) :
    ThemesRegistered c.config (registry.insertAll outcome.rules) outcome.scope.styles := by
  have hsame : outcome.scope.styles.themes = c.scope.styles.themes →
      ThemesRegistered c.config (registry.insertAll outcome.rules) outcome.scope.styles := by
    intro heq
    constructor
    · intro label className hget
      exact contains_insertAll_of_contains _ (h.registered label className (heq ▸ hget))
    · intro label className hget
      exact h.named label className (heq ▸ hget)
  cases compile_eq_ok_iff.1 hstep with
  | consts hscope =>
    obtain ⟨consts, rfl⟩ := scope_of_compileConsts hscope
    exact hsame rfl
  | theme _ _ _ hname =>
    constructor
    · intro label className hget
      change get? (put c.scope.styles.themes _ _) label = _ at hget
      rw [get?_put] at hget
      split at hget
      · cases hget
        exact contains_insertAll List.mem_cons_self
      · exact contains_insertAll_of_contains _ (h.registered label className hget)
    · intro label className hget
      change get? (put c.scope.styles.themes _ _) label = _ at hget
      rw [get?_put] at hget
      split at hget
      · cases hget
        exact ⟨_, hname⟩
      · exact h.named label className hget
  | _ => exact hsame rfl

lemma ThemesRegistered.run {config : Config} {sheet : Sheet} {registry left : Registry}
    {scope result : Scope} {definitions : List Definition}
    (hrun : Sheet.compileFrom config sheet registry scope definitions = (left, .ok result))
    (h : ThemesRegistered config registry scope.styles) :
    ThemesRegistered config left result.styles := by
  apply compileFrom_invariant
    (P := fun registry scope => ThemesRegistered config registry scope.styles) ?_ hrun h
  intro registry scope d outcome _ hknown hstep
  exact ThemesRegistered.step hstep hknown

section

variable {config : Config} {registry : Registry} {r : NamedRule}

lemma mem_emit_of_theme (hr : r ∈ registry.rules) (hkind : r.2.kind = .theme) (layers : Bool) :
    ⟨r.2.css, r.2.priority⟩ ∈ emit registry layers := by
  rw [emit_eq]
  exact List.mem_append_right _ (List.mem_map.2 ⟨r, mem_ofKind.2 ⟨hr, hkind⟩, rfl⟩)

/-- The text of an atomic rule, in its layer if layers are on. -/
def layered (layers : Bool) (rule : Rule) : String :=
  if layers then braced s!"@layer priority{rule.layer}" rule.css else rule.css

lemma mem_emit_of_atomic (hr : r ∈ registry.rules) (hkind : r.2.kind = .atomic) (layers : Bool) :
    ⟨layered layers r.2, r.2.priority⟩ ∈ emit registry layers := by
  have hsorted : r ∈ sortedAtomic registry.rules := mem_sortedAtomic.2 ⟨hr, hkind⟩
  have hfirst : ⟨layered layers r.2, r.2.priority⟩ ∈ atomicRules layers r := List.mem_cons_self
  rw [emit_eq]
  exact List.mem_append_left _ (List.mem_append_right _ (List.mem_flatMap.2 ⟨r, hsorted, hfirst⟩))

end

/-- A class name that stands for something in the stylesheet: it is the class of a compiled entry
whose rule is registered under it and written out, or that of a theme among the references. -/
inductive Emitted (config : Config) (registry : Registry) (styles : Styles)
    (refs : List ClassRef) (name : String) : Prop
  | atomic {e : Entry} : Holds styles e → e.className = some name →
    registry.get? .atomic name = some (.ofEntry e) →
    ⟨layered config.layers (.ofEntry e), e.priority⟩ ∈ styles.rules →
    Emitted config registry styles refs name
  | theme {space theme : String} {rule : Rule} : .theme space theme ∈ refs →
    get? styles.themes (qualified space theme) = some name →
    registry.get? .theme name = some rule → ⟨rule.css, rule.priority⟩ ∈ styles.rules →
    Emitted config registry styles refs name

section

variable {config : Config} {sheet : Sheet} {registry : Registry} {styles : Styles}
  {refs : List ClassRef} {m : Merged} {name : String}

/-- What a reference brings in is in a compiled class. -/
lemma holds_of_slotsOf {r : ClassRef} {e : Entry} (h : e ∈ (slotsOf styles r).entries) :
    Holds styles e := by
  cases r with
  | staticClass name =>
    rw [slotsOf] at h
    cases hget : get? styles.classes name with
    | none =>
      rw [hget] at h
      cases h
    | some m =>
      rw [hget] at h
      exact .inl ⟨name, m, hget, h⟩
  | dynamic name arguments =>
    rw [slotsOf] at h
    cases hget : get? styles.dynamics name with
    | none =>
      rw [hget] at h
      cases h
    | some d =>
      rw [hget] at h
      exact .inr ⟨name, d, hget, h⟩
  | theme | skipped => cases h

lemma mem_entries_of_supplied {slot : Slot} {condition : String} {e : Entry}
    (h : supplied? condition slot = some e) : e ∈ slot.entries := by
  cases slot with
  | atomic entry =>
    rw [supplied?] at h
    split at h
    · cases h
      exact List.mem_singleton_self _
    · cases h
  | bundle entries => exact List.mem_map_of_mem (mem_of_get? h)

/-- The entries that are left after a merge are in compiled classes. -/
lemma holds_of_merged (hc : Compiled config registry styles)
    (h : refs.foldlM (Merged.apply styles) {} = .ok m) {e : Entry} (he : e ∈ m.slots.entries) :
    Holds styles e := by
  rw [← map_snd_survivors] at he
  obtain ⟨p, hp, rfl⟩ := List.mem_map.1 he
  obtain ⟨_, _, r, _, hsupplied⟩ := supplied_of_survivor hc h hp
  obtain ⟨slot, hslot, hin⟩ := slot_of_suppliedAt? hsupplied
  exact holds_of_slotsOf (List.mem_flatMap.2 ⟨_, mem_of_get? hslot, mem_entries_of_supplied hin⟩)

lemma isSingleName_of_holds (hvalid : config.validate = .ok ())
    (hc : Compiled config registry styles) {e : Entry} (he : Holds styles e)
    (hname : e.className = some name) : IsSingleName name := by
  have hset : e.isUnset = false := by simp [Entry.isUnset, hname]
  obtain ⟨_, _, _, _, rfl, _⟩ := built_of_holds hc he hset
  obtain rfl := Option.some.inj hname
  exact isSingleName_contentName hvalid _

/-- The class of an entry in a compiled class is registered. -/
lemma Compiled.contains_of_holds (hc : Compiled config registry styles) {e : Entry}
    (he : Holds styles e) (hname : e.className = some name) :
    registry.contains .atomic name = true := by
  rcases he with ⟨_, m, hget, he⟩ | ⟨_, d, hget, he⟩
  · exact (hc.classes hget).2 e he name hname
  · exact (hc.dynamics hget).2 e he name hname

/-- The themes that are left after a merge are themes among the references. -/
lemma theme_of_merged (h : refs.foldlM (Merged.apply styles) {} = .ok m)
    (hname : name ∈ m.themes.map Prod.snd) :
    ∃ space theme, .theme space theme ∈ refs ∧
      get? styles.themes (qualified space theme) = some name := by
  obtain ⟨⟨space, _⟩, hmem, rfl⟩ := List.mem_map.1 hname
  have hget := get?_of_mem (nodup_themes_run h) hmem
  rw [themes_run h] at hget
  obtain ⟨r, hfind, hin⟩ := Option.bind_eq_some_iff.1 hget
  have hr : r ∈ refs := List.mem_reverse.1 (List.mem_of_find?_eq_some hfind)
  cases r with
  | theme s theme =>
    rw [themeIn?] at hin
    split at hin
    · rename_i heq
      subst heq
      exact ⟨s, theme, hr, hin⟩
    · cases hin
  | _ => cases hin

lemma emitted_of_holds (h : sheet.compileInto config .empty = (registry, .ok styles)) {e : Entry}
    (he : Holds styles e) (hname : e.className = some name) :
    Emitted config registry styles refs name := by
  obtain ⟨hrules, hcompiled⟩ := compiled_of_compileInto h
  obtain ⟨rule, hrule⟩ := contains_iff.1 (hcompiled.contains_of_holds he hname)
  obtain ⟨hmem, hkind⟩ := registry_get?_eq_some_iff.1 hrule
  -- the registered rule may come from another entry with the same digest
  obtain ⟨e', he', hruleof⟩ := exists_entry_of_atomic h hmem hkind
  obtain ⟨_, hname', heq⟩ := Option.map_eq_some_iff.1 hruleof
  obtain ⟨rfl, rfl⟩ := Prod.mk.inj heq
  refine .atomic he' hname' hrule ?_
  rw [hrules]
  exact mem_emit_of_atomic hmem hkind config.layers

/-- No class dangles: in a sheet compiled into a fresh registry, every name in the class string of
references that resolve is written out. -/
theorem classes_emitted {result : Resolved}
    (h : sheet.compileInto config .empty = (registry, .ok styles))
    (hresolve : styles.resolve refs = .ok result) :
    ∀ name ∈ spacedNames result.classes, Emitted config registry styles refs name := by
  obtain ⟨hcheck, scope, hrun, hstyles⟩ := compileInto_eq_ok_iff.1 h
  obtain ⟨hvalid, _⟩ := check_eq_ok_iff.1 hcheck
  obtain ⟨hrules, hcompiled⟩ := compiled_of_compileInto h
  obtain ⟨m, hm, rfl⟩ := map_eq_ok hresolve
  have hthemes : ThemesRegistered config registry styles := by
    have hempty : ThemesRegistered config .empty ({} : Scope).styles := ⟨nofun, nofun⟩
    have hend := hempty.run hrun
    rw [hstyles]
    exact ⟨hend.registered, hend.named⟩
  have hnames : ∀ name ∈ m.classNames,
      IsSingleName name ∧ Emitted config registry styles refs name := by
    intro name hname
    rcases List.mem_append.1 hname with hname | hname
    · obtain ⟨e, he, hclass⟩ := List.mem_filterMap.1 hname
      have hholds := holds_of_merged hcompiled hm he
      exact ⟨isSingleName_of_holds hvalid hcompiled hholds hclass, emitted_of_holds h hholds hclass⟩
    · obtain ⟨space, theme, href, hget⟩ := theme_of_merged hm hname
      obtain ⟨rule, hrule⟩ := contains_iff.1 (hthemes.registered _ _ hget)
      obtain ⟨hmem, hkind⟩ := registry_get?_eq_some_iff.1 hrule
      constructor
      · obtain ⟨digested, rfl⟩ := hthemes.named _ _ hget
        exact isSingleName_contentName hvalid _
      · refine .theme href hget hrule ?_
        rw [hrules]
        exact mem_emit_of_theme hmem hkind config.layers
  have hclasses : spacedNames (Merged.resolved m).classes = m.classNames :=
    spacedNames_intercalate fun name hname => (hnames name hname).1
  rw [hclasses]
  exact fun name hname => (hnames name hname).2

end

theorem classes_emitted_wardrobe :
    ∃ registry styles result, wardrobe.compileInto {} .empty = (registry, .ok styles) ∧
      styles.resolve worn = .ok result ∧ (spacedNames result.classes).length = 3 ∧
      ∀ name ∈ spacedNames result.classes, Emitted {} registry styles worn name := by
  have hnames : ((wardrobe.compileInto {} .empty).2 >>= fun styles => styles.resolve worn).map
      (fun result => (spacedNames result.classes).length) = .ok 3 := by decide +kernel
  obtain ⟨result, hok, hlength⟩ := map_eq_ok hnames
  obtain ⟨styles, hstyles, hresolve⟩ := bind_eq_ok hok
  have hcompiles : wardrobe.compileInto {} .empty = (_, .ok styles) := Prod.ext rfl hstyles
  exact ⟨_, styles, result, hcompiles, hresolve, hlength, classes_emitted hcompiles hresolve⟩

end AtomicCss.Proofs
