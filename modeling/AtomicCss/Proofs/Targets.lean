import AtomicCss.Proofs.Flatten
import AtomicCss.Proofs.Merge

/-!
# Which merged entries compete

Two entries of one target survive a merge together only under different spellings: either the
conditions are written differently in two classes, or a pseudo-element is written once as a group
and once as a condition. Slots are told apart by the texts that were written, targets by what these
texts mean.
-/

namespace AtomicCss.Proofs

open Keyed Declaration

/-- What an entry's rule applies to. -/
def target (e : Entry) : String × Option String × Option String :=
  (e.property, e.suffix, e.atRule)

/-- An entry under its key and condition. -/
abbrev Placed := (String × String) × Entry

/-- What was written for an entry: its property in the scope of a pseudo-element or of none, under
a condition. -/
structure Origin (p : Placed) (scope : Option String) (written : String) (parsed : Condition) :
    Prop where
  key : p.1.1 = Naming.slotKey p.2.property scope
  condition : p.1.2 = bundleKey written
  parse : Condition.parse written = .ok parsed
  suffix : p.2.suffix = suffixBehind scope parsed.suffix
  atRule : p.2.atRule = parsed.atRule

/-- The scope is a text that is not empty, or none. -/
def IsScope (scope : Option String) : Prop :=
  ∀ s, scope = some s → s.isEmpty = false

/-- Every entry of a slot has an origin, and no two of them have one target. -/
def SlotOrigins (key : String) (slot : Slot) : Prop :=
  ∃ scope, IsScope scope ∧
    (∀ condition e, supplied? condition slot = some e → e.isUnset = false →
      ∃ written parsed, Origin ((key, condition), e) scope written parsed) ∧
    ∀ condition₁ e₁ condition₂ e₂, supplied? condition₁ slot = some e₁ → e₁.isUnset = false →
      supplied? condition₂ slot = some e₂ → e₂.isUnset = false → target e₁ = target e₂ →
        condition₁ = condition₂

lemma nonempty?_eq {text : Option String} (h : ∀ s, text = some s → s.isEmpty = false) :
    nonempty? text = text := by
  cases text with
  | none => rfl
  | some s => simp [nonempty?, h s rfl]

lemma isScope_suffixBehind {scope suffix : Option String} (hscope : IsScope scope)
    (hsuffix : IsScope suffix) : IsScope (suffixBehind scope suffix) := by
  intro s hs
  cases scope with
  | none => exact hsuffix s hs
  | some pseudo =>
    have hpseudo := hscope pseudo rfl
    cases suffix with
    | none => exact hscope s hs
    | some t =>
      cases hs
      simp_all

lemma suffixBehind_inj {scope a b : Option String} (ha : IsScope a) (hb : IsScope b)
    (h : suffixBehind scope a = suffixBehind scope b) : a = b := by
  cases scope with
  | none => cases a <;> cases b <;> exact h
  | some pseudo =>
    -- a suffix that is there is longer than none
    have hlonger : ∀ t : String, t.isEmpty = false → pseudo ≠ pseudo ++ t := by
      intro t ht heq
      have hlength := congrArg (fun s => s.toList.length) heq
      simp only [String.toList_append, List.length_append] at hlength
      have hnil : t.toList = [] := List.length_eq_zero_iff.1 (by omega)
      simp [String.toList_eq_nil_iff.1 hnil] at ht
    cases a with
    | none =>
      cases b with
      | none => rfl
      | some t => exact (hlonger t (hb t rfl) (Option.some.inj h)).elim
    | some s =>
      cases b with
      | none => exact (hlonger s (ha s rfl) (Option.some.inj h).symm).elim
      | some t => rw [(String.append_right_inj pseudo).1 (Option.some.inj h)]

/-- Under one scope the target tells what the condition means. -/
lemma parsed_eq_of_target {p q : Placed} {scope : Option String} {w₁ w₂ : String}
    {c₁ c₂ : Condition} (hp : Origin p scope w₁ c₁) (hq : Origin q scope w₂ c₂)
    (h : target p.2 = target q.2) : c₁ = c₂ := by
  obtain ⟨_, hrest⟩ := Prod.mk.inj h
  obtain ⟨hsuffix, hatRule⟩ := Prod.mk.inj hrest
  rw [hp.suffix, hq.suffix] at hsuffix
  rw [hp.atRule, hq.atRule] at hatRule
  have hinj := suffixBehind_inj (nonempty_of_parse hp.parse).1 (nonempty_of_parse hq.parse).1
    hsuffix
  cases c₁
  cases c₂
  exact congrArg₂ Condition.mk hinj hatRule

/-- The suffix and at-rule of an entry are those it was written under. -/
lemma parts_of_entryOf {config : Config} {property : String} {suffix atRule : Option String}
    {value : Value} {e : Entry} (h : EntryOf config property suffix atRule value e)
    (hsuffix : IsScope suffix) (hatRule : IsScope atRule) :
    e.suffix = suffix ∧ e.atRule = atRule := by
  cases h with
  | unset => exact ⟨nonempty?_eq hsuffix, rfl⟩
  | build => exact ⟨nonempty?_eq hsuffix, nonempty?_eq hatRule⟩

lemma origin_of_leafEntry {config : Config} {property : String} {scope : Option String}
    {leaf : Leaf} {item : String × Entry} (hscope : IsScope scope)
    (h : LeafEntry config property scope leaf item) :
    ∃ parsed, Origin ((Naming.slotKey item.2.property scope, item.1), item.2) scope
      leaf.condition parsed := by
  obtain ⟨parsed, hparse, hkey, hentry⟩ := h
  obtain ⟨hs, ha⟩ := nonempty_of_parse hparse
  obtain ⟨hsuffix, hatRule⟩ := parts_of_entryOf hentry (isScope_suffixBehind hscope hs) ha
  exact ⟨parsed, rfl, hkey, hparse, hsuffix, hatRule⟩

/-- A single entry is written without a condition. -/
lemma slotOrigins_atomic {scope : Option String} {e : Entry} (hscope : IsScope scope)
    (hsuffix : e.suffix = scope) (hatRule : e.atRule = none) :
    SlotOrigins (Naming.slotKey e.property scope) (.atomic e) := by
  have hdefault : ∀ {condition e'}, supplied? condition (.atomic e) = some e' →
      condition = defaultKey ∧ e' = e := by
    intro condition e' hs
    by_cases hd : condition = defaultKey
    · simp only [supplied?, hd, if_true] at hs
      exact ⟨hd, (Option.some.inj hs).symm⟩
    · simp [supplied?, hd] at hs
  refine ⟨scope, hscope, ?_, ?_⟩
  · intro condition e' hs _
    obtain ⟨rfl, rfl⟩ := hdefault hs
    refine ⟨"", ⟨none, none⟩, rfl, rfl, rfl, ?_, hatRule⟩
    rw [hsuffix]
    cases scope <;> rfl
  · intro condition₁ e₁ condition₂ e₂ h₁ _ h₂ _ _
    rw [(hdefault h₁).1, (hdefault h₂).1]

lemma slotOrigins_of_slotOf {config : Config} {property : String} {scope : Option String}
    {value : Value} {item : String × Slot} (hscope : IsScope scope)
    (h : SlotOf config property scope value item) : SlotOrigins item.1 item.2 := by
  cases h with
  | @atomic e he =>
    cases he with
    | unset =>
      -- an unset supplies nothing that lasts
      refine ⟨scope, hscope, ?_, ?_⟩
      · intro condition e hs hu
        by_cases hd : condition = defaultKey <;> simp [supplied?, hd] at hs
        subst hs
        cases hu
      · intro condition₁ e₁ condition₂ e₂ h₁ hu₁
        by_cases hd : condition₁ = defaultKey <;> simp [supplied?, hd] at h₁
        subst h₁
        cases hu₁
    | build => exact slotOrigins_atomic hscope (nonempty?_eq hscope) rfl
  | @bundle definition longhand map leaves bundle _ hflatten _ hentries =>
    have hentry : ∀ {condition e}, supplied? condition (.bundle bundle) = some e →
        e.property = longhand ∧ ∃ leaf ∈ leaves, ∃ parsed,
          condition = bundleKey leaf.condition ∧
          Origin ((Naming.slotKey longhand scope, condition), e) scope leaf.condition parsed := by
      intro condition e hs
      obtain ⟨rfl, leaf, hleaf, hleafEntry⟩ := hentries _ (mem_of_get? hs)
      obtain ⟨parsed, horigin⟩ := origin_of_leafEntry hscope hleafEntry
      exact ⟨rfl, leaf, hleaf, parsed, horigin.condition, horigin⟩
    refine ⟨scope, hscope, ?_, ?_⟩
    · intro condition e hs _
      obtain ⟨_, leaf, _, parsed, _, horigin⟩ := hentry hs
      exact ⟨_, parsed, horigin⟩
    · intro condition₁ e₁ condition₂ e₂ h₁ _ h₂ _ htarget
      obtain ⟨_, leaf₁, hleaf₁, parsed₁, rfl, horigin₁⟩ := hentry h₁
      obtain ⟨_, leaf₂, hleaf₂, parsed₂, rfl, horigin₂⟩ := hentry h₂
      obtain rfl := parsed_eq_of_target horigin₁ horigin₂ htarget
      rw [leaf_eq_of_flatten hflatten hleaf₁ hleaf₂ horigin₁.parse horigin₂.parse]

/-- The scope is a pseudo-element, or none. -/
def IsPseudoScope (scope : Option String) : Prop :=
  ∀ s, scope = some s → ConditionKind.ofKey? s = some .pseudoElement

lemma IsPseudoScope.isScope {scope : Option String} (h : IsPseudoScope scope) : IsScope scope := by
  intro s hs
  have hkind := h s hs
  by_cases hempty : s = ""
  · subst hempty
    exact absurd hkind (by decide)
  · simpa using hempty

lemma isPseudoScope_none : IsPseudoScope none :=
  nofun

lemma isPseudoScope_of_declares {declarations : Declarations} {property : String}
    {scope : Option String} {value : Value} (h : Declares declarations property scope value) :
    IsPseudoScope scope := by
  cases h with
  | plain => exact isPseudoScope_none
  | grouped _ hkind _ =>
    intro s hs
    cases hs
    exact hkind

lemma slotOrigins_of_ref {config : Config} {registry : Registry} {styles : Styles}
    (hc : Compiled config registry styles) {r : ClassRef} {key : String} {slot : Slot}
    (h : get? (slotsOf styles r) key = some slot) : SlotOrigins key slot := by
  have hmem := mem_of_get? h
  cases r with
  | staticClass name =>
    simp only [slotsOf] at hmem
    cases hget : get? styles.classes name with
    | none =>
      rw [hget] at hmem
      cases hmem
    | some m =>
      rw [hget] at hmem
      obtain ⟨declarations, hgives⟩ := (hc.classes hget).1
      obtain ⟨property, scope, value, hdeclares, _, hslot⟩ := slotOf_of_mem hgives hmem
      exact slotOrigins_of_slotOf (isPseudoScope_of_declares hdeclares).isScope hslot
  | dynamic name arguments =>
    simp only [slotsOf] at hmem
    cases hget : get? styles.dynamics name with
    | none =>
      rw [hget] at hmem
      cases hmem
    | some d =>
      rw [hget] at hmem
      obtain ⟨parameters, properties, hgives⟩ := (hc.dynamics hget).1
      obtain ⟨p, _, heq⟩ := dynamic_slot hgives hmem
      obtain ⟨rfl, rfl⟩ := Prod.mk.inj heq
      exact slotOrigins_atomic (fun _ hs => by cases hs) rfl rfl
  | theme => cases hmem
  | skipped => cases hmem

/-- Two spellings of one condition, that no reference brings in together. -/
def Respelled (styles : Styles) (refs : List ClassRef) (p q : Placed) : Prop :=
  ∃ scope w₁ w₂ parsed, Origin p scope w₁ parsed ∧ Origin q scope w₂ parsed ∧ w₁ ≠ w₂ ∧
    ∀ r ∈ refs, suppliedAt? styles p.1.1 p.1.2 r = some p.2 →
      suppliedAt? styles q.1.1 q.1.2 r ≠ some q.2

/-- One property in the scopes of two pseudo-elements, or of one and of none. -/
def Rescoped (p q : Placed) : Prop :=
  ∃ s₁ s₂ w₁ w₂ c₁ c₂, s₁ ≠ s₂ ∧ Origin p s₁ w₁ c₁ ∧ Origin q s₂ w₂ c₂

lemma slot_of_suppliedAt? {styles : Styles} {key condition : String} {r : ClassRef} {e : Entry}
    (h : suppliedAt? styles key condition r = some e) :
    ∃ slot, get? (slotsOf styles r) key = some slot ∧ supplied? condition slot = some e :=
  Option.bind_eq_some_iff.1 h

lemma kept_eq_some {e e' : Entry} (h : kept e = some e') : e = e' ∧ e'.isUnset = false := by
  unfold kept at h
  by_cases hu : e.isUnset = true
  · rw [if_pos hu] at h
    cases h
  · rw [if_neg hu] at h
    obtain rfl := Option.some.inj h
    exact ⟨rfl, Bool.eq_false_iff.2 hu⟩

/-- What is left after a merge was supplied by one of the references, and is no unset. -/
lemma supplied_of_survivor {config : Config} {registry : Registry} {styles : Styles}
    {refs : List ClassRef} {m : Merged} (hc : Compiled config registry styles)
    (h : refs.foldlM (Merged.apply styles) {} = .ok m) {p : Placed} (hp : p ∈ survivors m.slots) :
    decided? styles refs p.1.1 p.1.2 = some p.2 ∧ p.2.isUnset = false ∧
      ∃ r ∈ refs, suppliedAt? styles p.1.1 p.1.2 r = some p.2 := by
  have hkeyed := wellKeyed_run h
  have hget := get?_of_mem (nodup_keys_survivors hkeyed) hp
  rw [get?_survivors hkeyed, held_run hc h] at hget
  obtain ⟨e, hdecided, hkept⟩ := Option.bind_eq_some_iff.1 hget
  obtain ⟨rfl, hu⟩ := kept_eq_some hkept
  obtain ⟨r, hfind, hsupplied⟩ := Option.bind_eq_some_iff.1 hdecided
  exact ⟨hdecided, hu, r, List.mem_reverse.1 (List.mem_of_find?_eq_some hfind), hsupplied⟩

lemma competing_survivors {config : Config} {registry : Registry} {styles : Styles}
    {refs : List ClassRef} {m : Merged} (hc : Compiled config registry styles)
    (h : refs.foldlM (Merged.apply styles) {} = .ok m) {p q : Placed}
    (hp : p ∈ survivors m.slots) (hq : q ∈ survivors m.slots) (hne : p ≠ q)
    (htarget : target p.2 = target q.2) : Respelled styles refs p q ∨ Rescoped p q := by
  have hplace : p.1 ≠ q.1 := by
    intro heq
    have hnodup := nodup_keys_survivors (wellKeyed_run h)
    have hsame := (get?_of_mem hnodup hp).symm.trans (heq ▸ get?_of_mem hnodup hq)
    exact hne (Prod.ext heq (Option.some.inj hsame))
  obtain ⟨_, hup, rp, _, hsp⟩ := supplied_of_survivor hc h hp
  obtain ⟨_, huq, rq, _, hsq⟩ := supplied_of_survivor hc h hq
  obtain ⟨slotp, hslotp, hinp⟩ := slot_of_suppliedAt? hsp
  obtain ⟨slotq, hslotq, hinq⟩ := slot_of_suppliedAt? hsq
  obtain ⟨s₁, _, horigins₁, _⟩ := slotOrigins_of_ref hc hslotp
  obtain ⟨s₂, _, horigins₂, _⟩ := slotOrigins_of_ref hc hslotq
  obtain ⟨w₁, c₁, ho₁⟩ := horigins₁ _ _ hinp hup
  obtain ⟨w₂, c₂, ho₂⟩ := horigins₂ _ _ hinq huq
  by_cases hscope : s₁ = s₂
  · subst hscope
    obtain rfl := parsed_eq_of_target ho₁ ho₂ htarget
    have hkey : p.1.1 = q.1.1 := by
      have hproperty : p.2.property = q.2.property := (Prod.mk.inj htarget).1
      exact ho₁.key.trans (hproperty ▸ ho₂.key.symm)
    refine .inl ⟨s₁, w₁, w₂, c₁, ho₁, ho₂, ?_, ?_⟩
    · rintro rfl
      exact hplace (Prod.ext hkey (ho₁.condition.trans ho₂.condition.symm))
    · -- one class has one slot under the key, whose entries have different targets
      intro r _ hrp hrq
      obtain ⟨slot, hslot, hin₁⟩ := slot_of_suppliedAt? hrp
      obtain ⟨slot', hslot', hin₂⟩ := slot_of_suppliedAt? hrq
      rw [← hkey, hslot] at hslot'
      obtain rfl := Option.some.inj hslot'
      obtain ⟨_, _, _, hdistinct⟩ := slotOrigins_of_ref hc hslot
      exact hplace (Prod.ext hkey (hdistinct _ _ _ _ hin₁ hup hin₂ huq htarget))
  · exact .inr ⟨s₁, s₂, w₁, w₂, c₁, c₂, hscope, ho₁, ho₂⟩

/-- The class string lists what the references leave, and two entries of one target are left only
under different spellings. -/
def SpelledApart (styles : Styles) (refs : List ClassRef) (classes : String) : Prop :=
  ∃ (entries : Keyed (String × String) Entry) (themed : Keyed String String),
    (keys entries).Nodup ∧
    (∀ p ∈ entries, decided? styles refs p.1.1 p.1.2 = some p.2) ∧
    (∀ space, get? themed space = themeOf? styles refs space) ∧
    classes = String.intercalate " "
      (entries.filterMap (fun p => p.2.className) ++ themed.map Prod.snd) ∧
    ∀ p ∈ entries, ∀ q ∈ entries, p ≠ q → target p.2 = target q.2 →
      Respelled styles refs p q ∨ Rescoped p q

/-- The entries that survive a merge have different targets, up to two spellings of one condition
by two classes, and to a pseudo-element that is a group here and a condition there. -/
theorem resolve_targets {config : Config} {sheet : Sheet} {styles : Styles} {refs : List ClassRef}
    {result : Resolved} (hs : sheet.compile config = .ok styles)
    (hr : styles.resolve refs = .ok result) : SpelledApart styles refs result.classes := by
  obtain ⟨registry, _, hcompiled⟩ := compiled_of_compile hs
  obtain ⟨m, hm, rfl⟩ := map_eq_ok hr
  refine ⟨survivors m.slots, m.themes, nodup_keys_survivors (wellKeyed_run hm), ?_,
    themes_run hm, ?_, ?_⟩
  · intro p hp
    exact (supplied_of_survivor hcompiled hm hp).1
  · have hclasses : (survivors m.slots).filterMap (fun p => p.2.className) =
        m.slots.entries.filterMap Entry.className := by
      rw [← map_snd_survivors, List.filterMap_map]
      rfl
    rw [hclasses]
    rfl
  · intro p hp q hq hne htarget
    exact competing_survivors hcompiled hm hp hq hne htarget

/-- A pseudo-element is a condition in one class and a group in the other. -/
def regrouped : Sheet :=
  Sheet.empty
    |>.define (.staticClass "one" [.property "color" (.map [("::before", .scalar (.text "red"))])])
    |>.define (.staticClass "two" [.property "::before" (.map [("color", .scalar (.text "blue"))])])

/-- The at-rule has one blank more in the other class. -/
def respelled : Sheet :=
  Sheet.empty
    |>.define (.staticClass "one"
      [.property "color" (.map [("@media print", .scalar (.text "red"))])])
    |>.define (.staticClass "two"
      [.property "color" (.map [("@media  print", .scalar (.text "blue"))])])

def oneTwo : List ClassRef :=
  [.staticClass "one", .staticClass "two"]

theorem resolve_targets_regrouped :
    ∃ styles result, regrouped.compile {} = .ok styles ∧ styles.resolve oneTwo = .ok result ∧
      SpelledApart styles oneTwo result.classes := by
  have hok : (regrouped.compile {} >>= fun styles => styles.resolve oneTwo).isOk = true := by
    decide +kernel
  obtain ⟨result, hok⟩ := eq_ok_of_isOk hok
  obtain ⟨styles, hs, hr⟩ := bind_eq_ok hok
  exact ⟨styles, result, hs, hr, resolve_targets hs hr⟩

/-- The class name and the target of what is decided at a place. -/
def decidedAt (styles : Styles) (place : String × String) :
    Option (Option String × String × Option String × Option String) :=
  (decided? styles oneTwo place.1 place.2).map fun e => (e.className, target e)

/-- The merge of a sheet's two classes is two class names, decided at two places for one target. -/
def Competing (sheet : Sheet) (a b : (String × String) × String)
    (shared : String × Option String × Option String) : Prop :=
  ∃ styles result, sheet.compile {} = .ok styles ∧ styles.resolve oneTwo = .ok result ∧
    result.classes = a.2 ++ " " ++ b.2 ∧ decidedAt styles a.1 = some (some a.2, shared) ∧
    decidedAt styles b.1 = some (some b.2, shared)

def competing? (sheet : Sheet) (a b : (String × String) × String)
    (shared : String × Option String × Option String) : Except StyleError Bool := do
  let styles ← sheet.compile {}
  let result ← styles.resolve oneTwo
  .ok (decide (result.classes = a.2 ++ " " ++ b.2 ∧ decidedAt styles a.1 = some (some a.2, shared) ∧
    decidedAt styles b.1 = some (some b.2, shared)))

lemma competing_of_check {sheet : Sheet} {a b : (String × String) × String}
    {shared : String × Option String × Option String}
    (h : (competing? sheet a b shared).toOption = some true) : Competing sheet a b shared := by
  obtain ⟨styles, hs, h⟩ := bind_eq_ok (eq_ok_of_toOption h)
  obtain ⟨result, hr, h⟩ := bind_eq_ok h
  exact ⟨styles, result, hs, hr, of_decide_eq_true (Except.ok.inj h)⟩

/-- Both ways in which two classes of one target come to stand side by side. -/
theorem targets_repeat :
    Competing regrouped (("color", "::before"), "x3fedac3")
      (("color:::before", "default"), "x819c9c0") ("color", some "::before", none) ∧
    Competing respelled (("color", "@media print"), "x7ab5cd9")
      (("color", "@media  print"), "xfaf8af7") ("color", none, some "@media print") := by
  constructor
  · apply competing_of_check
    decide +kernel
  · apply competing_of_check
    decide +kernel

end AtomicCss.Proofs
