import AtomicCss.Proofs.RuleSources
import Mathlib.Data.Prod.Lex
import Mathlib.Data.String.Basic

/-!
# The cascade of atomic rules

The packed priority and the texts behind it order atomic rules lexicographically: by the group of
the property, by whether there is an at-rule and a suffix, by the tier of the property, and then by
the property, the suffix and the class name. A shorthand has the group of all that it sets and a
coarser tier, so it stands in front of that.
-/

namespace AtomicCss.Proofs

open Keyed Declaration Stylesheet

/-- What the place of an atomic rule depends on, the coarsest part first. -/
abbrev Place := ℕ ×ₗ Bool ×ₗ Bool ×ₗ ℕ ×ₗ String ×ₗ String ×ₗ String

/-- The group, whether there is an at-rule and a suffix, the tier, the property, the suffix and the
class name. -/
def place (e : Entry) : Place :=
  toLex ((Property.group e.property).rank, toLex (e.atRule.isSome, toLex (e.suffix.isSome,
    toLex ((Property.tier e.property).ctorIdx, toLex (e.property,
      toLex (e.selector, e.className.getD ""))))))

/-- The rule of an entry under its class name. -/
def ownRule (e : Entry) : NamedRule :=
  (e.className.getD "", .ofEntry e)

/-- The priority holds the coarse parts of the place of an entry, each within its band. -/
def Packed (e : Entry) : Prop :=
  e.priority = (Property.group e.property).rank * 10000 +
    (Property.tier e.property).ctorIdx * 100 + e.suffix.isSome.toNat * 300 +
      e.atRule.isSome.toNat * 600

lemma offset_eq (tier : PropertyTier) : tier.offset = tier.ctorIdx * 100 := by
  cases tier <;> rfl

lemma ctorIdx_le (tier : PropertyTier) : tier.ctorIdx ≤ 2 := by
  cases tier <;> decide

lemma isGiven_nonempty? (text : Option String) :
    isGiven (nonempty? text) = (nonempty? text).isSome := by
  cases text with
  | none => rfl
  | some s =>
    unfold nonempty? isGiven
    by_cases hs : s.isEmpty = true <;> simp [Option.filter, hs]

lemma packed_build (config : Config) (property : String) (value : Normalized)
    (suffix atRule : Option String) : Packed (.build config property value suffix atRule) := by
  have hpriority : (Entry.build config property value suffix atRule).priority =
      priority property (nonempty? suffix) (nonempty? atRule) := rfl
  have hflag : ∀ (given : Bool) (n : ℕ), (if given = true then n else 0) = given.toNat * n := by
    intro given n
    cases given <;> simp
  unfold Packed
  rw [hpriority, priority, isGiven_nonempty?, isGiven_nonempty?, hflag, hflag, offset_eq]
  rfl

lemma packed_of_built {config : Config} {e : Entry} (h : Built config e) : Packed e := by
  obtain ⟨_, _, _, _, rfl, _⟩ := h
  exact packed_build _ _ _ _ _

lemma lt_iff_toNat {a b : Bool} : a < b ↔ a.toNat < b.toNat := by
  cases a <;> cases b <;> decide

lemma eq_iff_toNat {a b : Bool} : a = b ↔ a.toNat = b.toNat := by
  cases a <;> cases b <;> decide

/-- Numbers packed like priorities compare lexicographically: nothing that stands behind a part
outweighs it, since each part fits its band. -/
lemma lex_of_packed {r r' t t' : ℕ} {a a' s s' : Bool} (ht : t ≤ 2) (ht' : t' ≤ 2) {finer : Prop}
    (h : r * 10000 + t * 100 + s.toNat * 300 + a.toNat * 600 <
        r' * 10000 + t' * 100 + s'.toNat * 300 + a'.toNat * 600 ∨
      r * 10000 + t * 100 + s.toNat * 300 + a.toNat * 600 =
        r' * 10000 + t' * 100 + s'.toNat * 300 + a'.toNat * 600 ∧ finer) :
    r < r' ∨ r = r' ∧ (a < a' ∨ a = a' ∧ (s < s' ∨ s = s' ∧ (t < t' ∨ t = t' ∧ finer))) := by
  have ha := a.toNat_le
  have ha' := a'.toNat_le
  have hs := s.toNat_le
  have hs' := s'.toNat_le
  rw [lt_iff_toNat, lt_iff_toNat, eq_iff_toNat, eq_iff_toNat]
  by_cases hfiner : finer
  · simp only [hfiner, and_true] at h ⊢
    omega
  · simp only [hfiner, and_false, or_false] at h ⊢
    omega

/-- Rules in the order of their keys have their places in lexicographic order. -/
lemma place_lt_of_compare {e f : Entry} (he : Packed e) (hf : Packed f)
    (h : (orderKey (ownRule e)).compare (orderKey (ownRule f)) = .lt) : place e < place f := by
  unfold RuleKey.compare orderKey ownRule Rule.ofEntry at h
  simp only [Ordering.then_eq_lt, compare_lt_iff_lt, Std.LawfulEqOrd.compare_eq_iff_eq] at h
  rw [he, hf] at h
  simp only [place, Prod.Lex.toLex_lt_toLex]
  exact lex_of_packed (ctorIdx_le _) (ctorIdx_le _) h

/-- A number for each text. The tables are decided over these numbers, which compare much faster
than texts. -/
def code (text : String) : ℕ :=
  text.toByteArray.data.toList.foldr (fun b n => b.toNat + 1 + 256 * n) 0

lemma code_injective : Function.Injective code := by
  have hbytes : ∀ bs cs : List UInt8, bs.foldr (fun b n => b.toNat + 1 + 256 * n) 0 =
      cs.foldr (fun b n => b.toNat + 1 + 256 * n) 0 → bs = cs := by
    intro bs
    induction bs with
    | nil =>
      intro cs h
      cases cs with
      | nil => rfl
      | cons c cs =>
        simp only [List.foldr_nil, List.foldr_cons] at h
        omega
    | cons b bs ih =>
      intro cs h
      cases cs with
      | nil =>
        simp only [List.foldr_nil, List.foldr_cons] at h
        omega
      | cons c cs =>
        have hb := b.toNat_lt
        have hc := c.toNat_lt
        simp only [List.foldr_cons] at h
        have hhead : b = c := UInt8.toNat_inj.1 (by omega)
        have htail : bs = cs := ih cs (by omega)
        rw [hhead, htail]
  intro s t h
  exact String.toByteArray_inj.1 (ByteArray.ext (Array.toList_inj.1 (hbytes _ _ h)))

def codedGroup (n : ℕ) : PropertyGroup :=
  (PropertyGroup.all.find? fun g => (g.members.map code).contains n).getD .misc

def codedLonghands? (n : ℕ) : Option (List String) :=
  (Property.shorthands.map fun s => (code s.1, s.2)).lookup n

def codedTier (n : ℕ) : PropertyTier :=
  match codedLonghands? n with
  | none => .longhand
  | some parts =>
    if parts.any fun p => (codedLonghands? (code p)).isSome then .shorthandOfShorthands
    else .shorthand

lemma codedGroup_code (name : String) : codedGroup (code name) = Property.group name := by
  have hcontains : ∀ names : List String,
      (names.map code).contains (code name) = names.contains name := by
    intro names
    rw [Bool.eq_iff_iff, List.contains_iff_mem, List.contains_iff_mem,
      List.mem_map_of_injective code_injective]
  unfold codedGroup Property.group
  simp only [hcontains]

lemma codedLonghands?_code (name : String) :
    codedLonghands? (code name) = Property.longhands? name := by
  unfold codedLonghands? Property.longhands?
  induction Property.shorthands with
  | nil => rfl
  | cons s table ih =>
    have hcode : (code name == code s.1) = (name == s.1) := by
      rw [Bool.eq_iff_iff, beq_iff_eq, beq_iff_eq, code_injective.eq_iff]
    rw [List.map_cons, List.lookup_cons, List.lookup_cons, hcode, ih]

lemma codedTier_code (name : String) : codedTier (code name) = Property.tier name := by
  unfold codedTier Property.tier
  simp only [codedLonghands?_code]
  rfl

/-- What a shorthand of the table sets directly is of its group, and of a finer tier. -/
lemma shorthand_coarser : ∀ s ∈ Property.shorthands, ∀ l ∈ s.2,
    Property.group s.1 = Property.group l ∧
      (Property.tier s.1).ctorIdx < (Property.tier l).ctorIdx := by
  have hcoded : ∀ s ∈ Property.shorthands, ∀ l ∈ s.2,
      codedGroup (code s.1) = codedGroup (code l) ∧
        (codedTier (code s.1)).ctorIdx < (codedTier (code l)).ctorIdx := by
    decide +kernel
  simpa only [codedGroup_code, codedTier_code] using hcoded

/-- What a shorthand sets, directly or not, is of its group, and of a finer tier. -/
lemma coarser_of_sets {s l : String} (h : Property.Sets s l) :
    Property.group s = Property.group l ∧
      (Property.tier s).ctorIdx < (Property.tier l).ctorIdx := by
  induction h with
  | direct hparts hl =>
    obtain ⟨front, back, heq, _⟩ := List.lookup_eq_some_iff.1 hparts
    refine shorthand_coarser (_, _) ?_ _ hl
    rw [heq]
    exact List.mem_append_right _ List.mem_cons_self
  | through _ _ ihs ihl => exact ⟨ihs.1.trans ihl.1, ihs.2.trans ihl.2⟩

lemma place_lt_of_sets {e f : Entry} (hsuffix : e.suffix.isSome = f.suffix.isSome)
    (hatRule : e.atRule.isSome = f.atRule.isSome) (h : Property.Sets e.property f.property) :
    place e < place f := by
  obtain ⟨hgroup, htier⟩ := coarser_of_sets h
  simp only [place, Prod.Lex.toLex_lt_toLex]
  exact .inr ⟨by rw [hgroup], .inr ⟨hatRule, .inr ⟨hsuffix, .inl htier⟩⟩⟩

/-- The atomic rules of a stylesheet are the rules of these entries, in this order. Each of them
stands in a compiled class, and its rule is written out once, together with its twin. -/
structure WritesOut (layers : Bool) (registry : Registry) (styles : Styles) (order : List Entry) :
    Prop where
  held : ∀ e ∈ order, Holds styles e ∧ e.isUnset = false
  written : ∃ before themes, Arranged registry.rules before (order.map ownRule) themes ∧
    styles.rules = before.map plainRule ++ layerStatement layers (order.map ownRule) ++
      (order.map ownRule).flatMap (atomicRules layers) ++ themes.map plainRule

/-- Rules that belong to entries are the rules of a list of entries. -/
lemma exists_entries {P : Entry → Prop} {rules : List NamedRule}
    (h : ∀ r ∈ rules, ∃ e, P e ∧ Registry.ruleOf? e = some r) :
    ∃ order : List Entry, order.map ownRule = rules ∧
      ∀ e ∈ order, P e ∧ e.isUnset = false := by
  induction rules with
  | nil => exact ⟨[], rfl, nofun⟩
  | cons r rest ih =>
    obtain ⟨e, he, hrule⟩ := h r List.mem_cons_self
    obtain ⟨order, rfl, horder⟩ := ih fun r hr => h r (List.mem_cons_of_mem _ hr)
    obtain ⟨name, hname, rfl⟩ := Option.map_eq_some_iff.1 hrule
    refine ⟨e :: order, ?_, List.forall_mem_cons.2 ⟨⟨he, ?_⟩, horder⟩⟩
    · simp [ownRule, hname]
    · simp [Entry.isUnset, hname]

lemma exists_writesOut {config : Config} {sheet : Sheet} {registry : Registry} {styles : Styles}
    (hs : sheet.compileInto config .empty = (registry, .ok styles)) :
    ∃ order, WritesOut config.layers registry styles order := by
  obtain ⟨hrules, _⟩ := compiled_of_compileInto hs
  have hentries : ∀ r ∈ sortedAtomic registry.rules,
      ∃ e, Holds styles e ∧ Registry.ruleOf? e = some r := by
    intro r hr
    obtain ⟨hr, hkind⟩ := mem_sortedAtomic.1 hr
    exact exists_entry_of_atomic hs hr hkind
  obtain ⟨order, horder, hheld⟩ := exists_entries hentries
  refine ⟨order, hheld, ofKinds kindsBeforeAtomic registry.rules, ofKind .theme registry.rules, ?_⟩
  rw [hrules, horder]
  exact ⟨arranged_sorted registry, emit_eq registry config.layers⟩

/-- The places of the rules increase along the stylesheet. -/
lemma WritesOut.increasing {config : Config} {registry : Registry} {styles : Styles}
    {order : List Entry} (h : WritesOut config.layers registry styles order)
    (hcompiled : Compiled config registry styles) :
    order.Pairwise fun e f => place e < place f := by
  obtain ⟨before, themes, harranged, _⟩ := h.written
  apply (List.pairwise_map.1 harranged.increasing).imp_of_mem
  intro e f he hf hcompare
  obtain ⟨heheld, hename⟩ := h.held e he
  obtain ⟨hfheld, hfname⟩ := h.held f hf
  exact place_lt_of_compare (packed_of_built (built_of_holds hcompiled heheld hename))
    (packed_of_built (built_of_holds hcompiled hfheld hfname)) hcompare

/-- Every registered atomic rule is the rule of one of the entries. -/
lemma WritesOut.exists_of_mem {layers : Bool} {registry : Registry} {styles : Styles}
    {order : List Entry} (h : WritesOut layers registry styles order) {r : NamedRule}
    (hr : r ∈ registry.rules) (hkind : r.2.kind = .atomic) : ∃ e ∈ order, ownRule e = r := by
  obtain ⟨before, themes, harranged, _⟩ := h.written
  have hmem := harranged.complete.mem_iff.2 hr
  rw [List.mem_append, List.mem_append] at hmem
  rcases hmem with (hbefore | hatomic) | htheme
  · have hlt := harranged.beforeAtomic r hbefore
    rw [hkind] at hlt
    exact (Nat.lt_irrefl _ hlt).elim
  · exact List.mem_map.1 hatomic
  · have htheme := harranged.atEnd r htheme
    rw [hkind] at htheme
    cases htheme

/-- The atomic rules of a stylesheet stand in the lexicographic order of their places. So of two
rules alike in whether they have a suffix and an at-rule, the one of a shorthand stands in front of
the one of a property that it sets. -/
theorem cascade_lexicographic {config : Config} {sheet : Sheet} {registry : Registry}
    {styles : Styles} (hs : sheet.compileInto config .empty = (registry, .ok styles)) :
    ∃ order, WritesOut config.layers registry styles order ∧
      (∀ i j (hi : i < order.length) (hj : j < order.length),
        i < j ↔ place order[i] < place order[j]) ∧
      ∀ i j (hi : i < order.length) (hj : j < order.length),
        order[i].suffix.isSome = order[j].suffix.isSome →
        order[i].atRule.isSome = order[j].atRule.isSome →
        Property.Sets order[i].property order[j].property → i < j := by
  obtain ⟨_, hcompiled⟩ := compiled_of_compileInto hs
  obtain ⟨order, horder⟩ := exists_writesOut hs
  have hplaces := List.pairwise_iff_getElem.1 (horder.increasing hcompiled)
  have hiff : ∀ i j (hi : i < order.length) (hj : j < order.length),
      i < j ↔ place order[i] < place order[j] := by
    intro i j hi hj
    constructor
    · exact hplaces i j hi hj
    · intro hlt
      rcases Nat.lt_trichotomy i j with hij | rfl | hji
      · exact hij
      · exact (lt_irrefl _ hlt).elim
      · exact (lt_asymm hlt (hplaces j i hj hi hji)).elim
  refine ⟨order, horder, hiff, ?_⟩
  intro i j hi hj hsuffix hatRule hsets
  exact (hiff i j hi hj).2 (place_lt_of_sets hsuffix hatRule hsets)

/-- A class with a margin at the top, and behind it a margin all around. -/
def topThenAround : Sheet :=
  Sheet.empty.define (.staticClass "one"
    [.property "margin-top" (.scalar (.text "1px")), .property "margin" (.scalar (.text "2px"))])

def marginTop : Entry :=
  .build {} "margin-top" ⟨["1px"]⟩ none none

def marginAround : Entry :=
  .build {} "margin" ⟨["2px"]⟩ none none

lemma topThenAround_compiles :
    ∃ registry styles, topThenAround.compileInto {} .empty = (registry, .ok styles) ∧
      (∀ e, Holds styles e → e = marginTop ∨ e = marginAround) ∧
      registry.rules = [ownRule marginTop, ownRule marginAround] := by
  have hrules : (topThenAround.compileInto {} .empty).1.rules =
      [ownRule marginTop, ownRule marginAround] := by
    decide +kernel
  have hclasses : (topThenAround.compileInto {} .empty).2.toOption.map
      (fun styles => (styles.classes, styles.dynamics)) =
        some ([("one", [("margin-top", .atomic marginTop), ("margin", .atomic marginAround)])],
          []) := by
    decide +kernel
  cases h : topThenAround.compileInto {} .empty with
  | mk registry result =>
    rw [h] at hrules hclasses
    cases result with
    | error e => cases hclasses
    | ok styles =>
      refine ⟨registry, styles, rfl, ?_, hrules⟩
      obtain ⟨hstatic, hdynamic⟩ := Prod.mk.inj (Option.some.inj hclasses)
      rintro e (⟨name, m, hget, he⟩ | ⟨name, d, hget, _⟩)
      · rw [hstatic] at hget
        have hm := mem_of_get? hget
        rw [List.mem_singleton] at hm
        cases hm
        simpa [ClassEntries.entries, Slot.entries] using he
      · rw [hdynamic] at hget
        cases hget

theorem cascade_lexicographic_margin :
    ∃ registry styles order, topThenAround.compileInto {} .empty = (registry, .ok styles) ∧
      WritesOut false registry styles order ∧
      ∃ i j, ∃ (_ : i < order.length) (_ : j < order.length),
        order[i] = marginAround ∧ order[j] = marginTop ∧ i < j := by
  obtain ⟨registry, styles, hs, hheld, hrules⟩ := topThenAround_compiles
  obtain ⟨order, horder, _, hshorthand⟩ := cascade_lexicographic hs
  have hne : ownRule marginTop ≠ ownRule marginAround := by decide +kernel
  have hmem : ∀ {e}, e = marginTop ∨ e = marginAround → e ∈ order := by
    intro e he
    have hin : ownRule e ∈ registry.rules := by
      rw [hrules]
      rcases he with rfl | rfl <;> simp
    obtain ⟨f, hf, heq⟩ := horder.exists_of_mem hin rfl
    rcases hheld f (horder.held f hf).1 with rfl | rfl <;> rcases he with rfl | rfl
    · exact hf
    · exact (hne heq).elim
    · exact (hne heq.symm).elim
    · exact hf
  obtain ⟨i, hi, haround⟩ := List.getElem_of_mem (hmem (.inr rfl))
  obtain ⟨j, hj, htop⟩ := List.getElem_of_mem (hmem (.inl rfl))
  refine ⟨registry, styles, order, hs, horder, i, j, hi, hj, haround, htop, ?_⟩
  have hsets : Property.Sets "margin" "margin-top" := .direct rfl List.mem_cons_self
  apply hshorthand i j hi hj
  · rw [haround, htop]
    rfl
  · rw [haround, htop]
    rfl
  · rw [haround, htop]
    exact hsets

end AtomicCss.Proofs
