import AtomicCss.Proofs.Cascade
import AtomicCss.Proofs.ClassSources
import AtomicCss.Proofs.Expanding

/-!
# Shorthands beside what they set

Under the forbidding policy no list of declarations holds a shorthand together with a property that
it sets, at whatever remove. The lists that are checked are the declarations of a class, with those
of spliced classes among them, and each group of a pseudo-element on its own. So the slots of a
class mix a shorthand with what it sets only where two groups of one pseudo-element come together.
-/

namespace AtomicCss.Proofs

open Keyed Declaration Property Expansion

/-- What a property sets directly. -/
def partsOf (name : String) : List String :=
  (longhands? name).getD []

lemma sets_of_mem_partsOf {s l : String} (h : l ∈ partsOf s) : Sets s l := by
  unfold partsOf at h
  cases hparts : longhands? s with
  | none =>
    rw [hparts] at h
    cases h
  | some parts =>
    rw [hparts] at h
    exact .direct hparts h

lemma tier_lt_of_mem_partsOf {s l : String} (h : l ∈ partsOf s) :
    (tier s).ctorIdx < (tier l).ctorIdx :=
  (coarser_of_sets (sets_of_mem_partsOf h)).2

/-- The other names are done first. -/
lemma gather_cons (depth : ℕ) (name : String) (rest found : List String) :
    gather (depth + 1) (name :: rest) found =
      if (gather (depth + 1) rest found).contains name then gather (depth + 1) rest found
      else gather depth (partsOf name) (gather (depth + 1) rest found ++ [name]) := rfl

/-- Gathering adds what the names set, and with everything that it adds what this sets in turn. The
depth suffices, since each step leads to a finer tier. -/
lemma gather_closed {depth : ℕ} {names : List String} (found : List String)
    (hdepth : ∀ name ∈ names, 3 ≤ (tier name).ctorIdx + depth) :
    found ⊆ gather depth names found ∧ names ⊆ gather depth names found ∧
      ∀ m ∈ gather depth names found, m ∈ found ∨ partsOf m ⊆ gather depth names found := by
  induction depth generalizing names found with
  | zero =>
    cases names with
    | nil => exact ⟨fun _ hm => hm, nofun, fun _ hm => .inl hm⟩
    | cons name rest =>
      have hle := ctorIdx_le (tier name)
      have hname := hdepth name List.mem_cons_self
      omega
  | succ depth ihdepth =>
    induction names with
    | nil => exact ⟨fun _ hm => hm, nofun, fun _ hm => .inl hm⟩
    | cons name rest ih =>
      obtain ⟨hfound, hrest, hclosed⟩ := ih fun n hn => hdepth n (List.mem_cons_of_mem _ hn)
      rw [gather_cons]
      split
      · rename_i hseen
        exact ⟨hfound, List.cons_subset.2 ⟨List.contains_iff_mem.1 hseen, hrest⟩, hclosed⟩
      · have hparts : ∀ part ∈ partsOf name, 3 ≤ (tier part).ctorIdx + depth := by
          intro part hpart
          have hlt := tier_lt_of_mem_partsOf hpart
          have hname := hdepth name List.mem_cons_self
          omega
        obtain ⟨hkept, hadded, hnew⟩ :=
          ihdepth (gather (depth + 1) rest found ++ [name]) hparts
        have hbefore := List.Subset.trans (List.subset_append_left _ [name]) hkept
        refine ⟨List.Subset.trans hfound hbefore, ?_, fun m hm => ?_⟩
        · have hname := hkept (List.mem_append_right _ (List.mem_singleton_self name))
          exact List.cons_subset.2 ⟨hname, List.Subset.trans hrest hbefore⟩
        · rcases hnew m hm with hm | hm
          · rcases List.mem_append.1 hm with hm | hm
            · exact (hclosed m hm).imp_right fun hsub => List.Subset.trans hsub hbefore
            · rw [List.mem_singleton.1 hm]
              exact .inr hadded
          · exact .inr hm

lemma partsOf_subset_allLonghands (s : String) :
    partsOf s ⊆ allLonghands s ∧ ∀ m ∈ allLonghands s, partsOf m ⊆ allLonghands s := by
  have hdepth : ∀ name ∈ partsOf s, 3 ≤ (tier name).ctorIdx + shorthands.length := by
    have hlength : 3 ≤ shorthands.length := by decide
    intro name _
    omega
  obtain ⟨_, hparts, hclosed⟩ := gather_closed [] hdepth
  exact ⟨hparts, fun m hm => (hclosed m hm).resolve_left nofun⟩

/-- Nothing that a shorthand sets is left out. -/
lemma mem_allLonghands_of_sets {s l : String} (h : Sets s l) : l ∈ allLonghands s := by
  have hclosed : ∀ {m l : String}, Sets m l → ∀ s, m ∈ allLonghands s → l ∈ allLonghands s := by
    intro m l h
    induction h with
    | direct hparts hl =>
      intro s hm
      refine (partsOf_subset_allLonghands s).2 _ hm ?_
      unfold partsOf
      rw [hparts]
      exact hl
    | through _ _ ihs ihl => exact fun s hm => ihl s (ihs s hm)
  induction h with
  | direct hparts hl =>
    apply (partsOf_subset_allLonghands _).1
    unfold partsOf
    rw [hparts]
    exact hl
  | through _ hl ihs _ => exact hclosed hl _ ihs

lemma isShorthand_of_sets {s l : String} (h : Sets s l) : isShorthand s = true := by
  induction h with
  | direct hparts _ =>
    unfold isShorthand
    rw [hparts]
    rfl
  | through _ _ ihs _ => exact ihs

lemma beginsCondition_dashCase {key : String} (h : beginsCondition key = true) :
    beginsCondition (dashCase key) = true := by
  unfold beginsCondition at h ⊢
  unfold dashCase
  rw [String.toList_ofList]
  split at h
  · rename_i c cs heq
    rw [heq]
    have hc : c = ':' ∨ c = '@' := by simpa using h
    rcases hc with rfl | rfl <;> rfl
  · cases h

lemma slotKey_scope_injective {property : String} {scope other : Option String}
    (h : Naming.slotKey property scope = Naming.slotKey property other) : scope = other := by
  have hlength : ∀ pseudo : String, property ≠ property ++ ":" ++ pseudo := by
    intro pseudo heq
    have hcount := congrArg String.length heq
    simp only [String.length_append] at hcount
    have hcolon : (":" : String).length = 1 := rfl
    omega
  cases scope with
  | none =>
    cases other with
    | none => rfl
    | some pseudo => exact (hlength pseudo h).elim
  | some pseudo =>
    cases other with
    | none => exact (hlength pseudo h.symm).elim
    | some second => exact congrArg some (String.append_right_inj _ |>.1 h)

section

variable {setting : Setting} {declarations : Declarations} {m : ClassEntries}

lemma mem_checkedNames {key : String} {value : Value} (h : (key, value) ∈ declarations)
    (hplain : beginsCondition (dashCase key) = false) :
    dashCase key ∈ checkedNames declarations := by
  have hkey : beginsCondition key = false := by
    by_contra hbegins
    rw [beginsCondition_dashCase (Bool.not_eq_false _ ▸ hbegins)] at hplain
    cases hplain
  refine List.mem_map_of_mem (List.mem_filter.2 ⟨List.mem_map_of_mem h, ?_⟩)
  rw [hkey]
  rfl

/-- The groups of a class are checked one by one. -/
lemma gives_checkPolicy_of_group {key : String} {group : Declarations}
    (h : Gives (classEntries setting declarations) m) (hmem : (key, .map group) ∈ declarations)
    (hkind : ConditionKind.ofKey? key = some .pseudoElement) :
    Gives (checkPolicy setting group) () := by
  obtain ⟨_, found, hfound, _⟩ := gives_classEntries_iff.1 h
  obtain ⟨part, _, hpart⟩ := exists_of_forall₂ (gives_mapM hfound).flip hmem
  change Gives (Declaration.slots setting (key, .map group)) part at hpart
  rw [slots_of_group _ hkind, gives_pseudoElement_iff] at hpart
  exact hpart.2.2.1

/-- Unless shorthands are expanded, an entry has the property that was declared. -/
lemma property_of_entryOf {config : Config} (hpolicy : config.shorthands ≠ .flatten)
    {property : String} {suffix atRule : Option String} {value : Value} {e : Entry}
    (h : EntryOf config property suffix atRule value e) : e.property = property := by
  cases h with
  | unset _ htarget =>
    rw [unsetTargets, if_neg hpolicy] at htarget
    exact List.mem_singleton.1 htarget
  | build _ hpart =>
    rcases underPolicy_cases hpart with rfl | ⟨hflatten, _⟩
    · rfl
    · exact (hpolicy hflatten).elim

/-- A class has a slot with an entry of a property in a scope. -/
def HoldsIn (m : ClassEntries) (property : String) (scope : Option String) : Prop :=
  ∃ item ∈ m, item.1 = Naming.slotKey property scope ∧ ∃ e ∈ item.2.entries, e.property = property

/-- What a class holds in a scope was declared there, and is no condition. -/
lemma declares_of_holdsIn (hpolicy : setting.config.shorthands ≠ .flatten)
    (h : Gives (classEntries setting declarations) m) {property : String} {scope : Option String}
    (hholds : HoldsIn m property scope) :
    beginsCondition property = false ∧ ∃ value, Declares declarations property scope value := by
  obtain ⟨item, hitem, hkey, e, he, rfl⟩ := hholds
  obtain ⟨declared, written, value, hdeclares, hplain, hslot⟩ := slotOf_of_mem h hitem
  have hsame : item.1 = Naming.slotKey e.property written ∧ e.property = declared := by
    cases hslot with
    | atomic hentry =>
      obtain rfl := List.mem_singleton.1 he
      exact ⟨rfl, property_of_entryOf hpolicy hentry⟩
    | bundle _ _ _ hentries =>
      obtain ⟨pair, hpair, rfl⟩ := List.mem_map.1 he
      obtain ⟨hlonghand, _, _, _, _, _, hentry⟩ := hentries pair hpair
      exact ⟨by rw [hlonghand], property_of_entryOf hpolicy hentry⟩
  obtain rfl := slotKey_scope_injective (hkey.symm.trans hsame.1)
  rw [hsame.2]
  exact ⟨hplain, value, hdeclares⟩

/-- A shorthand and what it sets come from two groups of one pseudo-element. -/
lemma groups_of_mixed (hforbid : setting.config.shorthands = .forbid)
    (h : Gives (classEntries setting declarations) m) {s l : String} {scope : Option String}
    (hsets : Sets s l) (hs : HoldsIn m s scope) (hl : HoldsIn m l scope) :
    ∃ pseudo group other, scope = some pseudo ∧ group ≠ other ∧
      (pseudo, .map group) ∈ declarations ∧ (pseudo, .map other) ∈ declarations := by
  have hpolicy : setting.config.shorthands ≠ .flatten := by
    rw [hforbid]
    nofun
  have happart : ∀ {names : List String}, Compatible names → s ∈ names → l ∉ names :=
    fun hcompatible hs hl =>
      hcompatible s hs (isShorthand_of_sets hsets) l hl (mem_allLonghands_of_sets hsets)
  obtain ⟨hsplain, _, hsdeclares⟩ := declares_of_holdsIn hpolicy h hs
  obtain ⟨hlplain, _, hldeclares⟩ := declares_of_holdsIn hpolicy h hl
  cases hsdeclares with
  | plain hskey =>
    cases hldeclares with
    | plain hlkey =>
      obtain ⟨hcheck, _⟩ := gives_classEntries_iff.1 h
      exact (happart (gives_checkPolicy_iff.1 hcheck hforbid) (mem_checkedNames hskey hsplain)
        (mem_checkedNames hlkey hlplain)).elim
  | @grouped pseudo _ group _ hgroup hkind hskey =>
    cases hldeclares with
    | @grouped _ _ other _ hother _ hlkey =>
      refine ⟨pseudo, group, other, rfl, ?_, hgroup, hother⟩
      rintro rfl
      have hcheck := gives_checkPolicy_of_group h hgroup hkind
      exact happart (gives_checkPolicy_iff.1 hcheck hforbid)
        (mem_checkedNames hskey hsplain) (mem_checkedNames hlkey hlplain)

end

/-- Two entries under one key are two occurrences of it. -/
lemma two_le_count_keys {α : Type} {items : List (String × α)} {key : String} {a b : α}
    (hab : a ≠ b) (ha : (key, a) ∈ items) (hb : (key, b) ∈ items) :
    2 ≤ (keys items).count key := by
  induction items with
  | nil => cases ha
  | cons item rest ih =>
    have hcount : (keys (item :: rest)).count key =
        (keys rest).count key + if item.1 == key then 1 else 0 := List.count_cons
    have hin : ∀ c, (key, c) ∈ rest → 1 ≤ (keys rest).count key := fun c hc =>
      List.one_le_count_iff.2 (List.mem_map_of_mem hc)
    rw [hcount]
    rcases List.mem_cons.1 ha with rfl | harest
    · have hbrest : (key, b) ∈ rest := (List.mem_cons.1 hb).resolve_left fun heq =>
        hab (congrArg Prod.snd heq).symm
      have hone := hin b hbrest
      simp only [beq_self_eq_true, if_true]
      omega
    · rcases List.mem_cons.1 hb with rfl | hbrest
      · have hone := hin a harest
        simp only [beq_self_eq_true, if_true]
        omega
      · exact (ih harest hbrest).trans (Nat.le_add_right _ _)

/-- Under the forbidding policy, a class holds a shorthand and what it sets in one scope only if the
scope is that of a pseudo-element which the class, with everything that it splices, has two groups
of. -/
theorem mixed_only_across_groups {config : Config} {sheet : Sheet} {start registry : Registry}
    {styles : Styles} {name : String} {m : ClassEntries} (hforbid : config.shorthands = .forbid)
    (h : sheet.compileInto config start = (registry, .ok styles))
    (hget : get? styles.classes name = some m) :
    ∃ site items pasted, ⟨site, .staticClass name items⟩ ∈ sheet.definitions ∧
      Pasted sheet items pasted ∧
      ∀ s l scope, Sets s l → HoldsIn m s scope → HoldsIn m l scope →
        ∃ pseudo, scope = some pseudo ∧ 2 ≤ (itemKeys pasted).count pseudo := by
  obtain ⟨declarations, ⟨hdefined, _, _, hpasted, hkeys⟩, hgives⟩ := written_of_compileInto h hget
  refine ⟨_, _, _, hdefined, hpasted, fun s l scope hsets hs hl => ?_⟩
  obtain ⟨pseudo, group, other, hscope, hne, hgroup, hother⟩ :=
    groups_of_mixed hforbid hgives hsets hs hl
  have hvalues : Value.map group ≠ .map other := fun heq => hne (Value.map.inj heq)
  exact ⟨pseudo, hscope, hkeys ▸ two_le_count_keys hvalues hgroup hother⟩

def forbidding : Config :=
  { shorthands := .forbid }

/-- A class with a group of a pseudo-element, and one that takes it over beside its own. -/
def bulletSheet : Sheet :=
  Sheet.empty
    |>.define (.staticClass "bullet"
      [.property "::before" (.map [("margin", .scalar (.text "0"))])])
    |>.define (.staticClass "item" [.property "paddingTop" (.scalar (.text "1px")),
      .splice "bullet", .property "::before" (.map [("margin-top", .scalar (.text "4px"))])])

theorem mixed_only_across_groups_bullet :
    ∃ registry styles m, forbidding.shorthands = .forbid ∧
      bulletSheet.compileInto forbidding .empty = (registry, .ok styles) ∧
      get? styles.classes "item" = some m ∧
      keys m = ["padding-top", "margin:::before", "margin-top:::before"] ∧
      ∃ site items pasted, ⟨site, .staticClass "item" items⟩ ∈ bulletSheet.definitions ∧
        Pasted bulletSheet items pasted ∧
        ∀ s l scope, Sets s l → HoldsIn m s scope → HoldsIn m l scope →
          ∃ pseudo, scope = some pseudo ∧ 2 ≤ (itemKeys pasted).count pseudo := by
  have hkeys : (bulletSheet.compileInto forbidding .empty).2.toOption.map
      (fun styles => (get? styles.classes "item").map keys) =
      some (some ["padding-top", "margin:::before", "margin-top:::before"]) := by
    decide +kernel
  obtain ⟨styles, hstyles, hfound⟩ := Option.map_eq_some_iff.1 hkeys
  obtain ⟨m, hm, hkeys⟩ := Option.map_eq_some_iff.1 hfound
  have hcompiles : bulletSheet.compileInto forbidding .empty = (_, .ok styles) :=
    Prod.ext rfl (eq_ok_of_toOption hstyles)
  exact ⟨_, styles, m, rfl, hcompiles, hm, hkeys, mixed_only_across_groups rfl hcompiles hm⟩

/-- Two groups are not checked together: the spliced one holds the shorthand, the other what it
sets. -/
theorem margins_mixed_across_groups :
    ∃ styles m, bulletSheet.compile forbidding = .ok styles ∧
      get? styles.classes "item" = some m ∧ Sets "margin" "margin-top" ∧
      HoldsIn m "margin" (some "::before") ∧ HoldsIn m "margin-top" (some "::before") := by
  have hslots : (bulletSheet.compile forbidding).toOption.map (fun styles =>
      (get? styles.classes "item").map fun m =>
        m.map fun item => (item.1, item.2.entries.map Entry.property)) =
      some (some [("padding-top", ["padding-top"]), ("margin:::before", ["margin"]),
        ("margin-top:::before", ["margin-top"])]) := by
    decide +kernel
  obtain ⟨styles, hstyles, hfound⟩ := Option.map_eq_some_iff.1 hslots
  obtain ⟨m, hm, hslots⟩ := Option.map_eq_some_iff.1 hfound
  have hholds : ∀ property, (Naming.slotKey property (some "::before"), [property]) ∈
      m.map (fun item => (item.1, item.2.entries.map Entry.property)) →
      HoldsIn m property (some "::before") := by
    intro property hmem
    obtain ⟨item, hitem, heq⟩ := List.mem_map.1 hmem
    obtain ⟨hkey, hentries⟩ := Prod.mk.inj heq
    obtain ⟨e, he, hproperty⟩ := List.mem_map.1 (hentries ▸ List.mem_singleton_self property)
    exact ⟨item, hitem, hkey, e, he, hproperty⟩
  refine ⟨styles, m, eq_ok_of_toOption hstyles, hm, .direct rfl List.mem_cons_self, ?_, ?_⟩
  · apply hholds
    rw [hslots]
    exact List.mem_cons_of_mem _ List.mem_cons_self
  · apply hholds
    rw [hslots]
    exact List.mem_cons_of_mem _ (List.mem_cons_of_mem _ List.mem_cons_self)

end AtomicCss.Proofs
