import AtomicCss.Proofs.SharedRegistry

/-!
# Registration in any order

Offers that agree on what stands under a key may come in any order, and any number of times: the
registry holds the same rules, and since the keys of atomic rules are all different, these are
written out in the same order. For the other kinds it matters which key came first.
-/

namespace AtomicCss.Proofs

open Registry Stylesheet

/-- Rules under one key are the same. -/
def Agreeing (rules : List NamedRule) : Prop :=
  ∀ r ∈ rules, ∀ s ∈ rules, r.key = s.key → r = s

lemma Agreeing.tail {r : NamedRule} {rules : List NamedRule} (h : Agreeing (r :: rules)) :
    Agreeing rules :=
  fun x hx y hy => h x (List.mem_cons_of_mem _ hx) y (List.mem_cons_of_mem _ hy)

lemma mem_firsts_iff {rules : List NamedRule} (h : Agreeing rules) {r : NamedRule} :
    r ∈ firsts rules ↔ r ∈ rules := by
  refine ⟨mem_firsts, fun hr => ?_⟩
  induction rules with
  | nil => exact hr
  | cons x xs ih =>
    by_cases hx : r = x
    · exact hx ▸ List.mem_cons_self
    · have hrest : r ∈ xs := (List.mem_cons.1 hr).resolve_left hx
      have hkey : r.key ≠ x.key := fun hkey => hx (h r hr x List.mem_cons_self hkey)
      exact List.mem_cons_of_mem _ (List.mem_filter.2 ⟨ih h.tail hrest, by simpa using hkey⟩)

lemma mem_empty_insertAll {rules : List NamedRule} (h : Agreeing rules) {r : NamedRule} :
    r ∈ (Registry.empty.insertAll rules).rules ↔ r ∈ rules := by
  rw [rules_empty_insertAll, mem_firsts_iff h]

/-- Rules from an agreeing list are known by their keys. -/
lemma eq_of_keys {all rules more : List NamedRule} (h : Agreeing all) (hrules : rules ⊆ all)
    (hmore : more ⊆ all) (hkeys : rules.map NamedRule.key = more.map NamedRule.key) :
    rules = more := by
  induction rules generalizing more with
  | nil => exact (List.map_eq_nil_iff.1 hkeys.symm).symm
  | cons r rules ih =>
    obtain ⟨s, rest, rfl, hkey, hrest⟩ := List.map_eq_cons_iff.1 hkeys.symm
    obtain ⟨hr, hrules⟩ := List.cons_subset.1 hrules
    obtain ⟨hs, hmore⟩ := List.cons_subset.1 hmore
    rw [h r hr s hs hkey.symm, ih hrules hmore hrest.symm]

lemma perm_rules {r s : Registry} (h : ∀ x, x ∈ r.rules ↔ x ∈ s.rules) : r.rules.Perm s.rules :=
  (List.perm_ext_iff_of_nodup r.distinct.of_map s.distinct.of_map).2 h

/-- The atomic part of a stylesheet depends on which rules are registered, not on their order. -/
lemma atomicPart_congr {r s : Registry} (h : ∀ x, x ∈ r.rules ↔ x ∈ s.rules) (layers : Bool) :
    atomicPart layers r.rules = atomicPart layers s.rules := by
  have hsorted : sortedAtomic r.rules = sortedAtomic s.rules :=
    (sortedAtomic_sublist fun x => (h x).1).antisymm (sortedAtomic_sublist fun x => (h x).2)
  unfold atomicPart
  rw [hsorted]

/-- The rules that are not atomic. -/
def plainRules (rules : List NamedRule) : List NamedRule :=
  rules.filter fun r => r.2.kind ≠ .atomic

lemma ofKind_plainRules {kind : RuleKind} (hkind : kind ≠ .atomic) (rules : List NamedRule) :
    ofKind kind (plainRules rules) = ofKind kind rules := by
  unfold ofKind plainRules
  rw [List.filter_filter]
  apply List.filter_congr
  intro r _
  by_cases h : r.2.kind = kind <;> simp [h, hkind]

/-- A stylesheet is known by the set of its rules and the order of those that are not atomic. -/
lemma emit_congr {r s : Registry} (h : ∀ x, x ∈ r.rules ↔ x ∈ s.rules)
    (hplain : plainRules r.rules = plainRules s.rules) (layers : Bool) :
    emit r layers = emit s layers := by
  have hblocks : ∀ kind, kind ≠ .atomic → blocks kind r.rules = blocks kind s.rules := by
    intro kind hkind
    unfold blocks
    rw [← ofKind_plainRules hkind, hplain, ofKind_plainRules hkind]
  have hbefore : kindsBeforeAtomic.flatMap (fun kind => blocks kind r.rules) =
      kindsBeforeAtomic.flatMap fun kind => blocks kind s.rules := by
    apply List.flatMap_congr
    intro kind hkind
    apply hblocks
    rintro rfl
    exact absurd hkind (by decide)
  unfold emit
  rw [hbefore, atomicPart_congr h, hblocks .theme (by decide)]

/-- The keys of rules that are not atomic, in the order in which they are first registered. -/
def plainKeys (history : List Registration) : List (RuleKind × String) :=
  (plainRules (firsts (history.flatMap Registration.offers))).map NamedRule.key

/-- Registrations that agree may be made in any order: the same rules are registered, and the atomic
ones are written out alike. All of the stylesheet is the same if also the keys of the other rules
are first used in the same order. -/
theorem reached_anyOrder {history other : List Registration} (hperm : history.Perm other)
    (hagree : Agreeing (history.flatMap Registration.offers)) :
    (reached history).rules.Perm (reached other).rules ∧
    (∀ layers, atomicPart layers (reached history).rules =
      atomicPart layers (reached other).rules) ∧
    (plainKeys history = plainKeys other →
      ∀ layers, emit (reached history) layers = emit (reached other) layers) := by
  have hoffers := hperm.flatMap_right Registration.offers
  have hother : Agreeing (other.flatMap Registration.offers) :=
    fun r hr s hs => hagree r (hoffers.mem_iff.2 hr) s (hoffers.mem_iff.2 hs)
  have hmem : ∀ r, r ∈ (reached history).rules ↔ r ∈ (reached other).rules := by
    intro r
    rw [rules_reached, rules_reached, mem_firsts_iff hagree, mem_firsts_iff hother,
      hoffers.mem_iff]
  refine ⟨perm_rules hmem, atomicPart_congr hmem, fun hkeys => emit_congr hmem ?_⟩
  have hplain : ∀ rules, plainRules (firsts rules) ⊆ rules := fun rules r hr =>
    mem_firsts (List.mem_filter.1 hr).1
  rw [rules_reached, rules_reached]
  exact eq_of_keys hagree (hplain _) (fun r hr => hoffers.mem_iff.2 (hplain _ hr)) hkeys

/-- Two entries, one of them with a right-to-left twin. -/
def redAndFloating : List Registration :=
  [.entry (.build {} "color" ⟨["red"]⟩ none none), .entry (.build {} "float" ⟨["start"]⟩ none none)]

/-- Rules of other kinds, one of them twice, and an entry from the list above. -/
def fadeInTheDark : List Registration :=
  let fade : Rule := .block .keyframes "@keyframes xfade-B\x7bto\x7bopacity:0\x7d\x7d"
  [.rule "xfade-B" fade, .entry (.build {} "color" ⟨["red"]⟩ none none),
    .rule "xdark" (.block .theme ".xdark\x7b--x:0\x7d"), .rule "xfade-B" fade]

theorem reached_anyOrder_fade :
    (reached (redAndFloating ++ fadeInTheDark)).rules ≠
        (reached (fadeInTheDark ++ redAndFloating)).rules ∧
      emit (reached (redAndFloating ++ fadeInTheDark)) true =
        emit (reached (fadeInTheDark ++ redAndFloating)) true := by
  have hagree : Agreeing ((redAndFloating ++ fadeInTheDark).flatMap Registration.offers) := by
    unfold Agreeing
    decide +kernel
  obtain ⟨_, _, hemit⟩ := reached_anyOrder List.perm_append_comm hagree
  exact ⟨by decide +kernel, hemit (by decide +kernel) true⟩

end AtomicCss.Proofs
