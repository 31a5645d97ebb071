import AtomicCss.Registry
import Mathlib.Data.List.Nodup
import Mathlib.Tactic.Common

/-!
# What a registry holds

A rule that is registered stays under its key; a key that is free takes the first rule that is
inserted under it.
-/

namespace AtomicCss.Proofs

open Registry

lemma registry_get?_eq_some_iff {r : Registry} {kind : RuleKind} {name : String} {rule : Rule} :
    r.get? kind name = some rule ↔ (name, rule) ∈ r.rules ∧ rule.kind = kind := by
  constructor
  · intro h
    obtain ⟨found, hfound, rfl⟩ := Option.map_eq_some_iff.1 h
    have hkey : NamedRule.key found = (kind, name) := by simpa using List.find?_some hfound
    obtain ⟨hkind, hname⟩ := Prod.mk.inj hkey
    exact ⟨hname ▸ List.mem_of_find?_eq_some hfound, hkind⟩
  · rintro ⟨hmem, hkind⟩
    have hsome : (r.rules.find? fun other => other.key = (kind, name)).isSome := by
      rw [List.find?_isSome]
      exact ⟨(name, rule), hmem, by simp [NamedRule.key, hkind]⟩
    obtain ⟨found, hfound⟩ := Option.isSome_iff_exists.1 hsome
    have hkey : NamedRule.key found = (kind, name) := by simpa using List.find?_some hfound
    -- no two rules have one key, so the rule that is found is this one
    have heq : found = (name, rule) := by
      apply List.inj_on_of_nodup_map r.distinct (List.mem_of_find?_eq_some hfound) hmem
      rw [hkey]
      simp [NamedRule.key, hkind]
    rw [Registry.get?, hfound, heq]
    rfl

lemma contains_iff {r : Registry} {kind : RuleKind} {name : String} :
    r.contains kind name = true ↔ ∃ rule, r.get? kind name = some rule := by
  rw [contains, List.any_eq_true]
  constructor
  · rintro ⟨rule, hmem, hkey⟩
    obtain ⟨hkind, rfl⟩ := Prod.mk.inj (of_decide_eq_true hkey)
    exact ⟨rule.2, registry_get?_eq_some_iff.2 ⟨hmem, hkind⟩⟩
  · rintro ⟨rule, h⟩
    obtain ⟨hmem, hkind⟩ := registry_get?_eq_some_iff.1 h
    exact ⟨_, hmem, by simp [NamedRule.key, hkind]⟩

/-- Insertion changes only the key of the rule, and that only if it was free. -/
lemma registry_get?_insert (r : Registry) (name : String) (rule : Rule) (kind : RuleKind)
    (other : String) :
    (r.insert name rule).get? kind other =
      (r.get? kind other).or (if rule.kind = kind ∧ name = other then some rule else none) := by
  unfold Registry.insert
  by_cases hc : r.contains rule.kind name = true
  · rw [dif_pos hc]
    by_cases hk : rule.kind = kind ∧ name = other
    · obtain ⟨rfl, rfl⟩ := hk
      obtain ⟨old, hold⟩ := contains_iff.1 hc
      rw [hold, Option.some_or]
    · rw [if_neg hk, Option.or_none]
  · rw [dif_neg hc]
    unfold Registry.get?
    rw [List.find?_append]
    cases hf : r.rules.find? fun rule => rule.key = (kind, other) with
    | some found => simp
    | none =>
      by_cases hk : rule.kind = kind ∧ name = other
      · simp [NamedRule.key, hk]
      · simp [NamedRule.key, hk]

/-- A registered rule stays. -/
lemma registry_get?_insertAll {r : Registry} {kind : RuleKind} {name : String} {rule : Rule}
    (rules : List NamedRule) (h : r.get? kind name = some rule) :
    (r.insertAll rules).get? kind name = some rule := by
  induction rules generalizing r with
  | nil => exact h
  | cons head rest ih =>
    apply ih
    rw [registry_get?_insert, h, Option.some_or]

/-- After its insertion there is a rule under a key. -/
lemma contains_insertAll {r : Registry} {rules : List NamedRule} {rule : NamedRule}
    (h : rule ∈ rules) : (r.insertAll rules).contains rule.2.kind rule.1 = true := by
  induction rules generalizing r with
  | nil => cases h
  | cons head rest ih =>
    rcases List.mem_cons.1 h with rfl | h
    · apply contains_iff.2
      have hsome : ((r.insert rule.1 rule.2).get? rule.2.kind rule.1).isSome := by
        rw [registry_get?_insert]
        simp
      obtain ⟨found, hfound⟩ := Option.isSome_iff_exists.1 hsome
      exact ⟨found, registry_get?_insertAll rest hfound⟩
    · exact ih h

lemma contains_insertAll_of_contains {r : Registry} {kind : RuleKind} {name : String}
    (rules : List NamedRule) (h : r.contains kind name = true) :
    (r.insertAll rules).contains kind name = true := by
  obtain ⟨rule, hrule⟩ := contains_iff.1 h
  exact contains_iff.2 ⟨rule, registry_get?_insertAll rules hrule⟩

end AtomicCss.Proofs
