import AtomicCss.Proofs.RuleOrder

/-!
# Nothing is lost in writing out

A registry keeps the first rule that is offered under a key. Written out, each of these rules stands
exactly once: the blocks kind by kind in the order in which they came, the atomic rules strictly
sorted by their keys, each with its twin, and the themes behind them.
-/

namespace AtomicCss.Proofs

open Registry Stylesheet

/-- What can be handed to a registry: a rule under a name, or an entry. -/
inductive Registration
  | rule (name : String) (rule : Rule)
  | entry (e : Entry)

namespace Registration

def apply (r : Registry) : Registration → Registry
  | rule name given => r.insert name given
  | entry e => r.insertEntry e

/-- The rules offered to the registry. An entry that unsets a property has none. -/
def offers : Registration → List NamedRule
  | rule name given => [(name, given)]
  | entry e => (ruleOf? e).toList

end Registration

/-- The registry behind a history of registrations. -/
def reached (history : List Registration) : Registry :=
  history.foldl Registration.apply .empty

/-- The rules under whose keys no rule stands before them. -/
def firsts : List NamedRule → List NamedRule
  | [] => []
  | r :: rules => r :: (firsts rules).filter fun other => other.key ≠ r.key

lemma apply_eq_insertAll (r : Registry) (step : Registration) :
    step.apply r = r.insertAll step.offers := by
  cases step <;> rfl

lemma reached_eq_insertAll (history : List Registration) :
    reached history = Registry.empty.insertAll (history.flatMap Registration.offers) := by
  suffices hfrom : ∀ r : Registry, history.foldl Registration.apply r =
      r.insertAll (history.flatMap Registration.offers) from hfrom .empty
  induction history with
  | nil => exact fun r => rfl
  | cons step rest ih =>
    intro r
    rw [List.foldl_cons, ih, apply_eq_insertAll, List.flatMap_cons]
    simp only [insertAll, List.foldl_append]

lemma contains_insert_iff (r : Registry) (x y : NamedRule) :
    (r.insert x.1 x.2).contains y.2.kind y.1 = true ↔
      r.contains y.2.kind y.1 = true ∨ y.key = x.key := by
  have hkey : (x.2.kind = y.2.kind ∧ x.1 = y.1) ↔ y.key = x.key := by
    simp only [NamedRule.key, Prod.mk.injEq]
    tauto
  rw [contains_iff, contains_iff, registry_get?_insert, ← hkey]
  cases r.get? y.2.kind y.1 with
  | some rule => simp
  | none =>
    simp only [Option.none_or, reduceCtorEq, exists_false, false_or]
    split <;> simp_all

/-- Insertion adds the first rule offered under each free key, in the order of the offers. -/
lemma rules_insertAll (r : Registry) (rules : List NamedRule) :
    (r.insertAll rules).rules =
      r.rules ++ (firsts rules).filter fun x => !r.contains x.2.kind x.1 := by
  induction rules generalizing r with
  | nil => exact (List.append_nil _).symm
  | cons x xs ih =>
    change ((r.insert x.1 x.2).insertAll xs).rules = _
    have hfilter : (firsts xs).filter (fun y => !(r.insert x.1 x.2).contains y.2.kind y.1) =
        ((firsts xs).filter fun other => other.key ≠ x.key).filter
          fun y => !r.contains y.2.kind y.1 := by
      rw [List.filter_filter]
      apply List.filter_congr
      intro y _
      rw [Bool.eq_iff_iff]
      simp only [Bool.not_eq_true', ← Bool.not_eq_true, contains_insert_iff]
      simp
    rw [ih, hfilter, firsts]
    by_cases hx : r.contains x.2.kind x.1 = true
    · have hinsert : r.insert x.1 x.2 = r := dif_pos hx
      rw [hinsert, List.filter_cons_of_neg (by simp [hx])]
    · have hinsert : (r.insert x.1 x.2).rules = r.rules ++ [x] := by
        unfold Registry.insert
        rw [dif_neg hx]
      rw [hinsert, List.filter_cons_of_pos (by simpa using hx), List.append_assoc]
      rfl

lemma rules_empty_insertAll (rules : List NamedRule) :
    (Registry.empty.insertAll rules).rules = firsts rules := by
  rw [rules_insertAll]
  change [] ++ List.filter _ _ = _
  rw [List.nil_append, List.filter_eq_self]
  intro x _
  rfl

lemma rules_reached (history : List Registration) :
    (reached history).rules = firsts (history.flatMap Registration.offers) := by
  rw [reached_eq_insertAll, rules_empty_insertAll]

/-- A rule as it is written out when it has no layer and no twin. -/
def plainRule (r : NamedRule) : CssRule :=
  ⟨r.2.css, r.2.priority⟩

/-- The rules of a registry in the order of the stylesheet. -/
structure Arranged (registered before atomics themes : List NamedRule) : Prop where
  distinct : (registered.map NamedRule.key).Nodup
  complete : (before ++ atomics ++ themes).Perm registered
  grouped : before.Pairwise fun a b => a.2.kind.ctorIdx ≤ b.2.kind.ctorIdx
  beforeAtomic : ∀ r ∈ before, r.2.kind.ctorIdx < RuleKind.atomic.ctorIdx
  inOrder : ∀ kind, kind ≠ .atomic → ofKind kind (before ++ themes) = ofKind kind registered
  atomic : ∀ r ∈ atomics, r.2.kind = .atomic
  increasing : atomics.Pairwise fun a b => (orderKey a).compare (orderKey b) = .lt
  atEnd : ∀ r ∈ themes, r.2.kind = .theme

lemma mem_ofKind {kind : RuleKind} {rules : List NamedRule} {r : NamedRule} :
    r ∈ ofKind kind rules ↔ r ∈ rules ∧ r.2.kind = kind := by
  simp [ofKind]

lemma ofKind_ofKind (kind other : RuleKind) (rules : List NamedRule) :
    ofKind kind (ofKind other rules) = if kind = other then ofKind kind rules else [] := by
  unfold ofKind
  rw [List.filter_filter]
  split
  · rename_i h
    simp [h]
  · rename_i h
    apply List.filter_eq_nil_iff.2
    intro r _
    simp only [Bool.and_eq_true, decide_eq_true_eq]
    rintro ⟨rfl, heq⟩
    exact h heq

/-- The rules of several kinds, kind by kind. -/
def ofKinds (kinds : List RuleKind) (rules : List NamedRule) : List NamedRule :=
  kinds.flatMap fun kind => ofKind kind rules

lemma ofKind_ofKinds {kinds : List RuleKind} (hkinds : kinds.Nodup) (kind : RuleKind)
    (rules : List NamedRule) :
    ofKind kind (ofKinds kinds rules) = if kind ∈ kinds then ofKind kind rules else [] := by
  induction kinds with
  | nil => rfl
  | cons k ks ih =>
    obtain ⟨hk, hks⟩ := List.nodup_cons.1 hkinds
    have happend : ofKind kind (ofKinds (k :: ks) rules) =
        ofKind kind (ofKind k rules) ++ ofKind kind (ofKinds ks rules) := by
      simp only [ofKinds, List.flatMap_cons, ofKind, List.filter_append]
    rw [happend, ofKind_ofKind, ih hks]
    by_cases h : kind = k
    · subst h
      simp [hk]
    · simp [h]

/-- Kinds in order give rules in the order of their kinds. -/
lemma pairwise_ofKinds {kinds : List RuleKind}
    (hkinds : kinds.Pairwise fun j k => j.ctorIdx ≤ k.ctorIdx) (rules : List NamedRule) :
    (ofKinds kinds rules).Pairwise fun a b => a.2.kind.ctorIdx ≤ b.2.kind.ctorIdx := by
  unfold ofKinds
  rw [List.pairwise_flatMap]
  constructor
  · intro kind _
    apply (List.pairwise_of_forall (R := fun _ _ => True) fun _ _ => trivial).imp_of_mem
    intro a b ha hb _
    have hkind : a.2.kind = b.2.kind := by rw [(mem_ofKind.1 ha).2, (mem_ofKind.1 hb).2]
    exact Nat.le_of_eq (congrArg RuleKind.ctorIdx hkind)
  · apply hkinds.imp
    intro j k hjk a ha b hb
    rw [(mem_ofKind.1 ha).2, (mem_ofKind.1 hb).2]
    exact hjk

/-- Every rule is of one of the kinds, and of no other. -/
lemma perm_ofKinds {kinds : List RuleKind} (hkinds : kinds.Nodup)
    (hall : ∀ kind, kind ∈ kinds) (rules : List NamedRule) :
    (ofKinds kinds rules).Perm rules := by
  rw [List.perm_iff_count]
  intro r
  have hcount : ∀ list : List NamedRule, (ofKind r.2.kind list).count r = list.count r := fun list =>
    List.count_filter (by simp)
  rw [← hcount, ← hcount rules, ofKind_ofKinds hkinds, if_pos (hall _)]

/-- Two atomic rules of one registry have different keys to be sorted by. -/
lemma key_eq_of_compare {a b : NamedRule} (hkind : a.2.kind = b.2.kind)
    (h : (orderKey a).compare (orderKey b) = .eq) : a.key = b.key := by
  have hname : compare a.1 b.1 = .eq := by
    unfold RuleKey.compare at h
    simp only [Ordering.then_eq_eq] at h
    exact h.2.2.2
  have heq : a.1 = b.1 := Std.LawfulEqOrd.eq_of_compare hname
  simp only [NamedRule.key, hkind, heq]

lemma increasing_sortedAtomic {rules : List NamedRule}
    (hdistinct : (rules.map NamedRule.key).Nodup) :
    (sortedAtomic rules).Pairwise fun a b => (orderKey a).compare (orderKey b) = .lt := by
  have hkeys : (sortedAtomic rules).Pairwise fun a b => a.key ≠ b.key := by
    rw [← List.pairwise_map (f := NamedRule.key) (R := (· ≠ ·))]
    have hperm := (List.mergeSort_perm (ofKind .atomic rules)
      fun a b => (orderKey a).le (orderKey b)).map NamedRule.key
    apply hperm.nodup_iff.2
    exact hdistinct.sublist (List.filter_sublist.map _)
  apply ((pairwise_sortedAtomic rules).and hkeys).imp_of_mem
  intro a b ha hb ⟨hle, hne⟩
  have hkind : a.2.kind = b.2.kind := by
    rw [(mem_sortedAtomic.1 ha).2, (mem_sortedAtomic.1 hb).2]
  unfold RuleKey.le at hle
  cases hc : (orderKey a).compare (orderKey b) with
  | lt => rfl
  | eq => exact (hne (key_eq_of_compare hkind hc)).elim
  | gt =>
    rw [hc] at hle
    cases hle

lemma arranged_sorted (registry : Registry) :
    Arranged registry.rules (ofKinds kindsBeforeAtomic registry.rules)
      (sortedAtomic registry.rules) (ofKind .theme registry.rules) := by
  have hbefore : ∀ r ∈ ofKinds kindsBeforeAtomic registry.rules, r.2.kind ∈ kindsBeforeAtomic := by
    intro r hr
    obtain ⟨kind, hkind, hr⟩ := List.mem_flatMap.1 hr
    rwa [(mem_ofKind.1 hr).2]
  constructor
  · exact registry.distinct
  · have hall : (ofKinds (kindsBeforeAtomic ++ [.atomic, .theme]) registry.rules).Perm
        registry.rules := by
      apply perm_ofKinds (by decide)
      intro kind
      cases kind <;> decide
    apply List.Perm.trans _ hall
    have hsplit : ofKinds (kindsBeforeAtomic ++ [.atomic, .theme]) registry.rules =
        ofKinds kindsBeforeAtomic registry.rules ++ ofKind .atomic registry.rules ++
          ofKind .theme registry.rules := by
      simp [ofKinds]
    rw [hsplit]
    exact ((List.mergeSort_perm _ _).append_left _).append_right _
  · exact pairwise_ofKinds (by decide) _
  · intro r hr
    have hkinds : ∀ kind ∈ kindsBeforeAtomic, kind.ctorIdx < RuleKind.atomic.ctorIdx := by decide
    exact hkinds _ (hbefore r hr)
  · intro kind hkind
    have happend : ofKind kind (ofKinds kindsBeforeAtomic registry.rules ++
        ofKind .theme registry.rules) =
          ofKind kind (ofKinds (kindsBeforeAtomic ++ [.theme]) registry.rules) := by
      simp [ofKinds, ofKind]
    have hmem : kind ∈ kindsBeforeAtomic ++ [.theme] := by
      cases kind <;> first | exact (hkind rfl).elim | decide
    rw [happend, ofKind_ofKinds (by decide), if_pos hmem]
  · intro r hr
    exact (mem_sortedAtomic.1 hr).2
  · exact increasing_sortedAtomic registry.distinct
  · intro r hr
    exact (mem_ofKind.1 hr).2

/-- Declares the order of the layers, if layers are on and there is something in them. -/
def layerStatement (layers : Bool) (atomics : List NamedRule) : List CssRule :=
  if layers = true ∧ atomics ≠ [] then [layerOrder] else []

lemma emit_eq (registry : Registry) (layers : Bool) : emit registry layers =
    (ofKinds kindsBeforeAtomic registry.rules).map plainRule ++
      layerStatement layers (sortedAtomic registry.rules) ++
      (sortedAtomic registry.rules).flatMap (atomicRules layers) ++
      (ofKind .theme registry.rules).map plainRule := by
  have hblocks : kindsBeforeAtomic.flatMap (fun kind => blocks kind registry.rules) =
      (ofKinds kindsBeforeAtomic registry.rules).map plainRule := by
    rw [ofKinds, List.map_flatMap]
    rfl
  have hstatement : (if layers && !(sortedAtomic registry.rules).isEmpty then [layerOrder] else []) =
      layerStatement layers (sortedAtomic registry.rules) := by
    unfold layerStatement
    simp
  unfold emit atomicPart
  dsimp only
  rw [hblocks, hstatement, ← List.append_assoc]
  rfl

end AtomicCss.Proofs
