import AtomicCss.Proofs.Affixes
import AtomicCss.Proofs.EditDistance
import Mathlib

/-!
# The closest names

Candidates have a rank if they are close to a name or related to it. Sorted by rank and text, and
with repetitions left out, they stand in one strict order that depends on which candidates there are
and on nothing else. The first three of it are suggested.
-/

namespace AtomicCss.Proofs

open Suggestion Text

/-- The least number of edits that lead from one text to the other. -/
def IsDistance (name candidate : String) (n : ℕ) : Prop :=
  IsLeast {n | Edits n name.toList candidate.toList} n

/-- One of the texts is a part of the other. -/
def Related (name candidate : String) : Prop :=
  name.toList <:+: candidate.toList ∨ candidate.toList <:+: name.toList

/-- The rank of a candidate: its distance if that is within the limit, and the number behind the
limit if it is farther away but related, unless the name is too short. -/
inductive Ranked (name candidate : String) : ℕ → Prop
  | close {n : ℕ} : IsDistance name candidate n → n ≤ max 2 (name.utf8ByteSize / 3) →
    Ranked name candidate n
  | related {n : ℕ} : IsDistance name candidate n → max 2 (name.utf8ByteSize / 3) < n →
    Related name candidate → 2 < name.utf8ByteSize →
    Ranked name candidate (max 2 (name.utf8ByteSize / 3) + 1)

/-- One candidate is to be suggested before another: its rank is lower, or the ranks are the same
and its text comes first. -/
def Ahead (name a b : String) : Prop :=
  ∃ m n, Ranked name a m ∧ Ranked name b n ∧ (m < n ∨ m = n ∧ a < b)

/-- What is suggested of some candidates. -/
structure Closest (name : String) (candidates found : List String) : Prop where
  most : found.length ≤ 3
  distinct : found.Nodup
  ranked : ∀ c ∈ found, c ∈ candidates ∧ ∃ n, Ranked name c n
  increasing : found.Pairwise (Ahead name)
  rest : ∀ c ∈ candidates, c ∉ found → ∀ n, Ranked name c n →
    found.length = 3 ∧ ∀ best ∈ found, Ahead name best c

section

variable {name candidate a b : String} {m n : ℕ}

lemma rank?_eq_some_iff : rank? name candidate = some n ↔ Ranked name candidate n := by
  have hleast : IsDistance name candidate (editDistance name.toList candidate.toList) :=
    isLeast_editDistance _ _
  have hlimit : limit name = max 2 (name.utf8ByteSize / 3) := Nat.max_comm _ _
  have hrelated : (occursIn name.toList candidate.toList || occursIn candidate.toList name.toList) =
      true ↔ Related name candidate := by
    rw [Bool.or_eq_true, occursIn_iff, occursIn_iff, Related]
  unfold rank?
  dsimp only
  rw [hlimit]
  constructor
  · intro h
    split at h
    · rename_i hclose
      cases h
      exact .close hleast hclose
    · rename_i hfar
      split at h
      · rename_i hparts
        cases h
        rw [Bool.and_eq_true, hrelated, decide_eq_true_iff] at hparts
        exact .related hleast (Nat.lt_of_not_le hfar) hparts.1 hparts.2
      · cases h
  · intro h
    cases h with
    | close hdistance hclose =>
      obtain rfl := hdistance.unique hleast
      rw [if_pos hclose]
    | related hdistance hfar hparts hlong =>
      obtain rfl := hdistance.unique hleast
      have hboth : ((occursIn name.toList candidate.toList ||
          occursIn candidate.toList name.toList) && decide (2 < name.utf8ByteSize)) = true := by
        rw [Bool.and_eq_true, hrelated, decide_eq_true_iff]
        exact ⟨hparts, hlong⟩
      rw [if_neg (by omega), if_pos hboth]

lemma Ranked.unique (h : Ranked name candidate m) (h' : Ranked name candidate n) : m = n :=
  Option.some.inj ((rank?_eq_some_iff.2 h).symm.trans (rank?_eq_some_iff.2 h'))

lemma Ahead.ne (h : Ahead name a b) : a ≠ b := by
  rintro rfl
  obtain ⟨m, n, hm, hn, hlt | ⟨_, hlt⟩⟩ := h
  · rw [hm.unique hn] at hlt
    exact lt_irrefl n hlt
  · exact lt_irrefl a hlt

/-- Ranks and texts in lexicographic order. -/
lemma precedes_iff (p q : ℕ × String) : precedes p q = true ↔ toLex p ≤ toLex q := by
  rw [precedes, Prod.Lex.toLex_le_toLex, Bool.or_eq_true, Bool.and_eq_true, decide_eq_true_iff,
    beq_iff_eq, Ordering.isLE_iff_ne_gt, compare_gt_iff_gt, not_lt]

end

/-- Leaving out repetitions of the item in front is what remains of a list without them. -/
lemma eraseReps_eq_destutter {α : Type} [DecidableEq α] [BEq α] [LawfulBEq α] (xs : List α) :
    xs.eraseReps = xs.destutter (· ≠ ·) := by
  have hloop : ∀ (xs : List α) (x : α) (kept : List α),
      List.eraseRepsBy.loop (· == ·) x xs kept = kept.reverse ++ xs.destutter' (· ≠ ·) x := by
    intro xs
    induction xs with
    | nil =>
      intro x kept
      rw [List.eraseRepsBy.loop, List.reverse_cons]
      rfl
    | cons y ys ih =>
      intro x kept
      rw [List.eraseRepsBy.loop, List.destutter'_cons]
      by_cases hxy : x = y
      · rw [hxy, beq_self_eq_true, if_neg (not_not_intro rfl)]
        exact ih y kept
      · rw [beq_false_of_ne hxy, if_pos hxy]
        simp [ih]
  cases xs with
  | nil => rfl
  | cons x xs => exact hloop xs x []

/-- The candidates that have a rank, sorted. -/
def sortedRanks (name : String) (candidates : List String) : List (ℕ × String) :=
  (candidates.filterMap fun c => (rank? name c).map fun r => (r, c)).mergeSort precedes

/-- The ranked candidates in their order, each once. -/
def ranking (name : String) (candidates : List String) : List (ℕ × String) :=
  (sortedRanks name candidates).eraseReps

section

variable {name : String} {candidates : List String}

lemma closest_eq (name : String) (candidates : List String) :
    closest name candidates = ((ranking name candidates).take 3).map Prod.snd :=
  rfl

lemma mem_sortedRanks {p : ℕ × String} :
    p ∈ sortedRanks name candidates ↔ p.2 ∈ candidates ∧ Ranked name p.2 p.1 := by
  rw [sortedRanks, List.mem_mergeSort, List.mem_filterMap]
  constructor
  · rintro ⟨c, hc, hrank⟩
    obtain ⟨n, hn, rfl⟩ := Option.map_eq_some_iff.1 hrank
    exact ⟨hc, rank?_eq_some_iff.1 hn⟩
  · rintro ⟨hc, hrank⟩
    exact ⟨p.2, hc, by rw [rank?_eq_some_iff.2 hrank]; rfl⟩

lemma pairwise_sortedRanks (name : String) (candidates : List String) :
    (sortedRanks name candidates).Pairwise fun p q => toLex p ≤ toLex q := by
  have hsorted : (sortedRanks name candidates).Pairwise fun p q => precedes p q = true := by
    apply List.pairwise_mergeSort
    · intro p q r hpq hqr
      rw [precedes_iff] at hpq hqr ⊢
      exact hpq.trans hqr
    · intro p q
      rw [Bool.or_eq_true, precedes_iff, precedes_iff]
      exact le_total _ _
  exact hsorted.imp fun h => (precedes_iff _ _).1 h

/-- Repetitions stand side by side in a sorted list, so none is left. -/
lemma ranking_eq_dedup (name : String) (candidates : List String) :
    ranking name candidates = (sortedRanks name candidates).dedup := by
  have : Std.Antisymm fun p q : ℕ × String => toLex p ≤ toLex q :=
    ⟨fun p q hpq hqp => toLex_inj.1 (le_antisymm hpq hqp)⟩
  rw [ranking, eraseReps_eq_destutter, (pairwise_sortedRanks name candidates).destutter_eq_dedup]

lemma mem_ranking {p : ℕ × String} :
    p ∈ ranking name candidates ↔ p.2 ∈ candidates ∧ Ranked name p.2 p.1 := by
  rw [ranking_eq_dedup, List.mem_dedup, mem_sortedRanks]

/-- The ranking goes up strictly. -/
lemma pairwise_ranking (name : String) (candidates : List String) :
    (ranking name candidates).Pairwise fun p q => toLex p < toLex q := by
  rw [ranking_eq_dedup]
  have hsorted := (pairwise_sortedRanks name candidates).sublist (List.dedup_sublist _)
  refine (hsorted.and (List.nodup_dedup _)).imp fun h => ?_
  exact lt_of_le_of_ne h.1 fun heq => h.2 (toLex_inj.1 heq)

lemma ahead_of_lt {p q : ℕ × String} (hp : p ∈ ranking name candidates)
    (hq : q ∈ ranking name candidates) (hlt : toLex p < toLex q) : Ahead name p.2 q.2 :=
  ⟨p.1, q.1, (mem_ranking.1 hp).2, (mem_ranking.1 hq).2, Prod.Lex.toLex_lt_toLex.1 hlt⟩

/-- The ranking depends on which candidates there are only. -/
lemma ranking_congr {others : List String} (h : ∀ c, c ∈ others ↔ c ∈ candidates) :
    ranking name others = ranking name candidates := by
  have : Std.Irrefl fun p q : ℕ × String => toLex p < toLex q := ⟨fun p => lt_irrefl (toLex p)⟩
  have : Std.Antisymm fun p q : ℕ × String => toLex p < toLex q :=
    ⟨fun p q hpq hqp => (lt_asymm hpq hqp).elim⟩
  refine (pairwise_ranking name others).eq_of_mem_iff (pairwise_ranking name candidates) fun p => ?_
  rw [mem_ranking, mem_ranking, h]

/-- What is suggested stands in front of everything else that is ranked. -/
lemma closest_of_ranking (name : String) (candidates : List String) :
    Closest name candidates (closest name candidates) := by
  have hincreasing : (closest name candidates).Pairwise (Ahead name) := by
    rw [closest_eq, List.pairwise_map]
    have htaken := (pairwise_ranking name candidates).sublist (List.take_sublist 3 _)
    refine htaken.imp_of_mem fun hp hq hlt => ?_
    exact ahead_of_lt (List.mem_of_mem_take hp) (List.mem_of_mem_take hq) hlt
  refine ⟨?_, hincreasing.imp Ahead.ne, ?_, hincreasing, ?_⟩
  · rw [closest_eq, List.length_map]
    exact List.length_take_le _ _
  · intro c hc
    obtain ⟨p, hp, rfl⟩ := List.mem_map.1 hc
    obtain ⟨hcandidate, hrank⟩ := mem_ranking.1 (List.mem_of_mem_take hp)
    exact ⟨hcandidate, p.1, hrank⟩
  · intro c hc hnot n hrank
    have hmem : (n, c) ∈ ranking name candidates := mem_ranking.2 ⟨hc, hrank⟩
    have hcut := List.take_append_drop 3 (ranking name candidates)
    have hdropped : (n, c) ∈ (ranking name candidates).drop 3 := by
      rw [← hcut, List.mem_append] at hmem
      exact hmem.resolve_left fun htaken => hnot (List.mem_map.2 ⟨_, htaken, rfl⟩)
    refine ⟨?_, fun best hbest => ?_⟩
    · have hpos := List.length_pos_of_mem hdropped
      rw [List.length_drop] at hpos
      rw [closest_eq, List.length_map, List.length_take]
      omega
    · obtain ⟨p, hp, rfl⟩ := List.mem_map.1 hbest
      have hpairs := pairwise_ranking name candidates
      rw [← hcut] at hpairs
      exact ahead_of_lt (List.mem_of_mem_take hp) hmem
        ((List.pairwise_append.1 hpairs).2.2 p hp _ hdropped)

end

/-- The suggestions for a name are the best candidates, in their order, and do not depend on how the
candidates are ordered and repeated. -/
theorem closest_best (name : String) (candidates : List String) :
    Closest name candidates (closest name candidates) ∧
      ∀ others : List String, (∀ c, c ∈ others ↔ c ∈ candidates) →
        closest name others = closest name candidates := by
  refine ⟨closest_of_ranking name candidates, fun others hsame => ?_⟩
  rw [closest_eq, closest_eq, ranking_congr hsame]

/-- Six of these names have a rank; that of the last one comes from being a part. -/
theorem closest_best_top :
    closest "top" ["stop", "top", "tops", "to", "pot", "top", "border-top"] =
        ["top", "stop", "to"] ∧
      closest "top" ["border-top", "pot", "to", "top", "tops", "stop"] = ["top", "stop", "to"] := by
  have hfound : closest "top" ["stop", "top", "tops", "to", "pot", "top", "border-top"] =
      ["top", "stop", "to"] := by
    cbv
  have hsame : ∀ c, c ∈ ["border-top", "pot", "to", "top", "tops", "stop"] ↔
      c ∈ ["stop", "top", "tops", "to", "pot", "top", "border-top"] := by
    intro c
    simp only [List.mem_cons, List.not_mem_nil]
    tauto
  exact ⟨hfound, ((closest_best _ _).2 _ hsame).trans hfound⟩

end AtomicCss.Proofs
