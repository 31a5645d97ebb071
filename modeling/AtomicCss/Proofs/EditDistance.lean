import AtomicCss.Suggestion
import Mathlib.Data.List.Basic
import Mathlib.Order.Bounds.Basic
import Mathlib.Order.MinMax

/-!
# Edit distance

The distance of two texts is the least number of edits that lead from one to the other, where an
edit puts in, takes out or replaces one character anywhere. The table is filled row by row, from
the distances of their beginnings; the recursion on first characters, which the bounds follow,
gives the same on the reversed texts.
-/

namespace AtomicCss.Proofs

open Suggestion

/-- One character is put in, taken out or replaced. -/
inductive Edit : List Char → List Char → Prop
  | insert (front back : List Char) (c : Char) : Edit (front ++ back) (front ++ c :: back)
  | delete (front back : List Char) (c : Char) : Edit (front ++ c :: back) (front ++ back)
  | replace (front back : List Char) (c d : Char) : Edit (front ++ c :: back) (front ++ d :: back)

/-- So many edits lead from one text to another. -/
inductive Edits : ℕ → List Char → List Char → Prop
  | none (text : List Char) : Edits 0 text text
  | more {n : ℕ} {s t u : List Char} : Edit s t → Edits n t u → Edits (n + 1) s u

/-- The distance by first characters: the first one is taken out, put in, or becomes the other
first one. -/
def distance : List Char → List Char → ℕ
  | [], t => t.length
  | c :: s, [] => (c :: s).length
  | c :: s, d :: t =>
    min (min (distance (c :: s) t + 1) (distance s (d :: t) + 1))
      (distance s t + if c = d then 0 else 1)
termination_by s t => s.length + t.length

section

variable {n : ℕ} {c d : Char} {s s' t u : List Char}

lemma Edit.cons (h : Edit s t) (c : Char) : Edit (c :: s) (c :: t) := by
  cases h with
  | insert front back d => exact .insert (c :: front) back d
  | delete front back d => exact .delete (c :: front) back d
  | replace front back d e => exact .replace (c :: front) back d e

lemma Edits.cons (h : Edits n s t) (c : Char) : Edits n (c :: s) (c :: t) := by
  induction h with
  | none text => exact .none (c :: text)
  | more hedit _ ih => exact .more (hedit.cons c) ih

lemma Edit.reverse (h : Edit s t) : Edit s.reverse t.reverse := by
  cases h with
  | insert front back c => simpa using Edit.insert back.reverse front.reverse c
  | delete front back c => simpa using Edit.delete back.reverse front.reverse c
  | replace front back c d => simpa using Edit.replace back.reverse front.reverse c d

lemma Edits.reverse (h : Edits n s t) : Edits n s.reverse t.reverse := by
  induction h with
  | none text => exact .none text.reverse
  | more hedit _ ih => exact .more hedit.reverse ih

lemma edits_nil_left (t : List Char) : Edits t.length [] t := by
  induction t with
  | nil => exact .none []
  | cons c t ih => exact .more (.insert [] [] c) (ih.cons c)

lemma edits_nil_right (s : List Char) : Edits s.length s [] := by
  induction s with
  | nil => exact .none []
  | cons c s ih => exact .more (.delete [] s c) ih

/-- As many edits as the distance says lead from one text to the other. -/
lemma edits_distance (s t : List Char) : Edits (distance s t) s t := by
  induction s, t using distance.induct with
  | case1 t =>
    rw [distance]
    exact edits_nil_left t
  | case2 c s =>
    rw [distance]
    exact edits_nil_right (c :: s)
  | case3 c s d t hinsert hdelete hsame =>
    rw [distance]
    rcases min_choice (min (distance (c :: s) t + 1) (distance s (d :: t) + 1))
      (distance s t + if c = d then 0 else 1) with hmin | hmin
    · rw [hmin]
      rcases min_choice (distance (c :: s) t + 1) (distance s (d :: t) + 1) with hmin | hmin
      · rw [hmin]
        exact .more (.insert [] (c :: s) d) (hinsert.cons d)
      · rw [hmin]
        exact .more (.delete [] s c) hdelete
    · rw [hmin]
      split
      · rename_i heq
        subst heq
        exact hsame.cons c
      · exact .more (.replace [] s c d) (hsame.cons d)

@[simp] lemma distance_nil_right (s : List Char) : distance s [] = s.length := by
  cases s <;> simp [distance]

lemma distance_cons_left (c : Char) (s t : List Char) :
    distance (c :: s) t ≤ distance s t + 1 := by
  cases t with
  | nil => simp
  | cons d t =>
    rw [distance]
    omega

lemma distance_cons_right (d : Char) (s t : List Char) :
    distance s (d :: t) ≤ distance s t + 1 := by
  cases s with
  | nil => simp [distance]
  | cons c s =>
    rw [distance]
    omega

/-- Taking out the first character changes the distance by one at most. -/
lemma distance_le_cons_left (c : Char) (s t : List Char) :
    distance s t ≤ distance (c :: s) t + 1 := by
  induction t with
  | nil =>
    rw [distance_nil_right, distance_nil_right, List.length_cons]
    omega
  | cons d t ih =>
    have hright := distance_cons_right d s t
    rw [distance]
    omega

lemma distance_replace (c d : Char) (s t : List Char) :
    distance (c :: s) t ≤ distance (d :: s) t + 1 := by
  induction t with
  | nil => simp
  | cons e t ih =>
    rw [distance, distance]
    split <;> split <;> omega

/-- A character in front keeps two texts as close to a third as they were. -/
lemma distance_cons_mono (h : ∀ t, distance s t ≤ distance s' t + 1) (c : Char) (t : List Char) :
    distance (c :: s) t ≤ distance (c :: s') t + 1 := by
  induction t with
  | nil =>
    have hnil := h []
    rw [distance_nil_right, distance_nil_right] at hnil ⊢
    rw [List.length_cons, List.length_cons]
    omega
  | cons d t ih =>
    have hshort := h t
    have hlong := h (d :: t)
    rw [distance, distance]
    omega

/-- An edit changes the distance to a text by one at most. -/
lemma Edit.distance_le (h : Edit s s') (t : List Char) : distance s t ≤ distance s' t + 1 := by
  cases h with
  | insert front back c =>
    induction front generalizing t with
    | nil => exact distance_le_cons_left c back t
    | cons d front ih => exact distance_cons_mono ih d t
  | delete front back c =>
    induction front generalizing t with
    | nil => exact distance_cons_left c back t
    | cons d front ih => exact distance_cons_mono ih d t
  | replace front back c d =>
    induction front generalizing t with
    | nil => exact distance_replace c d back t
    | cons e front ih => exact distance_cons_mono ih e t

lemma distance_self (s : List Char) : distance s s = 0 := by
  induction s with
  | nil => simp [distance]
  | cons c s ih =>
    rw [distance, ih]
    simp

lemma Edits.distance_le (h : Edits n s t) : distance s t ≤ n := by
  induction h with
  | none text => rw [distance_self]
  | more hedit _ ih => exact (hedit.distance_le _).trans (Nat.succ_le_succ ih)

/-- The cells of a row right of the one for `t`, where texts are read from their ends. -/
def cells (s t : List Char) : List Char → List ℕ
  | [] => []
  | d :: ds => distance s (d :: t) :: cells s (d :: t) ds

lemma rowFrom_cells (c : Char) (s t ds : List Char) :
    rowFrom c (distance (c :: s) t) (distance s t) ds (cells s t ds) = cells (c :: s) t ds := by
  induction ds generalizing t with
  | nil => rfl
  | cons d ds ih =>
    have hhere : distance (c :: s) (d :: t) =
        min (min (distance (c :: s) t + 1) (distance s (d :: t) + 1))
          (distance s t + if c = d then 0 else 1) := by rw [distance]
    rw [cells, rowFrom, ← hhere, ih, cells]

/-- One more character makes the row of distances from the longer text. -/
lemma nextRow_cells (c : Char) (s target : List Char) :
    nextRow target (distance s [] :: cells s [] target) c =
      distance (c :: s) [] :: cells (c :: s) [] target := by
  have hfirst : distance (c :: s) [] = distance s [] + 1 := by
    rw [distance_nil_right, distance_nil_right, List.length_cons]
  rw [nextRow, ← hfirst, rowFrom_cells]

lemma foldl_nextRow (source s target : List Char) :
    source.foldl (nextRow target) (distance s [] :: cells s [] target) =
      distance (source.reverse ++ s) [] :: cells (source.reverse ++ s) [] target := by
  induction source generalizing s with
  | nil => rfl
  | cons c source ih =>
    rw [List.foldl_cons, nextRow_cells, ih, List.reverse_cons, List.append_assoc,
      List.singleton_append]

lemma cells_nil (t ds : List Char) : cells [] t ds = List.range' (t.length + 1) ds.length := by
  induction ds generalizing t with
  | nil => rfl
  | cons d ds ih => rw [cells, ih, distance, List.length_cons, List.length_cons, List.range'_succ]

lemma getLast?_cells (s t ds : List Char) :
    (distance s t :: cells s t ds).getLast? = some (distance s (ds.reverse ++ t)) := by
  induction ds generalizing t with
  | nil => rfl
  | cons d ds ih =>
    rw [cells, List.getLast?_cons_cons, ih, List.reverse_cons, List.append_assoc,
      List.singleton_append]

lemma editDistance_eq (source target : List Char) :
    editDistance source target = distance source.reverse target.reverse := by
  have hstart : List.range (target.length + 1) = distance [] [] :: cells [] [] target := by
    rw [cells_nil, distance, List.range_eq_range', List.range'_succ]
    rfl
  rw [editDistance, hstart, foldl_nextRow, List.append_nil, getLast?_cells, List.append_nil]
  rfl

/-- The table gives the least number of edits. -/
lemma isLeast_editDistance (source target : List Char) :
    IsLeast {n | Edits n source target} (editDistance source target) := by
  rw [editDistance_eq]
  constructor
  · simpa using (edits_distance source.reverse target.reverse).reverse
  · intro n hn
    exact hn.reverse.distance_le

end

end AtomicCss.Proofs
