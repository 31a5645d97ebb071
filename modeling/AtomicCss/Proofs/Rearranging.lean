import AtomicCss.Proofs.Keyed
import AtomicCss.Proofs.Processing
import Mathlib.Data.List.Perm.Basic

/-!
# Items in another order

Traversing a list in another order gives the same results in that order. Sorting takes the order
back, as long as no two items have one key.
-/

namespace AtomicCss.Proofs

open Keyed

section

variable {α β ε : Type}

lemma mapM_of_forall₂ {f : α → Except ε β} {xs : List α} {ys : List β}
    (h : List.Forall₂ (fun x y => f x = .ok y) xs ys) : xs.mapM f = .ok ys := by
  induction h with
  | nil => rfl
  | cons hxy _ ih =>
    rw [List.mapM_cons, hxy, ih]
    rfl

lemma mapM_perm {f : α → Except ε β} {xs others : List α} {ys : List β}
    (hperm : others.Perm xs) (h : xs.mapM f = .ok ys) :
    ∃ zs, others.mapM f = .ok zs ∧ zs.Perm ys := by
  obtain ⟨zs, hzs, hsame⟩ := List.perm_comp_forall₂ hperm (mapM_eq_ok h)
  exact ⟨zs, mapM_of_forall₂ hzs, hsame⟩

/-- What is related to the items of one list, item by item, is related to each other. -/
lemma forall₂_join {γ : Type} {R : α → β → Prop} {S : α → γ → Prop} {T : β → γ → Prop}
    (h : ∀ a b c, R a b → S a c → T b c) {xs : List α} {ys : List β} {zs : List γ}
    (hys : List.Forall₂ R xs ys) (hzs : List.Forall₂ S xs zs) : List.Forall₂ T ys zs := by
  induction hys generalizing zs with
  | nil =>
    cases hzs
    exact .nil
  | cons hxy _ ih =>
    cases hzs with
    | cons hxz hzs => exact .cons (h _ _ _ hxy hxz) (ih hzs)

end

section

variable {α : Type} (key : α → String)

lemma pairwise_mergeSort_key (xs : List α) :
    (xs.mergeSort fun a b => (compare (key a) (key b)).isLE).Pairwise
      fun a b => (compare (key a) (key b)).isLE = true := by
  apply List.pairwise_mergeSort
  · intro a b c
    exact Std.TransCmp.isLE_trans
  · intro a b
    have hswap : compare (key b) (key a) = (compare (key a) (key b)).swap :=
      Std.OrientedCmp.eq_swap
    rw [hswap]
    cases compare (key a) (key b) <;> rfl

/-- What is sorted by keys that tell its items apart does not show the order it was in. -/
lemma mergeSort_eq_of_perm {xs ys : List α} (hperm : xs.Perm ys)
    (hkeys : ∀ a ∈ xs, ∀ b ∈ xs, key a = key b → a = b) :
    (xs.mergeSort fun a b => (compare (key a) (key b)).isLE) =
      ys.mergeSort fun a b => (compare (key a) (key b)).isLE := by
  have hsame := (List.mergeSort_perm xs fun a b => (compare (key a) (key b)).isLE).trans
    (hperm.trans (List.mergeSort_perm ys fun a b => (compare (key a) (key b)).isLE).symm)
  refine List.Perm.eq_of_pairwise ?_ (pairwise_mergeSort_key key xs)
    (pairwise_mergeSort_key key ys) hsame
  intro a b ha hb hab hba
  have heq : compare (key a) (key b) = .eq := Std.OrientedCmp.isLE_antisymm hab hba
  have hb' : b ∈ xs := hperm.mem_iff.2 (List.mem_mergeSort.1 hb)
  exact hkeys a (List.mem_mergeSort.1 ha) b hb' (Std.LawfulEqOrd.eq_of_compare heq)

end

end AtomicCss.Proofs
