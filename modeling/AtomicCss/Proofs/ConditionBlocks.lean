import AtomicCss.Compile.Variable
import AtomicCss.Proofs.Rearranging
import Mathlib.Data.List.Induction

/-!
# Values collected by at-rule

The blocks of a group or a theme stand in the order in which their at-rules first appear among the
values, and a block holds the declarations of its at-rule in the order of the values. The block
without an at-rule is moved to the front.
-/

namespace AtomicCss.Proofs

open Keyed

/-- The declarations of variables, each with the at-rule around it. -/
def declared (vars : List (String × List (Option String × String))) :
    List (Option String × String) :=
  vars.flatMap fun var => var.2.map fun v => (v.1, var.1 ++ ":" ++ v.2)

/-- The declarations that belong into the block of an at-rule. -/
def within (items : List (Option String × String)) (atRule : Option String) : List String :=
  (items.filter fun item => item.1 = atRule).map Prod.snd

/-- The blocks that the declarations are collected into. -/
def gathered (items : List (Option String × String)) : Blocks :=
  items.foldl (fun blocks item => blocks.add item.1 item.2) []

lemma addAll_eq_foldl (blocks : Blocks) (custom : String) (values : List (Option String × String)) :
    blocks.addAll custom values =
      (values.map fun v => (v.1, custom ++ ":" ++ v.2)).foldl
        (fun blocks item => blocks.add item.1 item.2) blocks := by
  rw [List.foldl_map]
  rfl

lemma foldl_addAll_eq_gathered (vars : List (String × List (Option String × String))) :
    vars.foldl (fun blocks var => Blocks.addAll blocks var.1 var.2) [] =
      gathered (declared vars) := by
  unfold gathered declared
  rw [List.foldl_flatMap]
  congr 1
  funext blocks var
  exact addAll_eq_foldl blocks var.1 var.2

section

variable {κ α : Type} [DecidableEq κ] {ks : List κ} {key : κ} (f : κ → α)

lemma get?_map_pair (ks : List κ) (key : κ) :
    get? (ks.map fun k => (k, f k)) key = if key ∈ ks then some (f key) else none := by
  induction ks with
  | nil => rfl
  | cons k ks ih =>
    rw [List.map_cons, get?, ih]
    by_cases hk : k = key
    · simp [hk]
    · have hne : ¬key = k := fun h => hk h.symm
      simp [hk, hne]

lemma put_map_pair (hks : ks.Nodup) (hkey : key ∈ ks) (a : α) :
    put (ks.map fun k => (k, f k)) key a = ks.map fun k => (k, if k = key then a else f k) := by
  induction ks with
  | nil => cases hkey
  | cons k ks ih =>
    obtain ⟨hnot, hks⟩ := List.nodup_cons.1 hks
    rw [List.map_cons, put, List.map_cons]
    by_cases hk : k = key
    · rw [if_pos hk, if_pos hk]
      congr 1
      apply List.map_congr_left
      intro other hother
      have hne : other ≠ key := by
        rintro rfl
        exact hnot (hk ▸ hother)
      rw [if_neg hne]
    · rw [if_neg hk, if_neg hk, ih hks ((List.mem_cons.1 hkey).resolve_left fun h => hk h.symm)]

end

section

variable {α : Type} [BEq α] [LawfulBEq α] {xs : List α} {x : α}

lemma eraseDups_append_of_mem (hx : x ∈ xs) : (xs ++ [x]).eraseDups = xs.eraseDups := by
  simp [List.eraseDups_append, List.removeAll, hx]

lemma eraseDups_append_of_notMem (hx : x ∉ xs) : (xs ++ [x]).eraseDups = xs.eraseDups ++ [x] := by
  simp [List.eraseDups_append, List.removeAll, List.eraseDups_cons, hx]

lemma nodup_eraseDups (xs : List α) : xs.eraseDups.Nodup := by
  induction xs using List.reverseRecOn with
  | nil => exact List.nodup_nil
  | append_singleton xs x ih =>
    by_cases hx : x ∈ xs
    · rw [eraseDups_append_of_mem hx]
      exact ih
    · rw [eraseDups_append_of_notMem hx]
      apply ih.append (List.nodup_singleton x)
      rw [List.disjoint_singleton, List.mem_eraseDups]
      exact hx

end

/-- The at-rules of the declarations, in the order in which they first appear. -/
def atRulesOf (items : List (Option String × String)) : List (Option String) :=
  (items.map Prod.fst).eraseDups

section

variable {items : List (Option String × String)} {atRule : Option String}

lemma nodup_atRulesOf (items : List (Option String × String)) : (atRulesOf items).Nodup := by
  unfold atRulesOf
  exact nodup_eraseDups _

lemma mem_atRulesOf : atRule ∈ atRulesOf items ↔ atRule ∈ items.map Prod.fst :=
  List.mem_eraseDups

lemma within_append (items more : List (Option String × String)) (atRule : Option String) :
    within (items ++ more) atRule = within items atRule ++ within more atRule := by
  unfold within
  rw [List.filter_append, List.map_append]

lemma within_singleton (atRule other : Option String) (text : String) :
    within [(atRule, text)] other = if other = atRule then [text] else [] := by
  by_cases ho : other = atRule
  · simp [within, ho]
  · have hne : ¬atRule = other := fun h => ho h.symm
    simp [within, ho, hne]

lemma within_of_notMem (h : atRule ∉ atRulesOf items) : within items atRule = [] := by
  unfold within
  rw [List.map_eq_nil_iff, List.filter_eq_nil_iff]
  intro item hitem heq
  apply h
  rw [mem_atRulesOf, ← of_decide_eq_true heq]
  exact List.mem_map_of_mem hitem

/-- A declaration is added to the block of its at-rule, or begins it. -/
lemma add_blocks (items : List (Option String × String)) (atRule : Option String)
    (text : String) :
    Blocks.add ((atRulesOf items).map fun other => (other, within items other)) atRule text =
      (atRulesOf (items ++ [(atRule, text)])).map
        fun other => (other, within (items ++ [(atRule, text)]) other) := by
  have hothers : ∀ other, within (items ++ [(atRule, text)]) other =
      within items other ++ if other = atRule then [text] else [] := by
    intro other
    rw [within_append, within_singleton]
  unfold Blocks.add Keyed.update
  rw [get?_map_pair]
  by_cases hmem : atRule ∈ atRulesOf items
  · have hrules : atRulesOf (items ++ [(atRule, text)]) = atRulesOf items := by
      unfold atRulesOf
      rw [List.map_append]
      exact eraseDups_append_of_mem (mem_atRulesOf.1 hmem)
    rw [if_pos hmem, put_map_pair _ (nodup_atRulesOf items) hmem, hrules]
    apply List.map_congr_left
    intro other _
    rw [hothers]
    split
    · rename_i ho
      rw [ho, Option.getD_some]
    · rw [List.append_nil]
  · have hrules : atRulesOf (items ++ [(atRule, text)]) = atRulesOf items ++ [atRule] := by
      unfold atRulesOf
      rw [List.map_append]
      exact eraseDups_append_of_notMem fun h => hmem (mem_atRulesOf.2 h)
    have hfree :
        atRule ∉ keys ((atRulesOf items).map fun other => (other, within items other)) := by
      simpa [keys, Function.comp_def] using hmem
    rw [if_neg hmem, put_of_notMem hfree, hrules, List.map_append, List.map_singleton,
      hothers, within_of_notMem hmem, if_pos rfl]
    congr 1
    apply List.map_congr_left
    intro other hother
    have hne : other ≠ atRule := fun heq => hmem (heq ▸ hother)
    rw [hothers, if_neg hne, List.append_nil]

/-- Every at-rule has one block, which holds its declarations. -/
lemma gathered_eq (items : List (Option String × String)) :
    gathered items = (atRulesOf items).map fun atRule => (atRule, within items atRule) := by
  induction items using List.reverseRecOn with
  | nil => rfl
  | append_singleton items item ih =>
    rw [← add_blocks items item.1 item.2, ← ih]
    unfold gathered
    rw [List.foldl_append]
    rfl

end

/-- The at-rules of the blocks, with no at-rule at the front if it is among them. -/
def blockOrder (items : List (Option String × String)) : List (Option String) :=
  (atRulesOf items).filter Option.isNone ++ (atRulesOf items).filter Option.isSome

lemma mem_blockOrder {items : List (Option String × String)} {atRule : Option String} :
    atRule ∈ blockOrder items ↔ atRule ∈ atRulesOf items := by
  unfold blockOrder
  rw [List.mem_append, List.mem_filter, List.mem_filter]
  cases atRule <;> simp

lemma defaultFirst_gathered (items : List (Option String × String)) :
    (gathered items).defaultFirst =
      (blockOrder items).map fun atRule => (atRule, within items atRule) := by
  unfold Blocks.defaultFirst blockOrder
  rw [gathered_eq, List.filter_map, List.filter_map, ← List.map_append]
  rfl

end AtomicCss.Proofs
