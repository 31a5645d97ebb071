import AtomicCss.Class.Rule
import AtomicCss.Proofs.Parentheses

/-!
# Stacked at-rules

At-rules that stand one behind the other in a text are found again by the `@` that each begins with:
the scan counts what it has open, so behind the front of an at-rule it is inside just the
parentheses that the front leaves open, and behind the whole at-rule inside none. A rule put into
such a stack stands inside all of them, the first outermost.
-/

namespace AtomicCss.Proofs

open Condition Text

/-- One at-rule: from its `@` on, with no blanks at its ends, balanced, and with every other `@`
inside parentheses. -/
@[mk_iff]
structure IsAtRule (rule : List Char) : Prop where
  opens : rule.head? = some '@'
  trimmed : Trimmed rule
  balanced : IsBalanced rule
  single : Hides (· == '@') rule.tail

instance (rule : List Char) : Decidable (IsAtRule rule) :=
  decidable_of_iff _ (isAtRule_iff rule).symm

section

variable {front back rule rest : List Char} {rules : List (List Char)}

/-- Behind the front of a balanced text, as many parentheses are open as the front leaves. No `@`
in the back splits the text if none stands behind a balanced front. -/
lemma atRulesFrom_behind (hne : front ≠ []) (hbalanced : IsBalanced (front ++ back))
    (hsingle : ∀ more after, back = more ++ '@' :: after → ¬IsBalanced (front ++ more))
    (rest : List Char) :
    atRulesFrom (front.count '(' - front.count ')') front (back ++ rest) =
      atRulesFrom 0 (front ++ back) rest := by
  induction back generalizing front with
  | nil =>
    rw [List.append_nil] at hbalanced
    rw [hbalanced.total, Nat.sub_self, List.nil_append, List.append_nil]
  | cons c back ih =>
    have hstays : ¬(c = '@' ∧ front.count '(' - front.count ')' = 0 ∧ front ≠ []) := by
      rintro ⟨rfl, hzero, _⟩
      refine hsingle [] back rfl ?_
      rw [List.append_nil]
      exact hbalanced.of_front hzero
    have hassoc : front ++ c :: back = (front ++ [c]) ++ back := by simp
    rw [hassoc] at hbalanced
    have hrest : ∀ more after, back = more ++ '@' :: after → ¬IsBalanced (front ++ [c] ++ more) := by
      intro more after hback
      have hmore := hsingle (c :: more) after (by rw [hback, List.cons_append])
      rwa [List.append_assoc, List.singleton_append]
    have hdepth := depthAfter_front hbalanced 0
    rw [Nat.zero_add, Nat.zero_add] at hdepth
    rw [List.cons_append, atRulesFrom, if_neg hstays, hdepth, ih (by simp) hbalanced hrest, hassoc]

/-- An at-rule is split off as a whole, up to the next `@` or the end. -/
lemma atRulesFrom_rule (h : IsAtRule rule) (hrest : rest = [] ∨ rest.head? = some '@') :
    atRulesFrom 0 [] (rule ++ rest) = rule :: atRulesFrom 0 [] rest := by
  obtain ⟨cs, rfl⟩ := List.head?_eq_some_iff.1 h.opens
  have hscan : atRulesFrom 0 [] ('@' :: cs ++ rest) = atRulesFrom 0 ('@' :: cs) rest := by
    have hopen : atRulesFrom 0 [] ('@' :: cs ++ rest) = atRulesFrom 0 ['@'] (cs ++ rest) := rfl
    rw [hopen]
    refine atRulesFrom_behind (List.cons_ne_nil '@' []) h.balanced ?_ rest
    intro more after hcs hbalanced
    exact h.single more '@' after hcs rfl ((isBalanced_cons (by decide) (by decide)).1 hbalanced)
  have htrim : trim ('@' :: cs) = '@' :: cs := trim_of_trimmed h.trimmed
  rw [hscan]
  rcases hrest with rfl | hat
  · rw [atRulesFrom, htrim]
    rfl
  · obtain ⟨more, rfl⟩ := List.head?_eq_some_iff.1 hat
    rw [atRulesFrom, if_pos ⟨rfl, rfl, List.cons_ne_nil _ _⟩, htrim]
    rfl

/-- A stack of at-rules is split into these. -/
lemma atRulesFrom_flatten (h : ∀ rule ∈ rules, IsAtRule rule) :
    atRulesFrom 0 [] rules.flatten = rules := by
  induction rules with
  | nil => rfl
  | cons rule rules ih =>
    obtain ⟨hrule, hrules⟩ := List.forall_mem_cons.1 h
    have hrest : rules.flatten = [] ∨ rules.flatten.head? = some '@' := by
      cases rules with
      | nil => exact .inl rfl
      | cons next rules =>
        right
        rw [List.flatten_cons, List.head?_append, (hrules next List.mem_cons_self).opens,
          Option.some_or]
    rw [List.flatten_cons, atRulesFrom_rule hrule hrest, ih hrules]

end

/-- Every at-rule opens a brace in front of the rule, and all of them are closed behind it. -/
lemma foldr_braced (rules : List String) (rule : String) :
    rules.foldr braced rule = String.join (rules.map (· ++ "\x7b")) ++ rule ++
      String.join (List.replicate rules.length "\x7d") := by
  induction rules with
  | nil => simp
  | cons head rules ih =>
    have hlast : String.join (List.replicate rules.length "\x7d") ++ "\x7d" =
        String.join (List.replicate (rules.length + 1) "\x7d") := by
      rw [List.replicate_succ', String.join_append]
      simp
    rw [List.foldr_cons, ih, braced, List.map_cons, String.join_cons, List.length_cons, ← hlast]
    simp only [String.append_assoc]

/-- Stacked at-rules are split into the at-rules that were stacked, in order, and a rule inside the
stack stands inside each of them, the first outermost. -/
theorem atRules_stacked {rules : List String} (h : ∀ rule ∈ rules, IsAtRule rule.toList)
    (rule : String) :
    atRules (String.join rules) = rules ∧
      wrapAtRules (some (String.join rules)) rule =
        String.join (rules.map (· ++ "\x7b")) ++ rule ++
          String.join (List.replicate rules.length "\x7d") := by
  have hsplit : atRules (String.join rules) = rules := by
    have htexts : ∀ text ∈ rules.map String.toList, IsAtRule text := by
      intro text htext
      obtain ⟨rule, hrule, rfl⟩ := List.mem_map.1 htext
      exact h rule hrule
    rw [atRules, String.toList_join, List.flatMap_def, atRulesFrom_flatten htexts, List.map_map]
    simp
  refine ⟨hsplit, ?_⟩
  rw [wrapAtRules, hsplit, foldr_braced]

/-- Three at-rules, the first with an `@` in nested parentheses, the second with letters of more
than one byte. -/
theorem atRules_stacked_container :
    atRules "@supports (a: f(b@c))@container größe (width > 1px)@media print" =
        ["@supports (a: f(b@c))", "@container größe (width > 1px)", "@media print"] ∧
      wrapAtRules (some "@supports (a: f(b@c))@container größe (width > 1px)@media print")
          ".x\x7bcolor:red\x7d" =
        "@supports (a: f(b@c))\x7b@container größe (width > 1px)\x7b@media print\x7b" ++
          ".x\x7bcolor:red\x7d" ++ "\x7d\x7d\x7d" := by
  have hrules : ∀ rule ∈ ["@supports (a: f(b@c))", "@container größe (width > 1px)",
      "@media print"], IsAtRule rule.toList := by
    decide +kernel
  exact atRules_stacked hrules ".x\x7bcolor:red\x7d"

end AtomicCss.Proofs
