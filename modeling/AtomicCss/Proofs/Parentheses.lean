import AtomicCss.Proofs.ConditionParts

/-!
# Parentheses that pair up

A text is balanced if it closes as many parentheses as it opens, and no beginning of it closes more.
The scan that looks for an imbalance finds one just in the other texts. A colon stands outside
parentheses if the text in front of it is balanced; the first of these is where the suffix of a
condition begins.
-/

namespace AtomicCss.Proofs

open Condition Text

/-- As many parentheses are closed as are opened, and never more. -/
@[mk_iff isBalanced_iff_total_and_front]
structure IsBalanced (cs : List Char) : Prop where
  total : cs.count ')' = cs.count '('
  front {front : List Char} : front <+: cs → front.count ')' ≤ front.count '('

/-- No character of a kind stands outside parentheses. -/
def Hides (kind : Char → Bool) (cs : List Char) : Prop :=
  ∀ front c back, cs = front ++ c :: back → kind c = true → ¬IsBalanced front

abbrev HidesColons (cs : List Char) : Prop :=
  Hides (· == ':') cs

section

variable {cs rules suffix : List Char} {depth : ℕ}

lemma forall_prefix_cons {P : List Char → Prop} {c : Char} (hnil : P []) :
    (∀ front, front <+: c :: cs → P front) ↔ ∀ front, front <+: cs → P (c :: front) := by
  constructor
  · exact fun h front hfront => h _ ((List.prefix_cons_inj c).2 hfront)
  · intro h front hfront
    rcases List.prefix_cons_iff.1 hfront with rfl | ⟨rest, rfl, hrest⟩
    · exact hnil
    · exact h rest hrest

/-- The scan finds nothing wrong if what is open in front and what the text opens is closed, and
nothing is closed that is not open. -/
lemma imbalance?_eq_none_iff (cs : List Char) : ∀ depth, imbalance? depth cs = none ↔
    cs.count ')' = depth + cs.count '(' ∧
      ∀ front, front <+: cs → front.count ')' ≤ depth + front.count '(' := by
  induction cs with
  | nil =>
    intro depth
    simp [imbalance?, eq_comm]
  | cons c cs ih =>
    intro depth
    rw [forall_prefix_cons (by simp), imbalance?]
    by_cases hopen : c = '('
    · subst hopen
      rw [if_pos rfl, ih]
      simp [Nat.add_right_comm, ← Nat.add_assoc]
    rw [if_neg hopen]
    by_cases hclose : c = ')'
    · subst hclose
      rw [if_pos rfl]
      by_cases hdepth : depth = 0
      · subst hdepth
        rw [if_pos rfl]
        refine iff_of_false (Option.some_ne_none _) fun h => ?_
        simpa using h.2 [] (List.nil_prefix)
      · obtain ⟨less, rfl⟩ := Nat.exists_eq_succ_of_ne_zero hdepth
        rw [if_neg hdepth, ih]
        have hcount : ∀ front : List Char, (')' :: front).count ')' = front.count ')' + 1 ∧
            (')' :: front).count '(' = front.count '(' := fun front => by simp
        refine and_congr ?_ (forall₂_congr fun front _ => ?_)
        · rw [(hcount cs).1, (hcount cs).2]
          omega
        · rw [(hcount front).1, (hcount front).2]
          omega
    · rw [if_neg hclose, ih]
      simp [hopen, hclose]

lemma isBalanced_iff : IsBalanced cs ↔ imbalance? 0 cs = none := by
  rw [imbalance?_eq_none_iff, isBalanced_iff_total_and_front]
  simp

lemma isBalanced_of_notMem (hopen : '(' ∉ cs) (hclose : ')' ∉ cs) : IsBalanced cs where
  total := by rw [List.count_eq_zero.2 hclose, List.count_eq_zero.2 hopen]
  front hstart := by
    rw [List.count_eq_zero.2 fun hmem => hclose (hstart.subset hmem)]
    exact Nat.zero_le _

instance (cs : List Char) : Decidable (IsBalanced cs) :=
  decidable_of_iff _ isBalanced_iff.symm

lemma isBalanced_cons {c : Char} (hopen : c ≠ '(') (hclose : c ≠ ')') :
    IsBalanced (c :: cs) ↔ IsBalanced cs := by
  rw [isBalanced_iff, isBalanced_iff, imbalance?, if_neg hopen, if_neg hclose]

/-- The front of a balanced text is balanced if it leaves nothing open. -/
lemma IsBalanced.of_front {front back : List Char} (h : IsBalanced (front ++ back))
    (hzero : front.count '(' - front.count ')' = 0) : IsBalanced front where
  total := by
    have hfront := h.front (List.prefix_append front back)
    omega
  front hstart := h.front (hstart.trans (List.prefix_append _ _))

/-- Along a balanced text, as many parentheses are open as the counts of its front say. -/
lemma depthAfter_front {front back : List Char} {c : Char} (h : IsBalanced (front ++ [c] ++ back))
    (depth : ℕ) : depthAfter (depth + (front.count '(' - front.count ')')) c =
      depth + ((front ++ [c]).count '(' - (front ++ [c]).count ')') := by
  have hfront := h.front ((List.prefix_append front [c]).trans (List.prefix_append _ back))
  have hnext := h.front (List.prefix_append (front ++ [c]) back)
  rw [List.count_append, List.count_append] at hnext ⊢
  unfold depthAfter
  by_cases hopen : c = '('
  · have hcounts : ['('].count '(' = 1 ∧ ['('].count ')' = 0 := by decide
    rw [hopen, if_pos rfl, hcounts.1, hcounts.2]
    omega
  by_cases hclose : c = ')'
  · have hcounts : [')'].count '(' = 0 ∧ [')'].count ')' = 1 := by decide
    rw [hclose, hcounts.1, hcounts.2] at hnext
    rw [hclose, if_neg (by decide), if_pos rfl, hcounts.1, hcounts.2]
    omega
  · simp [hopen, hclose]

/-- Such a character is looked for at each place of the text. -/
lemma hides_iff {kind : Char → Bool} : Hides kind cs ↔
    ∀ i ∈ List.range cs.length, cs[i]?.any kind = true → ¬IsBalanced (cs.take i) := by
  constructor
  · intro h i hi hkind
    have hlt := List.mem_range.1 hi
    rw [List.getElem?_eq_getElem hlt] at hkind
    refine h _ cs[i] (cs.drop (i + 1)) ?_ hkind
    rw [← List.drop_eq_getElem_cons hlt, List.take_append_drop]
  · rintro h front c back rfl hkind
    have hfront := h front.length (by simp) (by simpa using hkind)
    rwa [List.take_left] at hfront

instance (kind : Char → Bool) (cs : List Char) : Decidable (Hides kind cs) :=
  decidable_of_iff _ hides_iff.symm

lemma map_keep_eq_some {c : Char} {r : Option (List Char × List Char)}
    {parts : List Char × List Char} :
    r.map (fun parts => (c :: parts.1, parts.2)) = some parts ↔
      ∃ rules, parts.1 = c :: rules ∧ r = some (rules, parts.2) := by
  obtain ⟨front, back⟩ := parts
  cases r <;> simp [Prod.ext_iff, eq_comm]

/-- What the first colon outside parentheses leaves in front of it. -/
lemma splitSuffix?_parts : ∀ {cs rules : List Char} {depth : ℕ},
    splitSuffix? depth cs = some (rules, suffix) →
      cs = rules ++ suffix ∧ splitSuffix? depth rules = some (rules, []) ∧
        (suffix = [] ∨ suffix.head? = some ':' ∧ imbalance? depth rules = none)
  | [], rules, depth, h => by
    cases h
    exact ⟨rfl, rfl, .inl rfl⟩
  | c :: cs, rules, depth, h => by
    rw [splitSuffix?] at h
    split at h
    · rename_i hopen
      obtain ⟨front, rfl, hrest⟩ := map_keep_eq_some.1 h
      obtain ⟨rfl, hfront, hend⟩ := splitSuffix?_parts hrest
      refine ⟨rfl, ?_, ?_⟩
      · simp [splitSuffix?, hopen, hfront]
      · simpa [imbalance?, hopen] using hend
    · rename_i hopen
      split at h
      · rename_i hclose
        split at h
        · cases h
        · rename_i hdepth
          obtain ⟨front, rfl, hrest⟩ := map_keep_eq_some.1 h
          obtain ⟨rfl, hfront, hend⟩ := splitSuffix?_parts hrest
          refine ⟨rfl, ?_, ?_⟩
          · simp [splitSuffix?, hclose, hdepth, hfront]
          · simpa [imbalance?, hclose, hdepth] using hend
      · rename_i hclose
        split at h
        · rename_i htop
          cases h
          exact ⟨rfl, rfl, .inr ⟨by rw [htop.1]; rfl, by rw [htop.2]; rfl⟩⟩
        · rename_i htop
          obtain ⟨front, rfl, hrest⟩ := map_keep_eq_some.1 h
          obtain ⟨rfl, hfront, hend⟩ := splitSuffix?_parts hrest
          refine ⟨rfl, ?_, ?_⟩
          · simp [splitSuffix?, hopen, hclose, htop, hfront]
          · simpa [imbalance?, hopen, hclose] using hend

/-- Only a parenthesis that closes nothing keeps the search from its end. -/
lemma imbalance?_ne_none (cs : List Char) : ∀ depth, splitSuffix? depth cs = none →
    imbalance? depth cs ≠ none := by
  induction cs with
  | nil =>
    intro depth h
    cases h
  | cons c cs ih =>
    intro depth h
    rw [splitSuffix?] at h
    rw [imbalance?]
    split at h
    · rename_i hopen
      rw [if_pos hopen]
      exact ih _ (Option.map_eq_none_iff.1 h)
    · rename_i hopen
      rw [if_neg hopen]
      split at h
      · rename_i hclose
        rw [if_pos hclose]
        split at h
        · rename_i hdepth
          rw [if_pos hdepth]
          exact Option.some_ne_none _
        · rename_i hdepth
          rw [if_neg hdepth]
          exact ih _ (Option.map_eq_none_iff.1 h)
      · rename_i hclose
        rw [if_neg hclose]
        split at h
        · cases h
        · exact ih _ (Option.map_eq_none_iff.1 h)

/-- Where no colon stands outside parentheses, none is found. -/
lemma HidesColons.splitSuffix? (h : HidesColons cs) :
    splitSuffix? 0 cs = none ∨ splitSuffix? 0 cs = some (cs, []) := by
  cases hsplit : Condition.splitSuffix? 0 cs with
  | none => exact .inl rfl
  | some parts =>
    obtain ⟨heq, _, hsuffix⟩ := splitSuffix?_parts hsplit
    rcases hsuffix with hnil | ⟨hhead, hbalanced⟩
    · rw [hnil, List.append_nil] at heq
      exact .inr (congrArg some (Prod.ext heq.symm hnil))
    · obtain ⟨back, hback⟩ := List.head?_eq_some_iff.1 hhead
      rw [hback] at heq
      exact (h _ _ _ heq rfl (isBalanced_iff.2 hbalanced)).elim

/-- Balanced text from an `@` on, without a colon outside parentheses, is all at-rules. -/
lemma isRules_of_isBalanced (hhead : cs.head? = some '@') (hbalanced : IsBalanced cs)
    (hcolons : HidesColons cs) : IsRules cs := by
  have himbalance := isBalanced_iff.1 hbalanced
  refine ⟨.inr hhead, himbalance, hcolons.splitSuffix?.resolve_left fun hnone => ?_⟩
  exact imbalance?_ne_none cs 0 hnone himbalance

lemma isSuffix_of_isBalanced (hhead : cs.head? = some ':') (hbalanced : IsBalanced cs) :
    IsSuffix cs :=
  ⟨.inr hhead, isBalanced_iff.1 hbalanced⟩

end

end AtomicCss.Proofs
