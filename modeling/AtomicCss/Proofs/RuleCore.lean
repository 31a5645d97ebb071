import AtomicCss.Proofs.ConditionReading
import AtomicCss.Proofs.RuleText

/-!
# The rule inside its at-rules

At-rules close the parentheses that they open, and hide their colons in them. So the first colon
outside parentheses is where a rule that begins with a colon stands inside its at-rules, and the
rule can be found again in the text.
-/

namespace AtomicCss.Proofs

open Condition Text

/-- Balanced text without a colon outside parentheses. -/
structure IsClear (cs : List Char) : Prop where
  balanced : imbalance? 0 cs = none
  noColon : splitSuffix? 0 cs = some (cs, [])

/-- A text that leaves so many parentheses open, and has no colon outside parentheses. -/
structure Opens (cs : List Char) (depth : Nat) : Prop where
  balance (behind : List Char) : imbalance? 0 (cs ++ behind) = imbalance? depth behind
  split (behind : List Char) : splitSuffix? 0 (cs ++ behind) =
    (splitSuffix? depth behind).map fun parts => (cs ++ parts.1, parts.2)

section

variable {a b cs current rest : List Char} {depth : Nat} {c : Char}

lemma IsRules.isClear (h : IsRules cs) : IsClear cs :=
  ⟨h.balanced, h.noColon⟩

lemma isClear_nil : IsClear [] :=
  ⟨rfl, rfl⟩

lemma IsClear.append (ha : IsClear a) (hb : IsClear b) : IsClear (a ++ b) where
  balanced := by rw [imbalance?_append ha.balanced, hb.balanced]
  noColon := by
    rw [splitSuffix?_append ha.balanced ha.noColon, hb.noColon]
    rfl

lemma IsClear.trim (h : IsClear cs) : IsClear (trim cs) where
  balanced := by rw [← imbalance?_inked, inked_trim, imbalance?_inked, h.balanced]
  noColon := by rw [← noColon_inked, inked_trim, noColon_inked, h.noColon]

/-- The first colon behind clear text begins what is split off. -/
lemma IsClear.split (h : IsClear cs) (hb : b.head? = some ':') :
    splitSuffix? 0 (cs ++ b) = some (cs, b) := by
  obtain ⟨rest, rfl⟩ := List.head?_eq_some_iff.1 hb
  rw [splitSuffix?_append h.balanced h.noColon]
  simp [splitSuffix?]

lemma opens_nil : Opens [] 0 where
  balance _ := rfl
  split behind := by
    rw [List.nil_append]
    cases splitSuffix? 0 behind <;> rfl

lemma Opens.isClear (h : Opens cs 0) : IsClear cs where
  balanced := by simpa [imbalance?] using h.balance []
  noColon := by simpa [splitSuffix?] using h.split []

/-- A character at which neither scan stops only changes the depth. -/
lemma scan_cons (hbalance : imbalance? depth (c :: rest) = none)
    (hcolon : splitSuffix? depth (c :: rest) = some (c :: rest, [])) (behind : List Char) :
    imbalance? depth (c :: behind) = imbalance? (depthAfter depth c) behind ∧
      splitSuffix? depth (c :: behind) =
        (splitSuffix? (depthAfter depth c) behind).map fun parts => (c :: parts.1, parts.2) := by
  unfold depthAfter
  by_cases hopen : c = '('
  · simp [imbalance?, splitSuffix?, hopen]
  · by_cases hclose : c = ')'
    · have hdepth : depth ≠ 0 := by
        rintro rfl
        simp [imbalance?, hclose] at hbalance
      simp [imbalance?, splitSuffix?, hclose, hdepth]
    · have hstops : ¬(c = ':' ∧ depth = 0) := by
        intro h
        simp [splitSuffix?, h] at hcolon
      simp [imbalance?, splitSuffix?, hopen, hclose, hstops]

/-- What is read so far stays open in step with the depth, one character after the other. -/
lemma Opens.step (h : Opens current depth) (hbalance : imbalance? depth (c :: rest) = none)
    (hcolon : splitSuffix? depth (c :: rest) = some (c :: rest, [])) :
    Opens (current ++ [c]) (depthAfter depth c) ∧
      imbalance? (depthAfter depth c) rest = none ∧
      splitSuffix? (depthAfter depth c) rest = some (rest, []) := by
  have hscan := scan_cons hbalance hcolon
  refine ⟨⟨fun behind => ?_, fun behind => ?_⟩, ?_, ?_⟩
  · rw [List.append_assoc, List.singleton_append, h.balance, (hscan behind).1]
  · rw [List.append_assoc, List.singleton_append, h.split, (hscan behind).2, Option.map_map]
    congr 1
    funext parts
    simp
  · rw [← (hscan rest).1, hbalance]
  · rw [(hscan rest).2] at hcolon
    exact map_keep_iff.1 hcolon

/-- The at-rules that a text is split into are clear if the text is. -/
lemma isClear_atRulesFrom (hopens : Opens current depth) (hbalance : imbalance? depth rest = none)
    (hcolon : splitSuffix? depth rest = some (rest, [])) :
    ∀ rule ∈ atRulesFrom depth current rest, IsClear rule := by
  induction rest generalizing depth current with
  | nil =>
    intro rule hrule
    have hdepth : depth = 0 := by
      by_contra hne
      simp [imbalance?, hne] at hbalance
    subst hdepth
    rw [atRulesFrom] at hrule
    split at hrule
    · cases hrule
    · rw [List.mem_singleton.1 hrule]
      exact hopens.isClear.trim
  | cons c rest ih =>
    obtain ⟨hnext, hbalance', hcolon'⟩ := hopens.step hbalance hcolon
    intro rule hrule
    rw [atRulesFrom] at hrule
    split at hrule
    · rename_i hsplit
      obtain ⟨rfl, rfl, _⟩ := hsplit
      rcases List.mem_cons.1 hrule with rfl | hrule
      · exact hopens.isClear.trim
      · -- an `@` opens nothing, so a new rule is read from it as from the front
        obtain ⟨hfirst, _, _⟩ := opens_nil.step hbalance hcolon
        exact ih hfirst hbalance' hcolon' rule hrule
    · exact ih hnext hbalance' hcolon' rule hrule

lemma isClear_atRules {text : String} (h : IsClear text.toList) :
    ∀ rule ∈ atRules text, IsClear rule.toList := by
  intro rule hrule
  obtain ⟨cs, hcs, rfl⟩ := List.mem_map.1 hrule
  rw [String.toList_ofList]
  exact isClear_atRulesFrom opens_nil h.balanced h.noColon cs hcs

end

lemma isClear_of_parse {written text : String} {condition : Condition}
    (h : parse written = .ok condition) (hrule : condition.atRule = some text) :
    IsClear text.toList := by
  rcases parts_of_parseText h with ⟨rules, suffix, hparts, hhead, _, rfl⟩ | ⟨_, rfl⟩
  · have htext : String.ofList (tightened rules) = text := by
      rw [textOf?_of_ne_nil (tightened_ne_nil hhead)] at hrule
      exact Option.some.inj hrule
    rw [← htext, String.toList_ofList]
    exact (isRules_tightened hparts.rules).isClear
  · cases hrule

/-- At-rules that are clear, or none. -/
def ClearAtRule (atRule : Option String) : Prop :=
  ∀ text, atRule = some text → text.toList.head? = some '@' ∧ IsClear text.toList

lemma clearAtRule_of_parse {written : String} {condition : Condition}
    (h : parse written = .ok condition) : ClearAtRule condition.atRule :=
  fun _ htext => ⟨head_of_parse h htext, isClear_of_parse h htext⟩

/-- Inside its at-rules a rule stands behind clear text. -/
lemma exists_front_of_wrapAtRules {atRule : Option String} (h : ClearAtRule atRule)
    (rule : String) : ∃ front closing, IsClear front ∧
      (wrapAtRules atRule rule).toList = front ++ (rule.toList ++ closing) := by
  cases atRule with
  | none => exact ⟨[], [], isClear_nil, by simp [wrapAtRules]⟩
  | some text =>
    have hrules := isClear_atRules (h text rfl).2
    unfold wrapAtRules
    dsimp only
    generalize atRules text = heads at hrules ⊢
    induction heads with
    | nil => exact ⟨[], [], isClear_nil, by simp⟩
    | cons head heads ih =>
      obtain ⟨front, closing, hfront, hrest⟩ := ih fun r hr => hrules r (List.mem_cons_of_mem _ hr)
      have hbrace : IsClear ['\x7b'] := ⟨by decide, by decide⟩
      refine ⟨head.toList ++ ['\x7b'] ++ front, closing ++ ['\x7d'],
        ((hrules head List.mem_cons_self).append hbrace).append hfront, ?_⟩
      rw [List.foldr_cons, braced]
      simp [hrest]

/-- Rules that begin with a colon and read the same inside their at-rules are the same as far as
both go. -/
lemma append_eq_of_wrapAtRules {atRule other : Option String} (h : ClearAtRule atRule)
    (hother : ClearAtRule other) {rule rule' : String} (hhead : rule.toList.head? = some ':')
    (hhead' : rule'.toList.head? = some ':')
    (heq : wrapAtRules atRule rule = wrapAtRules other rule') :
    ∃ closing closing', rule.toList ++ closing = rule'.toList ++ closing' := by
  obtain ⟨front, closing, hfront, htext⟩ := exists_front_of_wrapAtRules h rule
  obtain ⟨front', closing', hfront', htext'⟩ := exists_front_of_wrapAtRules hother rule'
  have hsplit := hfront.split (b := rule.toList ++ closing) (by simp [List.head?_append, hhead])
  have hsplit' := hfront'.split (b := rule'.toList ++ closing')
    (by simp [List.head?_append, hhead'])
  rw [← htext, heq, htext', hsplit'] at hsplit
  exact ⟨closing, closing', (Prod.mk.inj (Option.some.inj hsplit)).2.symm⟩

end AtomicCss.Proofs
