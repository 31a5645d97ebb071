import AtomicCss.Proofs.ConditionParts

/-!
# At-rules are tightened one by one

Tightening leaves single spaces, and none just inside parentheses, so a tight text is tight as it
stands. An at-rule begins with an `@`, which looks at nothing in front of it. So at-rules that stand
one behind the other are tightened each on its own.
-/

namespace AtomicCss.Proofs

open Condition Text

/-- A character that is no blank behind what is written, with the space that is due. -/
def spaced (written : List Char) (pending : Bool) (c : Char) : List Char :=
  if pending && written.getLast? != some '(' && c != ')' then written ++ [' ', c]
  else written ++ [c]

/-- A text that tightening leaves as it stands, with no blank at its end. -/
structure Tight (text : List Char) : Prop where
  fixed : writeTight [] false text = text
  ends : ¬EndsBlank text

section

variable {a b written : List Char} {c : Char}

lemma writeTight_blank (hc : isBlank c = true) (written : List Char) (pending : Bool)
    (cs : List Char) : writeTight written pending (c :: cs) = writeTight written true cs := by
  rw [writeTight, if_pos hc]

lemma writeTight_ink (hc : isBlank c = false) (written : List Char) (pending : Bool)
    (cs : List Char) :
    writeTight written pending (c :: cs) = writeTight (spaced written pending c) false cs := by
  rw [writeTight, if_neg (by simp [hc]), spaced]
  split <;> rfl

lemma spaced_ne_nil (written : List Char) (pending : Bool) (c : Char) :
    spaced written pending c ≠ [] := by
  unfold spaced
  split <;> simp

lemma spaced_prefix (front : List Char) (hne : written ≠ []) (pending : Bool) (c : Char) :
    spaced (front ++ written) pending c = front ++ spaced written pending c := by
  unfold spaced
  rw [List.getLast?_append_of_ne_nil front hne]
  split <;> rw [List.append_assoc]

/-- What is written in front does not matter behind a character that is known. -/
lemma writeTight_prefix (front cs : List Char) : ∀ {written : List Char} {pending : Bool},
    written ≠ [] →
    writeTight (front ++ written) pending cs = front ++ writeTight written pending cs := by
  induction cs with
  | nil => exact fun _ => rfl
  | cons c cs ih =>
    intro written pending hne
    cases hc : isBlank c with
    | true => rw [writeTight_blank hc, writeTight_blank hc, ih hne]
    | false =>
      rw [writeTight_ink hc, writeTight_ink hc, spaced_prefix front hne,
        ih (spaced_ne_nil _ _ _)]

/-- No space is pending behind a text that does not end in a blank. -/
lemma writeTight_append (hne : a ≠ []) (hend : ¬EndsBlank a) (b : List Char) :
    ∀ (written : List Char) (pending : Bool),
      writeTight written pending (a ++ b) = writeTight (writeTight written pending a) false b := by
  induction a with
  | nil => exact (hne rfl).elim
  | cons c cs ih =>
    intro written pending
    cases cs with
    | nil =>
      have hc : isBlank c = false := by
        by_contra hblank
        exact hend ⟨c, rfl, by simpa using hblank⟩
      rw [List.cons_append, writeTight_ink hc, writeTight_ink hc]
      rfl
    | cons d ds =>
      have hrest : ¬EndsBlank (d :: ds) := fun ⟨e, he, hblank⟩ =>
        hend ⟨e, List.getLast?_cons_cons.trans he, hblank⟩
      rw [List.cons_append]
      cases hc : isBlank c with
      | true => rw [writeTight_blank hc, writeTight_blank hc, ih (List.cons_ne_nil d ds) hrest]
      | false => rw [writeTight_ink hc, writeTight_ink hc, ih (List.cons_ne_nil d ds) hrest]

lemma tight_nil : Tight [] :=
  ⟨rfl, fun ⟨_, hc, _⟩ => by cases hc⟩

/-- A tight text goes on with what tightening writes behind it. -/
lemma Tight.append (h : Tight a) (b : List Char) :
    writeTight [] false (a ++ b) = writeTight a false b := by
  by_cases hne : a = []
  · rw [hne, List.nil_append]
  · rw [writeTight_append hne h.ends, h.fixed]

lemma Tight.spaced (h : Tight written) (pending : Bool) (hc : isBlank c = false) :
    Tight (spaced written pending c) := by
  have hends : ∀ front : List Char, ¬EndsBlank (front ++ [c]) := by
    intro front
    rw [endsBlank_concat, hc]
    exact Bool.false_ne_true
  have hblank : isBlank ' ' = true := by decide
  unfold Proofs.spaced
  split
  · rename_i hspace
    refine ⟨?_, by simpa using hends (written ++ [' '])⟩
    -- the space is due again when it is read
    have hdue : (true && written.getLast? != some '(' && c != ')') = true := by
      revert hspace
      cases pending <;> simp
    rw [h.append, writeTight_blank hblank, writeTight_ink hc, Proofs.spaced, if_pos hdue]
    rfl
  · refine ⟨?_, hends written⟩
    rw [h.append, writeTight_ink hc, Proofs.spaced, if_neg (by simp)]
    rfl

lemma tight_writeTight (cs : List Char) : ∀ {written : List Char} {pending : Bool},
    Tight written → Tight (writeTight written pending cs) := by
  induction cs with
  | nil => exact id
  | cons c cs ih =>
    intro written pending h
    cases hc : isBlank c with
    | true =>
      rw [writeTight_blank hc]
      exact ih h
    | false =>
      rw [writeTight_ink hc]
      exact ih (h.spaced pending hc)

lemma tight_tightened (cs : List Char) : Tight (tightened cs) :=
  tight_writeTight _ tight_nil

/-- An at-rule is tightened for itself behind tight at-rules. -/
lemma tightened_append (ha : a = [] ∨ a.head? = some '@') (hb : b.head? = some '@') :
    tightened (tightened a ++ b) = tightened a ++ tightened b := by
  have hat : isBlank '@' = false := by decide
  obtain ⟨more, hmore⟩ := List.head?_eq_some_iff.1 (head_trimEnd hat hb)
  have hown : trim b = '@' :: more := by rw [trim, trimStart_of_head hat hb, hmore]
  have htrim : trim (tightened a ++ b) = tightened a ++ '@' :: more := by
    have hstart : (tightened a ++ b).head? = some '@' := by
      rcases ha with rfl | hhead
      · exact hb
      · rw [List.head?_append, head_tightened hhead, Option.some_or]
    rw [trim, trimStart_of_head hat hstart, trimEnd_append_of_ne_nil (by simp [hmore]), hmore]
  -- nothing is pending in front of the `@`
  have hopen : ∀ front : List Char, spaced front false '@' = front ++ ['@'] := fun _ =>
    if_neg (by simp)
  rw [tightened, htrim, (tight_tightened a).append, writeTight_ink hat, hopen,
    writeTight_prefix _ _ (List.cons_ne_nil _ _)]
  rw [tightened.eq_def b, hown, writeTight_ink hat, hopen, List.nil_append]

end

end AtomicCss.Proofs
