import AtomicCss.Proofs.Separation

/-!
# The mark at the end of a value

A value ends in an important mark if an exclamation mark, blanks and the word are its last
characters. An automaton reads the characters from the left. What is written for a value leads it to
the state that the value leads it to, or back to the start: so a value without a mark gets none.
-/

namespace AtomicCss.Proofs

open Token Value

/-- How much of a mark a text ends with, behind one more character. -/
def markStep (seen : Nat) (c : Char) : Nat :=
  if c = '!' then 1
  else if 0 < seen ∧ importantMark[seen]? = some c.toLower then seen + 1
  else if seen = 1 ∧ Text.isBlank c = true then 1
  else 0

def markSeen (seen : Nat) (text : List Char) : Nat :=
  text.foldl markStep seen

lemma markSeen_append (seen : Nat) (text more : List Char) :
    markSeen seen (text ++ more) = markSeen (markSeen seen text) more :=
  List.foldl_append

/-- The characters that are part of no mark. -/
def OffMark (c : Char) : Prop :=
  c.toLower ∉ importantMark ∧ Text.isBlank c = false

instance (c : Char) : Decidable (OffMark c) :=
  inferInstanceAs (Decidable (_ ∧ _))

lemma markStep_offMark {c : Char} (h : OffMark c) (seen : Nat) : markStep seen c = 0 := by
  have hletter : importantMark[seen]? ≠ some c.toLower := fun heq =>
    h.1 (List.mem_of_getElem? heq)
  have hmark : c ≠ '!' := by
    rintro rfl
    exact absurd h (by decide)
  unfold markStep
  rw [if_neg hmark, if_neg fun hseen => hletter hseen.2, if_neg (by simp [h.2])]

lemma markSeen_concat_offMark {c : Char} (h : OffMark c) (seen : Nat) (text : List Char) :
    markSeen seen (text ++ [c]) = 0 := by
  rw [markSeen_append]
  exact markStep_offMark h _

/-- Nothing has been seen of a mark, or as much as in the other text. -/
def AtMost (m n : Nat) : Prop :=
  m = 0 ∨ m = n

lemma AtMost.markStep {m n : Nat} (h : AtMost m n) (c : Char) :
    AtMost (markStep m c) (markStep n c) := by
  rcases h with rfl | rfl
  · by_cases hc : c = '!'
    · subst hc
      exact .inr rfl
    · left
      unfold Proofs.markStep
      rw [if_neg hc, if_neg (by simp), if_neg (by simp)]
  · exact .inr rfl

lemma AtMost.markSeen {m n : Nat} (h : AtMost m n) (text : List Char) :
    AtMost (markSeen m text) (markSeen n text) := by
  induction text generalizing m n with
  | nil => exact h
  | cons c cs ih => exact ih (h.markStep c)

/-- Blanks count only directly behind the exclamation mark. -/
lemma markStep_blank {c : Char} (h : Text.isBlank c = true) (seen : Nat) :
    markStep seen c = if seen = 1 then 1 else 0 := by
  have hletters : ∀ d ∈ importantMark, Text.isBlank d = false := by decide
  have hupper : c.isUpper = false := Bool.eq_false_iff.2 fun hupper =>
    not_mark_of_plain (plain_of_isUpper hupper) (.inl h)
  have hletter : ¬(0 < seen ∧ importantMark[seen]? = some c.toLower) := by
    rintro ⟨_, hc⟩
    rw [toLower_of_not_isUpper hupper] at hc
    rw [hletters c (List.mem_of_getElem? hc)] at h
    cases h
  have hmark : c ≠ '!' := by
    rintro rfl
    cases h
  unfold markStep
  rw [if_neg hmark, if_neg hletter]
  simp only [h, and_true]

lemma markStep_space_space (seen : Nat) :
    markStep (markStep seen ' ') ' ' = markStep seen ' ' := by
  rw [markStep_blank (c := ' ') rfl, markStep_blank (c := ' ') rfl]
  by_cases hseen : seen = 1
  · rw [if_pos hseen, if_pos rfl]
  · rw [if_neg hseen, if_neg (by decide)]

lemma markSeen_blanks {blanks : List Char} (h : ∀ c ∈ blanks, Text.isBlank c = true) {c : Char}
    (hc : Text.isBlank c = true) (seen : Nat) :
    markSeen seen (c :: blanks) = markStep seen ' ' := by
  have hspace : ∀ {d : Char}, Text.isBlank d = true → ∀ seen, markStep seen d = markStep seen ' ' :=
    fun hd seen => (markStep_blank hd seen).trans (markStep_blank (c := ' ') rfl seen).symm
  change markSeen (markStep seen c) blanks = _
  rw [hspace hc]
  induction blanks with
  | nil => rfl
  | cons d ds ih =>
    obtain ⟨hd, hds⟩ := List.forall_mem_cons.1 h
    change markSeen (markStep (markStep seen ' ') d) ds = _
    rw [hspace hd, markStep_space_space]
    exact ih hds

lemma markSeen_word {word : List Char} {seen : Nat} (hpos : 0 < seen) (hseen : seen ≤ 10)
    (h : Text.lower word = importantMark.drop seen) : markSeen seen word = 10 := by
  induction word generalizing seen with
  | nil =>
    have hend := List.drop_eq_nil_iff.1 h.symm
    exact Nat.le_antisymm hseen hend
  | cons c cs ih =>
    have hlt : seen < importantMark.length := by
      by_contra hge
      rw [List.drop_eq_nil_of_le (Nat.le_of_not_lt hge)] at h
      cases h
    rw [List.drop_eq_getElem_cons hlt] at h
    obtain ⟨hc, hcs⟩ := List.cons.inj h
    have hnext : markStep seen c = seen + 1 := by
      have hletters : ∀ i, ∀ hi : i < importantMark.length, 0 < i →
          '!'.toLower ≠ importantMark[i] := by decide
      have hne : c ≠ '!' := by
        rintro rfl
        exact hletters seen hlt hpos hc
      unfold markStep
      rw [if_neg hne, if_pos ⟨hpos, hc ▸ List.getElem?_eq_getElem hlt⟩]
    change markSeen (markStep seen c) cs = 10
    rw [hnext]
    exact ih (Nat.succ_pos seen) hlt hcs

/-- What a text that ends in part of a mark looks like. -/
lemma markSeen_shape {text : List Char} (h : 0 < markSeen 0 text) :
    ∃ front blanks word, text = front ++ '!' :: (blanks ++ word) ∧
      (∀ c ∈ blanks, Text.isBlank c = true) ∧
      Text.lower word = (importantMark.take (markSeen 0 text)).tail := by
  induction text using List.reverseRecOn with
  | nil => cases h
  | append_singleton text c ih =>
    rw [markSeen_append] at h ⊢
    change 0 < markStep (markSeen 0 text) c at h
    change ∃ front blanks word, _ ∧ _ ∧ _ = (importantMark.take (markStep (markSeen 0 text) c)).tail
    generalize markSeen 0 text = seen at h ih ⊢
    unfold markStep at h ⊢
    split
    · rename_i hmark
      exact ⟨text, [], [], by rw [hmark]; rfl, List.forall_mem_nil _, rfl⟩
    · rename_i hmark
      rw [if_neg hmark] at h
      split
      · rename_i hletter
        obtain ⟨front, blanks, word, rfl, hblanks, hword⟩ := ih hletter.1
        refine ⟨front, blanks, word ++ [c], by simp, hblanks, ?_⟩
        have hne : importantMark.take seen ≠ [] := by
          simpa [importantMark] using Nat.ne_of_gt hletter.1
        rw [List.take_add_one, hletter.2, List.tail_append_of_ne_nil hne, ← hword]
        exact List.map_append
      · rename_i hletter
        rw [if_neg hletter] at h
        split
        · rename_i hblank
          obtain ⟨front, blanks, word, rfl, hblanks, hword⟩ := ih (by omega)
          rw [hblank.1] at hword
          obtain rfl : word = [] := List.map_eq_nil_iff.1 hword
          refine ⟨front, blanks ++ [c], [], by simp, ?_, rfl⟩
          exact List.forall_mem_append.2 ⟨hblanks, List.forall_mem_singleton.2 hblank.2⟩
        · rename_i hblank
          rw [if_neg hblank] at h
          cases h

/-- A mark, with blanks behind its exclamation mark, is split off. -/
lemma splitImportant_mark (front : List Char) {blanks word : List Char}
    (hblanks : ∀ c ∈ blanks, Text.isBlank c = true)
    (hword : Text.lower word = importantMark.tail) :
    splitImportant (front ++ '!' :: (blanks ++ word)) = (Text.trimEnd front, true) := by
  have hlength : word.length = 9 := by
    rw [← List.length_map Char.toLower]
    exact congrArg List.length hword
  have hassoc : front ++ '!' :: (blanks ++ word) = (front ++ '!' :: blanks) ++ word := by simp
  have hcut : (front ++ '!' :: (blanks ++ word)).length - 9 = (front ++ '!' :: blanks).length := by
    rw [hassoc, List.length_append, hlength, Nat.add_sub_cancel]
  have hrev : (Text.trimEnd (front ++ '!' :: blanks)).reverse = '!' :: front.reverse := by
    unfold Text.trimEnd
    rw [List.reverse_reverse, List.reverse_append, List.reverse_cons, List.append_assoc,
      List.dropWhile_append_of_pos fun c hc => hblanks c (List.mem_reverse.1 hc)]
    rfl
  unfold splitImportant
  dsimp only
  rw [hcut, hassoc, List.drop_left, List.take_left, if_pos hword, hrev]
  change (Text.trimEnd front.reverse.reverse, true) = _
  rw [List.reverse_reverse]

/-- A value with a mark, or without one. -/
lemma splitImportant_cases (value : List Char) :
    splitImportant value = (value, false) ∨
      ∃ front blanks word, value = front ++ '!' :: (blanks ++ word) ∧
        (∀ c ∈ blanks, Text.isBlank c = true) ∧ Text.lower word = importantMark.tail := by
  unfold splitImportant
  dsimp only
  generalize value.length - 9 = cut
  split
  · rename_i hword
    split
    · rename_i body hbody
      refine .inr ⟨body.reverse, (value.take cut).rtakeWhile Text.isBlank, value.drop cut, ?_,
        fun c hc => List.mem_rtakeWhile_imp hc, hword⟩
      have hfront : Text.trimEnd (value.take cut) = body.reverse ++ ['!'] := by
        rw [← List.reverse_reverse (Text.trimEnd (value.take cut)), hbody, List.reverse_cons]
      have happend : Text.trimEnd (value.take cut) ++ (value.take cut).rtakeWhile Text.isBlank =
          value.take cut := List.rdropWhile_append_rtakeWhile
      rw [hfront] at happend
      have hvalue := List.take_append_drop cut value
      generalize (value.take cut).rtakeWhile Text.isBlank = blanks at happend ⊢
      refine hvalue.symm.trans ?_
      rw [← happend]
      simp
    · exact .inl rfl
  · exact .inl rfl

/-- The automaton finds the values with a mark. -/
lemma splitImportant_eq_self {value : List Char} (h : markSeen 0 value ≠ 10) :
    splitImportant value = (value, false) := by
  rcases splitImportant_cases value with hself | ⟨front, blanks, word, rfl, hblanks, hword⟩
  · exact hself
  · refine (h ?_).elim
    have hbehind : markSeen 1 blanks = 1 := by
      cases blanks with
      | nil => rfl
      | cons c cs =>
        obtain ⟨hc, hcs⟩ := List.forall_mem_cons.1 hblanks
        exact markSeen_blanks hcs hc 1
    rw [markSeen_append]
    change markSeen 1 (blanks ++ word) = 10
    rw [markSeen_append, hbehind]
    exact markSeen_word Nat.one_pos (by decide) hword

lemma markSeen_ne_of_splitImportant {value : List Char} (h : (splitImportant value).2 = false) :
    markSeen 0 value ≠ 10 := by
  intro hseen
  have hpos : 0 < markSeen 0 value := hseen.symm ▸ Nat.succ_pos 9
  obtain ⟨front, blanks, word, rfl, hblanks, hword⟩ := markSeen_shape hpos
  rw [hseen] at hword
  rw [splitImportant_mark front hblanks hword] at h
  cases h

end AtomicCss.Proofs
