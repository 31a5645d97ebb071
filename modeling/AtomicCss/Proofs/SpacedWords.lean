import AtomicCss.Class.Expansion
import AtomicCss.Proofs.MarkStays

/-!
# Words with spaces between them

A word closes its parentheses and quotes, and has blanks only inside of these. A text of such words
with spaces between them is split into these words. What holds no space and occurs in the text
occurs in one of them.
-/

namespace AtomicCss.Proofs

open Text Expansion

/-- Whether a text closes the parentheses and the quotes that it opens and those that are open in
front of it, and no others. Where nothing is open, no barred character stands. -/
def closesFrom (barred : Char → Bool) (depth : ℕ) (quote : Option Char) : List Char → Bool
  | [] => depth == 0 && quote.isNone
  | c :: cs =>
    match quote with
    | some q => closesFrom barred depth (if c = q then none else some q) cs
    | none =>
      if c = '"' ∨ c = '\'' then closesFrom barred depth (some c) cs
      else if c = '(' then closesFrom barred (depth + 1) none cs
      else if c = ')' then depth != 0 && closesFrom barred (depth - 1) none cs
      else !(barred c && depth == 0) && closesFrom barred depth none cs

/-- One word: it is not empty, and has blanks only inside parentheses and quotes. -/
structure SingleWord (word : List Char) : Prop where
  ne_nil : word ≠ []
  closes : closesFrom isBlank 0 none word = true

instance (word : List Char) : Decidable (SingleWord word) :=
  decidable_of_iff (word ≠ [] ∧ closesFrom isBlank 0 none word = true)
    ⟨fun h => ⟨h.1, h.2⟩, fun h => ⟨h.1, h.2⟩⟩

/-- A text of words with spaces between them. -/
inductive Spaced : List (List Char) → List Char → Prop
  | last (word : List Char) : Spaced [word] word
  | cons (word : List Char) (more : ℕ) {words : List (List Char)} {text : List Char} :
    Spaced words text → Spaced (word :: words) (word ++ ' ' :: (List.replicate more ' ' ++ text))

section

variable {word text part current : List Char} {words : List (List Char)} {quote : Option Char}
  {depth : ℕ}

/-- Splitting takes a text as it stands that bars the separator. -/
lemma topLevelFrom_closes {barred : Char → Bool} {sep : Char} (hsep : barred sep = true)
    (h : closesFrom barred depth quote word = true) (current rest : List Char) :
    topLevelFrom sep depth quote current (word ++ rest) =
      topLevelFrom sep 0 none (current ++ word) rest := by
  induction word generalizing depth quote current with
  | nil =>
    obtain ⟨hdepth, hquote⟩ := Bool.and_eq_true_iff.1 h
    rw [List.nil_append, List.append_nil, beq_iff_eq.1 hdepth, Option.isNone_iff_eq_none.1 hquote]
  | cons c cs ih =>
    unfold closesFrom at h
    rw [List.cons_append]
    cases quote with
    | some q =>
      dsimp only at h
      rw [topLevelFrom, ih h, List.append_assoc, List.singleton_append]
    | none =>
      dsimp only at h
      rw [topLevelFrom]
      split at h
      · rename_i hquote
        rw [if_pos hquote, ih h, List.append_assoc, List.singleton_append]
      rename_i hquote
      rw [if_neg hquote]
      split at h
      · rename_i hopen
        rw [if_pos hopen, ih h, List.append_assoc, List.singleton_append]
      rename_i hopen
      rw [if_neg hopen]
      split at h
      · rename_i hclose
        obtain ⟨_, h⟩ := Bool.and_eq_true_iff.1 h
        rw [if_pos hclose, ih h, List.append_assoc, List.singleton_append]
      · rename_i hclose
        obtain ⟨hbarred, h⟩ := Bool.and_eq_true_iff.1 h
        have hother : ¬(c = sep ∧ depth = 0) := by
          rintro ⟨rfl, rfl⟩
          rw [hsep] at hbarred
          cases hbarred
        rw [if_neg hclose, if_neg hother, ih h, List.append_assoc, List.singleton_append]

lemma not_isBlank_of_quote {c : Char} (h : c = '"' ∨ c = '\'') : isBlank c = false := by
  rcases h with rfl | rfl <;> decide

/-- What is left behind the first character closes what is open there. -/
lemma closesFrom_cons {c : Char} {cs : List Char} (hquote : ∀ q ∈ quote, isBlank q = false)
    (h : closesFrom isBlank depth quote (c :: cs) = true) :
    ∃ depth' quote', (∀ q ∈ quote', isBlank q = false) ∧
      closesFrom isBlank depth' quote' cs = true ∧ (cs = [] → isBlank c = false) := by
  have hnone : ∀ q ∈ (none : Option Char), isBlank q = false := fun q hq => by cases hq
  have hend : ∀ {depth' quote'}, closesFrom isBlank depth' quote' [] = true →
      depth' = 0 ∧ quote' = none := by
    intro depth' quote' h
    simpa [closesFrom] using h
  unfold closesFrom at h
  cases quote with
  | some q =>
    dsimp only at h
    refine ⟨_, _, ?_, h, ?_⟩
    · split
      · exact hnone
      · exact hquote
    · rintro rfl
      obtain ⟨_, hclosed⟩ := hend h
      split at hclosed
      · rename_i heq
        exact hquote c (heq ▸ rfl)
      · cases hclosed
  | none =>
    dsimp only at h
    split at h
    · rename_i hc
      exact ⟨_, _, fun q hq => Option.some.inj hq ▸ not_isBlank_of_quote hc, h,
        fun _ => not_isBlank_of_quote hc⟩
    split at h
    · rename_i hc
      exact ⟨_, _, hnone, h, fun _ => hc ▸ rfl⟩
    split at h
    · rename_i hc
      exact ⟨_, _, hnone, (Bool.and_eq_true_iff.1 h).2, fun _ => hc ▸ rfl⟩
    · obtain ⟨hbarred, h⟩ := Bool.and_eq_true_iff.1 h
      refine ⟨_, _, hnone, h, ?_⟩
      rintro rfl
      obtain ⟨rfl, _⟩ := hend h
      simpa using hbarred

/-- A word ends in no blank: behind a blank something is still open. -/
lemma not_endsBlank_of_closes (hquote : ∀ q ∈ quote, isBlank q = false)
    (h : closesFrom isBlank depth quote word = true) : ¬EndsBlank word := by
  induction word generalizing depth quote with
  | nil =>
    rintro ⟨c, hc, _⟩
    cases hc
  | cons c cs ih =>
    obtain ⟨depth', quote', hquote', hcs, hlast⟩ := closesFrom_cons hquote h
    rcases eq_or_ne cs [] with rfl | hne
    · rintro ⟨d, hd, hblank⟩
      obtain rfl : c = d := Option.some.inj hd
      rw [hlast rfl] at hblank
      cases hblank
    · have happend : ¬EndsBlank ([c] ++ cs) := (endsBlank_append hne).not.2 (ih hquote' hcs)
      exact happend

lemma SingleWord.trimmed (h : SingleWord word) : Trimmed word where
  head := by
    intro c hc
    obtain ⟨cs, rfl⟩ := List.head?_eq_some_iff.1 hc
    have hcloses := h.closes
    unfold closesFrom at hcloses
    dsimp only at hcloses
    split at hcloses
    · rename_i hquote
      exact not_isBlank_of_quote hquote
    split at hcloses
    · rename_i hopen
      exact hopen ▸ rfl
    split at hcloses
    · cases hcloses
    · simpa using (Bool.and_eq_true_iff.1 hcloses).1
  last := not_endsBlank_of_closes (fun q hq => by cases hq) h.closes

lemma SingleWord.trim (h : SingleWord word) : trim word = word :=
  trim_of_trimmed h.trimmed

lemma topLevelFrom_spaces (more : ℕ) (text : List Char) :
    topLevelFrom ' ' 0 none [] (List.replicate more ' ' ++ text) =
      topLevelFrom ' ' 0 none [] text := by
  induction more with
  | zero => rfl
  | succ more ih => exact ih

/-- Words with spaces between them are found again. -/
lemma splitTopLevel_spaced (h : Spaced words text) (hwords : ∀ w ∈ words, SingleWord w) :
    splitTopLevel ' ' text = words := by
  unfold splitTopLevel
  induction h with
  | last word =>
    have hword := hwords word (List.mem_singleton_self _)
    have hscan := @topLevelFrom_closes word none 0 isBlank ' ' rfl hword.closes [] []
    rw [List.append_nil, List.nil_append] at hscan
    rw [hscan, topLevelFrom_nil 0 (by rw [hword.trim]; exact hword.ne_nil), hword.trim]
  | cons word more _ ih =>
    obtain ⟨hword, hrest⟩ := List.forall_mem_cons.1 hwords
    have hsplit : ∀ rest, topLevelFrom ' ' 0 none word (' ' :: rest) =
        word :: topLevelFrom ' ' 0 none [] rest := by
      intro rest
      have hstep : topLevelFrom ' ' 0 none word (' ' :: rest) =
          if (trim word).isEmpty then topLevelFrom ' ' 0 none [] rest
          else trim word :: topLevelFrom ' ' 0 none [] rest := rfl
      rw [hstep, hword.trim, if_neg (by simpa using hword.ne_nil)]
    rw [topLevelFrom_closes rfl hword.closes, List.nil_append, hsplit, topLevelFrom_spaces,
      ih hrest]

lemma spaced_joinWith (hne : words ≠ []) : Spaced words (joinWith ' ' words) := by
  unfold joinWith
  induction words with
  | nil => exact (hne rfl).elim
  | cons word rest ih =>
    cases rest with
    | nil =>
      rw [List.intercalate_singleton]
      exact .last word
    | cons second rest =>
      rw [List.intercalate_cons_cons, List.append_assoc]
      exact .cons word 0 (ih (List.cons_ne_nil _ _))

/-- What occurs around a character that it does not hold occurs on one side of it. -/
lemma infix_around {c : Char} {front back : List Char} (hc : c ∉ part)
    (h : part <:+: front ++ c :: back) : part <:+: front ∨ part <:+: back := by
  have hnil : ∀ {start : List Char}, start ⊆ part → start <+: c :: back → start = [] := by
    intro start hsub hprefix
    rcases List.prefix_cons_iff.1 hprefix with rfl | ⟨rest, rfl, _⟩
    · rfl
    · exact (hc (hsub List.mem_cons_self)).elim
  rcases List.infix_append_iff.1 h with hfront | hback | ⟨start, rest, rfl, hstart, hrest⟩
  · exact .inl hfront
  · rcases List.infix_cons_iff.1 hback with hprefix | hback
    · rw [hnil (List.Subset.refl _) hprefix]
      exact .inl (List.nil_infix)
    · exact .inr hback
  · obtain rfl := hnil (List.subset_append_right _ _) hrest
    rw [List.append_nil]
    exact .inl hstart.isInfix

/-- What holds no space and occurs in the text occurs in one of its words. -/
lemma Spaced.infix (h : Spaced words text) (hpart : ' ' ∉ part) (hoccurs : part <:+: text) :
    ∃ w ∈ words, part <:+: w := by
  induction h with
  | last word => exact ⟨word, List.mem_singleton_self _, hoccurs⟩
  | cons word more _ ih =>
    have hskip : ∀ (more : ℕ) {text : List Char}, part <:+: List.replicate more ' ' ++ text →
        part <:+: text := by
      intro more text hoccurs
      induction more with
      | zero => exact hoccurs
      | succ more ihmore =>
        have hspace : part <:+: [] ++ ' ' :: (List.replicate more ' ' ++ text) := hoccurs
        refine (infix_around hpart hspace).elim (fun hnil => ?_) ihmore
        rw [List.infix_nil.1 hnil]
        exact List.nil_infix
    rcases infix_around hpart hoccurs with hword | hrest
    · exact ⟨word, List.mem_cons_self, hword⟩
    · obtain ⟨w, hw, hin⟩ := ih (hskip more hrest)
      exact ⟨w, List.mem_cons_of_mem _ hw, hin⟩

lemma Spaced.ne_nil (h : Spaced words text) : words ≠ [] := by
  cases h <;> exact List.cons_ne_nil _ _

lemma Spaced.mem {c : Char} (h : Spaced words text) (hc : c ∈ text) :
    c = ' ' ∨ ∃ w ∈ words, c ∈ w := by
  by_cases hspace : c = ' '
  · exact .inl hspace
  · have hone : ' ' ∉ [c] := by simpa [eq_comm] using hspace
    obtain ⟨w, hw, hin⟩ := h.infix hone ((List.singleton_infix_iff _ _).2 hc)
    exact .inr ⟨w, hw, (List.singleton_infix_iff _ _).1 hin⟩

end

/-- Without a variable or a mark the whole value is split. -/
lemma expand?_unmarked {property value : String} {form : Form} {targets : List String}
    (hform : form? property = some form) (htargets : targets? property = some targets)
    (hvar : occursIn "var(".toList value.toList = false)
    (hmark : ¬Direction.important <:+ value.toList) :
    expand? property value =
      (values? form value.toList).map fun values => targets.zip (values.map String.ofList) := by
  have hbody : Expansion.important.isSuffixOf? value.toList = none :=
    isSuffixOf?_eq_none hmark
  unfold expand?
  simp only [hform, htargets, hbody, hvar, Option.bind_eq_bind, Option.bind_some,
    Bool.false_eq_true, if_false, List.append_nil]
  cases values? form value.toList <;> rfl

end AtomicCss.Proofs
