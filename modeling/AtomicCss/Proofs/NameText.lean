import AtomicCss.Proofs.NormalText

/-!
# Names in text

A name goes on over name characters, and a backslash takes the next character with it. So a name is
read as a whole from any text behind which nothing goes on, and its dashed spelling is read the same
way. Dashes are put in once: a dashed spelling has neither capitals nor underscores.
-/

namespace AtomicCss.Proofs

open Token

/-- How a name is read in front of `rest`. A backslash stands alone at the end of a text only. -/
inductive NameRun (rest : List Char) : List Char → Prop
  | nil : (∀ c ∈ rest.head?, isNameChar c = false ∧ c ≠ '\\') → NameRun rest []
  | char {c : Char} {cs : List Char} : isNameChar c = true → NameRun rest cs → NameRun rest (c :: cs)
  | escape (c : Char) {cs : List Char} : NameRun rest cs → NameRun rest ('\\' :: c :: cs)
  | stray : rest = [] → NameRun rest ['\\']

lemma nameSpan_char {c : Char} (h : isNameChar c = true) (cs : List Char) :
    nameSpan (c :: cs) = (c :: (nameSpan cs).1, (nameSpan cs).2) := by
  have hne : c ≠ '\\' := by
    rintro rfl
    exact absurd h (by decide)
  conv_lhs => unfold nameSpan
  split <;> simp_all

lemma nameSpan_of_head {rest : List Char}
    (h : ∀ c ∈ rest.head?, isNameChar c = false ∧ c ≠ '\\') : nameSpan rest = ([], rest) := by
  cases rest with
  | nil => rfl
  | cons c cs =>
    obtain ⟨hchar, hne⟩ := h c rfl
    unfold nameSpan
    split <;> simp_all

lemma nameSpan_of_nameRun {rest name : List Char} (h : NameRun rest name) :
    nameSpan (name ++ rest) = (name, rest) := by
  induction h with
  | nil hhead => exact nameSpan_of_head hhead
  | char hc _ ih => rw [List.cons_append, nameSpan_char hc, ih]
  | escape c _ ih => rw [List.cons_append, List.cons_append, nameSpan, ih]
  | stray hrest =>
    rw [hrest]
    rfl

lemma nameRun_nameSpan (cs : List Char) : NameRun (nameSpan cs).2 (nameSpan cs).1 := by
  fun_induction nameSpan cs with
  | case1 => exact .nil fun _ h => by cases h
  | case2 => exact .stray rfl
  | case3 c cs ih => exact .escape c ih
  | case4 c cs _ _ hc ih => exact .char hc ih
  | case5 c cs hstray hescape hc =>
    refine .nil fun d hd => ?_
    obtain rfl : c = d := by simpa using hd
    refine ⟨Bool.eq_false_iff.2 hc, ?_⟩
    rintro rfl
    cases cs with
    | nil => exact hstray rfl rfl
    | cons d ds => exact hescape d ds rfl rfl

lemma NameRun.head {rest name : List Char} (h : NameRun rest name) :
    ∀ c ∈ rest.head?, isNameChar c = false ∧ c ≠ '\\' := by
  induction h with
  | nil hhead => exact hhead
  | char _ _ ih => exact ih
  | escape _ _ ih => exact ih
  | stray hrest => simp [hrest]

/-- A name without escapes. -/
lemma nameRun_of_chars {rest name : List Char} (h : ∀ c ∈ name, isNameChar c = true)
    (hend : ∀ c ∈ rest.head?, isNameChar c = false ∧ c ≠ '\\') : NameRun rest name := by
  induction name with
  | nil => exact .nil hend
  | cons c cs ih =>
    obtain ⟨hc, hcs⟩ := List.forall_mem_cons.1 h
    exact .char hc (ih hcs)

/-- The text behind a name may be another one that does not go on with the name. -/
lemma NameRun.behind {rest rest' name : List Char} (h : NameRun rest name)
    (hend : rest = [] → rest' = [])
    (hhead : ∀ c ∈ rest'.head?, isNameChar c = false ∧ c ≠ '\\') : NameRun rest' name := by
  induction h with
  | nil _ => exact .nil hhead
  | char hc _ ih => exact .char hc ih
  | escape c _ ih => exact .escape c ih
  | stray hrest => exact .stray (hend hrest)

lemma isNameChar_toLower {c : Char} (h : c.isUpper = true) : isNameChar c.toLower = true :=
  forall_toLower (P := fun c => isNameChar c = true) (by decide) h

lemma NameRun.dashes {rest name : List Char} (h : NameRun rest name) (first : Bool) :
    NameRun rest (Property.dashes first name) := by
  induction h generalizing first with
  | nil hhead => exact .nil hhead
  | @char c cs hc _ ih =>
    unfold Property.dashes
    split
    · exact .char rfl (ih false)
    · split
      · rename_i hupper
        split
        · exact .char (isNameChar_toLower hupper) (ih false)
        · exact .char rfl (.char (isNameChar_toLower hupper) (ih false))
      · exact .char hc (ih false)
  | @escape c cs _ ih =>
    have hbackslash : Property.dashes first ('\\' :: c :: cs) =
        '\\' :: Property.dashes false (c :: cs) := rfl
    rw [hbackslash, Property.dashes]
    split
    · exact .escape '-' (ih false)
    · split
      · rename_i hupper
        rw [if_neg Bool.false_ne_true]
        exact .escape '-' (.char (isNameChar_toLower hupper) (ih false))
      · exact .escape c (ih false)
  | stray hrest => exact .stray hrest

lemma NameRun.dashCaseText {rest name : List Char} (h : NameRun rest name) :
    NameRun rest (Property.dashCaseText name) := by
  unfold Property.dashCaseText
  split
  · exact h
  · dsimp only
    split
    · exact .char rfl (h.dashes true)
    · exact h.dashes true

lemma dashes_ne_nil {first : Bool} {name : List Char} (h : name ≠ []) :
    Property.dashes first name ≠ [] := by
  cases name with
  | nil => exact (h rfl).elim
  | cons c cs =>
    unfold Property.dashes
    repeat' split
    all_goals exact List.cons_ne_nil _ _

lemma dashCaseText_ne_nil {name : List Char} (h : name ≠ []) : Property.dashCaseText name ≠ [] := by
  unfold Property.dashCaseText
  split
  · exact h
  · dsimp only
    split
    · exact List.cons_ne_nil _ _
    · exact dashes_ne_nil h

/-- Dashing leaves the character alone. -/
def IsDashed (c : Char) : Prop :=
  c ≠ '_' ∧ c.isUpper = false

instance (c : Char) : Decidable (IsDashed c) :=
  inferInstanceAs (Decidable (_ ∧ _))

lemma isDashed_toLower {c : Char} (h : c.isUpper = true) : IsDashed c.toLower :=
  forall_toLower (P := IsDashed) (by decide) h

lemma isDashed_dashes (first : Bool) (name : List Char) :
    ∀ c ∈ Property.dashes first name, IsDashed c := by
  have hdash : IsDashed '-' := ⟨by decide, rfl⟩
  induction name generalizing first with
  | nil => nofun
  | cons c cs ih =>
    unfold Property.dashes
    split
    · exact List.forall_mem_cons.2 ⟨hdash, ih false⟩
    · rename_i hline
      split
      · rename_i hupper
        have hlower := List.forall_mem_cons.2 ⟨isDashed_toLower hupper, ih false⟩
        split
        · exact hlower
        · exact List.forall_mem_cons.2 ⟨hdash, hlower⟩
      · rename_i hupper
        exact List.forall_mem_cons.2 ⟨⟨hline, Bool.eq_false_iff.2 hupper⟩, ih false⟩

lemma dashes_of_isDashed {first : Bool} {name : List Char} (h : ∀ c ∈ name, IsDashed c) :
    Property.dashes first name = name := by
  induction name generalizing first with
  | nil => rfl
  | cons c cs ih =>
    obtain ⟨hc, hcs⟩ := List.forall_mem_cons.1 h
    rw [Property.dashes, if_neg hc.1, if_neg (by simp [hc.2]), ih hcs]

lemma dashCaseText_of_isDashed {name : List Char} (h : ∀ c ∈ name, IsDashed c) :
    Property.dashCaseText name = name := by
  have hcapital : (name.head?.map Char.isUpper).getD false = false := by
    cases name with
    | nil => rfl
    | cons c cs => exact (h c List.mem_cons_self).2
  unfold Property.dashCaseText
  split
  · rfl
  · dsimp only
    rw [dashes_of_isDashed h, hcapital]
    rfl

/-- A dashed spelling has nothing more to dash. -/
lemma dashCaseText_idem (name : List Char) :
    Property.dashCaseText (Property.dashCaseText name) = Property.dashCaseText name := by
  by_cases hcustom : Property.isCustomText name = true
  · have hsame : Property.dashCaseText name = name := by
      rw [Property.dashCaseText, if_pos hcustom]
    rw [hsame, hsame]
  · apply dashCaseText_of_isDashed
    rw [Property.dashCaseText, if_neg hcustom]
    dsimp only
    split
    · exact List.forall_mem_cons.2 ⟨⟨by decide, rfl⟩, isDashed_dashes true name⟩
    · exact isDashed_dashes true name

end AtomicCss.Proofs
