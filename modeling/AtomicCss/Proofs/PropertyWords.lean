import AtomicCss.Proofs.NameText
import AtomicCss.Class.Declaration

/-!
# Property names in words

A property name of several words may be written in camel case, with underscores or with dashes.
Dashing goes word by word: it leaves the letters of a word alone and puts a dash in front of every
word but the first, whatever marks its beginning. So all three spellings become the dashed one, and
a declaration may change its spelling anywhere among others.
-/

namespace AtomicCss.Proofs

open Property Declaration Text

/-- A word of a property name: a small letter from a to z, and behind it characters that dashing
leaves alone, such as small letters and digits. -/
structure Word where
  first : Char
  rest : List Char
  small : first.isLower = true
  stays : ∀ c ∈ rest, IsDashed c

namespace Word

def text (word : Word) : List Char :=
  word.first :: word.rest

def capitalized (word : Word) : List Char :=
  word.first.toUpper :: word.rest

end Word

inductive SpellingStyle
  | camel
  | underscored
  | dashed

/-- Words as one name. In camel case every word but the first has a capital. -/
def spellName : SpellingStyle → List Word → String
  | .camel, [] => ""
  | .camel, word :: words => String.ofList (word.text ++ words.flatMap Word.capitalized)
  | .underscored, words => String.ofList (joinWith '_' (words.map Word.text))
  | .dashed, words => String.ofList (joinWith '-' (words.map Word.text))

section

variable {c : Char} {a : List Char} {word : Word}

/-- What holds of all letters holds of a small one. -/
lemma forall_isLower {P : Char → Prop} (h : ∀ n < 26, P (Char.ofNat (97 + n)))
    (hc : c.isLower = true) : P c := by
  have hrange := toNat_of_isLower hc
  have hletter := h (c.toNat - 97) (by omega)
  rwa [Nat.add_sub_cancel' hrange.1, Char.ofNat_toNat] at hletter

lemma isDashed_of_isLower (h : c.isLower = true) : IsDashed c :=
  forall_isLower (P := IsDashed) (by decide) h

lemma toUpper_of_isLower (h : c.isLower = true) :
    c.toUpper.isUpper = true ∧ c.toUpper ≠ '_' ∧ c.toUpper.toLower = c :=
  forall_isLower (P := fun c => c.toUpper.isUpper = true ∧ c.toUpper ≠ '_' ∧ c.toUpper.toLower = c)
    (by decide) h

lemma Word.isDashed (word : Word) : ∀ c ∈ word.text, IsDashed c :=
  List.forall_mem_cons.2 ⟨isDashed_of_isLower word.small, word.stays⟩

lemma dashes_append (h : ∀ c ∈ a, IsDashed c) (hne : a ≠ []) (first : Bool) (b : List Char) :
    dashes first (a ++ b) = a ++ dashes false b := by
  induction a generalizing first with
  | nil => exact (hne rfl).elim
  | cons c cs ih =>
    obtain ⟨hc, hcs⟩ := List.forall_mem_cons.1 h
    rw [List.cons_append, dashes, if_neg hc.1, if_neg (by simp [hc.2])]
    by_cases hnil : cs = []
    · rw [hnil]
      rfl
    · rw [ih hcs hnil, List.cons_append]

/-- A mark in front of a word becomes a dash. -/
lemma dashes_marked {mark : Char} (hmark : mark = '_' ∨ mark = '-') (word : Word) (b : List Char) :
    dashes false (mark :: word.text ++ b) = '-' :: word.text ++ dashes false b := by
  have hdash : dashes false (mark :: word.text ++ b) = '-' :: dashes false (word.text ++ b) := by
    rcases hmark with rfl | rfl <;> rfl
  rw [hdash, dashes_append word.isDashed (List.cons_ne_nil _ _), List.cons_append]

/-- The capital of a word becomes a dash and its small letter. -/
lemma dashes_capitalized (word : Word) (b : List Char) :
    dashes false (word.capitalized ++ b) = '-' :: word.text ++ dashes false b := by
  obtain ⟨hupper, hline, hlower⟩ := toUpper_of_isLower word.small
  rw [Word.capitalized, List.cons_append, dashes, if_neg hline, if_pos hupper,
    if_neg Bool.false_ne_true, hlower, Word.text]
  by_cases hnil : word.rest = []
  · rw [hnil]
    rfl
  · rw [dashes_append word.stays hnil, List.cons_append, List.cons_append]

/-- A name that begins with a word is dashed as it stands. -/
lemma dashCaseText_word (word : Word) (b : List Char) :
    dashCaseText (word.text ++ b) = word.text ++ dashes false b := by
  have hcustom : isCustomText (word.text ++ b) = false := by
    have hdash : word.first ≠ '-' := forall_isLower (P := (· ≠ '-')) (by decide) word.small
    change ('-' == word.first && _) = false
    rw [beq_false_of_ne hdash.symm, Bool.false_and]
  have hcapital : ((word.text ++ b).head?.map Char.isUpper).getD false = false :=
    (isDashed_of_isLower word.small).2
  rw [dashCaseText, hcustom, hcapital, if_neg Bool.false_ne_true,
    dashes_append word.isDashed (List.cons_ne_nil _ _)]
  rfl

/-- Whatever marks the beginning of a word, a dash stands there in the dashed name. -/
lemma dashCaseText_words {behind : Word → List Char}
    (hbehind : ∀ word b, dashes false (behind word ++ b) = '-' :: word.text ++ dashes false b)
    (word : Word) (words : List Word) :
    dashCaseText (word.text ++ words.flatMap behind) =
      word.text ++ words.flatMap fun word => '-' :: word.text := by
  rw [dashCaseText_word]
  congr 1
  induction words with
  | nil => rfl
  | cons next words ih => rw [List.flatMap_cons, hbehind, ih, List.flatMap_cons]

lemma joinWith_cons (sep : Char) (part : List Char) (parts : List (List Char)) :
    joinWith sep (part :: parts) = part ++ parts.flatMap (sep :: ·) := by
  unfold joinWith
  induction parts generalizing part with
  | nil => simp
  | cons next parts ih => rw [List.intercalate_cons_cons, ih, List.flatMap_cons]; simp

/-- The words of a name, with whatever marks the beginning of each word but the first. -/
lemma spellName_cons (word : Word) (words : List Word) (style : SpellingStyle) :
    ∃ behind : Word → List Char,
      (spellName style (word :: words)).toList = word.text ++ words.flatMap behind ∧
      ∀ word b, dashes false (behind word ++ b) = '-' :: word.text ++ dashes false b := by
  cases style with
  | camel => exact ⟨Word.capitalized, by rw [spellName, String.toList_ofList], dashes_capitalized⟩
  | underscored =>
    refine ⟨fun word => '_' :: word.text, ?_, dashes_marked (.inl rfl)⟩
    rw [spellName, String.toList_ofList, List.map_cons, joinWith_cons, List.flatMap_map]
  | dashed =>
    refine ⟨fun word => '-' :: word.text, ?_, dashes_marked (.inr rfl)⟩
    rw [spellName, String.toList_ofList, List.map_cons, joinWith_cons, List.flatMap_map]

/-- Every spelling of some words is dashed to the dashed one. -/
lemma dashCase_spellName (style : SpellingStyle) (words : List Word) :
    dashCase (spellName style words) = spellName .dashed words := by
  cases words with
  | nil => cases style <;> rfl
  | cons word words =>
    obtain ⟨behind, htext, hbehind⟩ := spellName_cons word words style
    rw [dashCase, htext, dashCaseText_words hbehind, spellName, List.map_cons, joinWith_cons,
      List.flatMap_map]

/-- No spelling of words looks like a condition. -/
lemma spellName_plain (style : SpellingStyle) (words : List Word) :
    beginsCondition (spellName style words) = false ∧
      (ConditionKind.ofKey? (spellName style words) == some .pseudoElement) = false := by
  cases words with
  | nil => cases style <;> exact ⟨rfl, rfl⟩
  | cons word words =>
    obtain ⟨behind, htext, _⟩ := spellName_cons word words style
    have hfirst : word.first ≠ ':' ∧ word.first ≠ '@' :=
      forall_isLower (P := fun c => c ≠ ':' ∧ c ≠ '@') (by decide) word.small
    rw [Word.text, List.cons_append] at htext
    constructor
    · simp [beginsCondition, htext, hfirst]
    · unfold ConditionKind.ofKey?
      split
      · rfl
      · rw [htext]
        split <;> simp_all

end

/-- A declaration gives the same slots in every spelling of its property. -/
lemma slots_spellName (setting : Setting) (style : SpellingStyle) (words : List Word)
    (value : Value) :
    slots setting (spellName style words, value) =
      slots setting (spellName .dashed words, value) := by
  unfold slots
  dsimp only
  rw [(spellName_plain style words).2, (spellName_plain .dashed words).2, dashCase_spellName,
    dashCase_spellName, if_neg Bool.false_ne_true, if_neg Bool.false_ne_true]

lemma checkPolicy_spellName (setting : Setting) (style : SpellingStyle) (words : List Word)
    (value : Value) (front back : Declarations) :
    checkPolicy setting (front ++ (spellName style words, value) :: back) =
      checkPolicy setting (front ++ (spellName .dashed words, value) :: back) := by
  unfold checkPolicy
  simp only [List.map_append, List.map_cons, List.filter_append, List.filter_cons,
    (spellName_plain _ _).1, Bool.not_false, if_true, dashCase_spellName]

/-- Dashing a dashed name changes nothing, all spellings of some words are dashed to one name, and
so a class is compiled to the same entries, with the same warnings and errors, in whatever spelling
one of its declarations names its property. -/
theorem dashCase_spellings :
    (∀ name, dashCase (dashCase name) = dashCase name) ∧
      (∀ style words, dashCase (spellName style words) = spellName .dashed words) ∧
      ∀ setting style words value front back,
        classEntries setting (front ++ (spellName style words, value) :: back) =
          classEntries setting (front ++ (spellName .dashed words, value) :: back) := by
  refine ⟨fun name => ?_, dashCase_spellName, fun setting style words value front back => ?_⟩
  · rw [dashCase, dashCase, String.toList_ofList, dashCaseText_idem]
  · unfold classEntries
    rw [checkPolicy_spellName]
    simp only [List.mapM_append, List.mapM_cons, slots_spellName setting style]

end AtomicCss.Proofs
