import AtomicCss.Text.TopLevel
import Mathlib.Data.List.Basic
import Mathlib.Tactic.Common

/-!
# Marks in the bytes of a text

The bytes of a parenthesis or a colon stand in UTF-8 for these characters only, never for a part of
another one. So a scan of the bytes that counts parentheses has the same ones open behind a front of
the text as a scan of its characters, and what it finds begins at a character.
-/

namespace AtomicCss.Proofs

open Text

/-- The bytes of a text in UTF-8. -/
def bytesOf (text : String) : List UInt8 :=
  text.toByteArray.data.toList

/-- How many parentheses are open behind a byte. Closing one that was not open counts for
nothing. -/
def depthAfterByte (depth : ℕ) (b : UInt8) : ℕ :=
  if b = '('.toUInt8 then depth + 1 else if b = ')'.toUInt8 then depth - 1 else depth

/-- How many parentheses are open behind so many bytes of a text. -/
def openBehind (text : String) (offset : ℕ) : ℕ :=
  ((bytesOf text).take offset).foldl depthAfterByte 0

/-- A colon outside parentheses, at a byte of a text. -/
structure ColonAt (text : String) (offset : ℕ) : Prop where
  colon : (bytesOf text)[offset]? = some ':'.toUInt8
  outside : openBehind text offset = 0

/-- Two colons outside parentheses. -/
structure ColonsAt (text : String) (offset : ℕ) : Prop extends ColonAt text offset where
  second : (bytesOf text)[offset + 1]? = some ':'.toUInt8

/-- The bytes of a character. -/
abbrev encoded (c : Char) : List UInt8 :=
  String.utf8EncodeChar c

section

variable {c mark : Char} {cs front back : List Char} {text : String} {offset : ℕ}

lemma encoded_cases (c : Char) :
    c.toNat < 128 ∧ encoded c = [c.toUInt8] ∨
      128 ≤ c.toNat ∧ ∀ b ∈ encoded c, 128 ≤ b.toNat := by
  have hval : c.val.toNat = c.toNat := rfl
  unfold encoded String.utf8EncodeChar
  rw [hval]
  dsimp only
  by_cases hascii : c.toNat ≤ 0x7f
  · left
    rw [if_pos hascii]
    exact ⟨by omega, rfl⟩
  right
  rw [if_neg hascii]
  refine ⟨by omega, ?_⟩
  split_ifs
  all_goals
    simp only [List.forall_mem_cons, UInt8.toNat_ofNat', List.not_mem_nil, false_imp_iff,
      implies_true, and_true]
    omega

lemma encoded_ascii (h : c.toNat < 128) : encoded c = [c.toUInt8] :=
  (encoded_cases c).elim (·.2) fun hwide => by omega

/-- The byte of a character of one byte is in no other character. -/
lemma eq_of_mem_encoded (hmark : mark.toNat < 128) (h : mark.toUInt8 ∈ encoded c) : c = mark := by
  have hnat : ∀ {d : Char}, d.toNat < 128 → d.toUInt8.toNat = d.toNat := by
    intro d hd
    exact Nat.mod_eq_of_lt (Nat.lt_trans hd (by decide))
  rcases encoded_cases c with ⟨hascii, hbytes⟩ | ⟨_, hbytes⟩
  · rw [hbytes, List.mem_singleton] at h
    have heq := congrArg UInt8.toNat h
    rw [hnat hmark, hnat hascii] at heq
    exact Char.toNat_inj.1 heq.symm
  · have hlarge := hbytes _ h
    rw [hnat hmark] at hlarge
    omega

/-- Byte by byte, a character opens and closes as many parentheses as at once. -/
lemma foldl_encoded (depth : ℕ) (c : Char) :
    (encoded c).foldl depthAfterByte depth = depthAfter depth c := by
  by_cases hopen : c = '('
  · rw [hopen]
    rfl
  by_cases hclose : c = ')'
  · rw [hclose]
    rfl
  have hother : ∀ b ∈ encoded c, ∀ d, depthAfterByte d b = d := by
    intro b hb d
    have hopen' : b ≠ '('.toUInt8 := by
      rintro rfl
      exact hopen (eq_of_mem_encoded (by decide) hb)
    have hclose' : b ≠ ')'.toUInt8 := by
      rintro rfl
      exact hclose (eq_of_mem_encoded (by decide) hb)
    rw [depthAfterByte, if_neg hopen', if_neg hclose']
  rw [depthAfter, if_neg hopen, if_neg hclose]
  generalize encoded c = bytes at hother
  induction bytes with
  | nil => rfl
  | cons b bytes ih =>
    obtain ⟨hb, hbytes⟩ := List.forall_mem_cons.1 hother
    rw [List.foldl_cons, hb, ih hbytes]

lemma foldl_flatMap_encoded (depth : ℕ) (cs : List Char) :
    (cs.flatMap encoded).foldl depthAfterByte depth = cs.foldl depthAfter depth := by
  induction cs generalizing depth with
  | nil => rfl
  | cons c cs ih => rw [List.flatMap_cons, List.foldl_append, foldl_encoded, ih, List.foldl_cons]

/-- A mark among the bytes of a text is one of its characters. -/
lemma getElem?_encoded_iff (hmark : mark.toNat < 128) (cs : List Char) (offset : ℕ) :
    (cs.flatMap encoded)[offset]? = some mark.toUInt8 ↔
      ∃ front back, cs = front ++ mark :: back ∧ (front.flatMap encoded).length = offset := by
  induction cs generalizing offset with
  | nil => simp
  | cons c cs ih =>
    have hpos : 0 < (encoded c).length := List.length_pos_of_ne_nil String.utf8EncodeChar_ne_nil
    rw [List.flatMap_cons]
    by_cases hin : offset < (encoded c).length
    · rw [List.getElem?_append_left hin]
      constructor
      · intro h
        obtain rfl := eq_of_mem_encoded hmark (List.mem_of_getElem? h)
        rw [encoded_ascii hmark, List.length_singleton] at hin
        exact ⟨[], cs, rfl, by rw [List.flatMap_nil, List.length_nil]; omega⟩
      · rintro ⟨front, back, hsplit, hlength⟩
        cases front with
        | nil =>
          obtain ⟨rfl, rfl⟩ := List.cons.inj hsplit
          subst hlength
          rw [encoded_ascii hmark]
          rfl
        | cons d front =>
          obtain ⟨rfl, _⟩ := List.cons.inj hsplit
          rw [List.flatMap_cons, List.length_append] at hlength
          omega
    · rw [List.getElem?_append_right (by omega), ih]
      constructor
      · rintro ⟨front, back, rfl, hlength⟩
        refine ⟨c :: front, back, rfl, ?_⟩
        rw [List.flatMap_cons, List.length_append]
        omega
      · rintro ⟨front, back, hsplit, hlength⟩
        cases front with
        | nil =>
          rw [List.flatMap_nil, List.length_nil] at hlength
          omega
        | cons d front =>
          obtain ⟨rfl, rfl⟩ := List.cons.inj hsplit
          refine ⟨front, back, rfl, ?_⟩
          rw [List.flatMap_cons, List.length_append] at hlength
          omega

lemma bytesOf_eq (text : String) : bytesOf text = text.toList.flatMap encoded := by
  rw [bytesOf, ← String.utf8Encode_toList, List.utf8Encode, List.toList_data_toByteArray]

lemma length_encoded (cs : List Char) :
    (cs.flatMap encoded).length = (String.ofList cs).utf8ByteSize := by
  rw [← String.size_toByteArray, String.toByteArray_ofList, List.utf8Encode]
  exact List.size_toByteArray.symm

/-- As many parentheses are open behind a front of a text, counted in bytes or in characters. -/
lemma openBehind_front (h : text.toList = front ++ back) :
    openBehind text (String.ofList front).utf8ByteSize = front.foldl depthAfter 0 := by
  rw [openBehind, bytesOf_eq, h, List.flatMap_append, ← length_encoded, List.take_left,
    foldl_flatMap_encoded]

lemma colonAt_iff : ColonAt text offset ↔ ∃ front back, text.toList = front ++ ':' :: back ∧
    (String.ofList front).utf8ByteSize = offset ∧ front.foldl depthAfter 0 = 0 := by
  constructor
  · rintro ⟨hcolon, houtside⟩
    rw [bytesOf_eq, getElem?_encoded_iff (by decide)] at hcolon
    obtain ⟨front, back, hsplit, hlength⟩ := hcolon
    rw [length_encoded] at hlength
    rw [← hlength, openBehind_front hsplit] at houtside
    exact ⟨front, back, hsplit, hlength, houtside⟩
  · rintro ⟨front, back, hsplit, rfl, houtside⟩
    refine ⟨?_, by rw [openBehind_front hsplit, houtside]⟩
    rw [bytesOf_eq, getElem?_encoded_iff (by decide)]
    exact ⟨front, back, hsplit, length_encoded front⟩

lemma colonsAt_iff : ColonsAt text offset ↔
    ∃ front back, text.toList = front ++ ':' :: ':' :: back ∧
      (String.ofList front).utf8ByteSize = offset ∧ front.foldl depthAfter 0 = 0 := by
  -- the second byte is the first one behind the first colon
  have hsecond : ∀ front back, text.toList = front ++ ':' :: back →
      (bytesOf text)[(String.ofList front).utf8ByteSize + 1]? = (back.flatMap encoded)[0]? := by
    intro front back hsplit
    rw [bytesOf_eq, hsplit, List.flatMap_append, ← length_encoded,
      List.getElem?_append_right (by omega), Nat.add_sub_cancel_left]
    rfl
  constructor
  · rintro ⟨hcolon, hbehind⟩
    obtain ⟨front, back, hsplit, rfl, houtside⟩ := colonAt_iff.1 hcolon
    rw [hsecond front back hsplit, getElem?_encoded_iff (by decide)] at hbehind
    obtain ⟨between, rest, rfl, hlength⟩ := hbehind
    cases between with
    | nil => exact ⟨front, rest, hsplit, rfl, houtside⟩
    | cons c between =>
      have hpos : 0 < (encoded c).length := List.length_pos_of_ne_nil String.utf8EncodeChar_ne_nil
      rw [List.flatMap_cons, List.length_append] at hlength
      omega
  · rintro ⟨front, back, hsplit, rfl, houtside⟩
    refine ⟨colonAt_iff.2 ⟨front, _, hsplit, rfl, houtside⟩, ?_⟩
    rw [hsecond front _ hsplit]
    rfl

end

end AtomicCss.Proofs
