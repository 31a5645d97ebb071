import AtomicCss.Token.Basic

/-!
# Splitting a whole value

Every token takes at least one character, so a text is used up after finitely many of them. What
a scan reports are the tokens with the positions before them, and the position or fault at its end.
-/

namespace AtomicCss

namespace Token

theorem length_dropWhile_le (p : Char → Bool) (cs : List Char) :
    (cs.dropWhile p).length ≤ cs.length :=
  (List.dropWhile_sublist p).length_le

theorem nameSpan_length (cs : List Char) : (nameSpan cs).2.length ≤ cs.length := by
  have h := congrArg List.length (nameSpan_append cs)
  simp only [List.length_append] at h
  omega

theorem stringBody?_length {quote : Char} {cs raw rest : List Char}
    (h : stringBody? quote cs = some (raw, rest)) : rest.length < cs.length := by
  have h := congrArg List.length (stringBody?_append h)
  simp only [List.length_append, List.length_cons] at h
  omega

theorem numberSpan_ne_nil {cs : List Char} (h : startsNumber cs = true) :
    (numberSpan cs).1 ≠ [] := by
  match cs with
  | [] => simp [startsNumber] at h
  | c :: cs =>
    by_cases hs : c = '+' ∨ c = '-'
    · simp [numberSpan, signSpan, hs]
    · simp only [startsNumber, hs, if_false] at h
      split at h
      · rename_i heq
        obtain ⟨rfl, rfl⟩ := List.cons.inj heq
        simp [numberSpan, signSpan, digitSpan, fractionSpan, Char.isDigit]
        simp_all [Char.isDigit]
      · rename_i heq
        obtain ⟨rfl, rfl⟩ := List.cons.inj heq
        simp [numberSpan, signSpan, hs, digitSpan, h]
      · simp at h

theorem numberSpan_length {cs : List Char} (h : startsNumber cs = true) :
    (numberSpan cs).2.length < cs.length := by
  have hl := congrArg List.length (numberSpan_append cs)
  have hp := List.length_pos_iff.2 (numberSpan_ne_nil h)
  simp only [List.length_append] at hl
  omega

theorem readNumber_length {cs rest : List Char} {t : Token} (hs : startsNumber cs = true)
    (h : readNumber cs = .ok (t, rest)) : rest.length < cs.length := by
  have hn := numberSpan_length hs
  simp only [readNumber] at h
  split at h
  · simp at h
  · split at h
    · rename_i heq
      obtain ⟨rfl, rfl⟩ := Prod.mk.inj (Except.ok.inj h)
      rw [heq] at hn
      exact hn
    · rename_i c tail heq
      rw [heq] at h hn
      have hu := nameSpan_length (c :: tail)
      simp only [List.length_cons] at hn hu
      split at h
      · obtain ⟨rfl, rfl⟩ := Prod.mk.inj (Except.ok.inj h)
        omega
      · split at h <;> obtain ⟨rfl, rfl⟩ := Prod.mk.inj (Except.ok.inj h)
        · omega
        · exact hn

theorem nameSpan_ne_nil {cs : List Char} (h : startsName cs = true) : (nameSpan cs).1 ≠ [] := by
  match cs with
  | [] => simp [startsName] at h
  | c :: cs =>
    have hc : isNameChar c = true := by
      simp only [startsName] at h
      split at h
      · rename_i heq
        obtain ⟨rfl, rfl⟩ := List.cons.inj heq
        rfl
      · rename_i heq
        obtain ⟨rfl, rfl⟩ := List.cons.inj heq
        simp [isNameChar, h]
      · simp at h
    unfold nameSpan
    split <;> simp_all

theorem readNamed_length {cs rest : List Char} {t : Token} (hs : startsName cs = true)
    (h : readNamed cs = .ok (t, rest)) : rest.length < cs.length := by
  have hl := congrArg List.length (nameSpan_append cs)
  have hp := List.length_pos_iff.2 (nameSpan_ne_nil hs)
  simp only [List.length_append] at hl
  simp only [readNamed] at h
  split at h
  · rename_i inner heq
    rw [heq] at hl
    simp only [List.length_cons] at hl
    split at h
    · split at h
      · rename_i hb
        obtain ⟨rfl, rfl⟩ := Prod.mk.inj (Except.ok.inj h)
        have := stringBody?_length hb
        have := length_dropWhile_le Text.isBlank inner
        omega
      · simp at h
    · obtain ⟨rfl, rfl⟩ := Prod.mk.inj (Except.ok.inj h)
      omega
  · obtain ⟨rfl, rfl⟩ := Prod.mk.inj (Except.ok.inj h)
    omega

/-- Every token takes at least one character. -/
theorem next?_length {cs rest : List Char} {t : Token} (h : next? cs = .ok (some (t, rest))) :
    rest.length < cs.length := by
  match cs with
  | [] => simp [next?] at h
  | c :: cs =>
    have hb := length_dropWhile_le Text.isBlank cs
    have hn := nameSpan_length cs
    have taken {u : Token} {r : List Char}
        (hu : (Except.ok (some (u, r)) : Except Failure (Option (Token × List Char)))
          = .ok (some (t, rest))) (hr : r.length ≤ cs.length) :
        rest.length < (c :: cs).length := by
      simp only [Except.ok.injEq, Option.some.injEq, Prod.mk.injEq] at hu
      rw [← hu.2, List.length_cons]
      omega
    simp only [next?] at h
    split at h
    · exact taken h hb
    split at h
    · exact taken h (Nat.le_refl _)
    split at h
    · exact taken h (Nat.le_refl _)
    split at h
    · exact taken h (Nat.le_refl _)
    split at h
    · split at h
      · rename_i heq
        exact taken h (Nat.le_of_lt (stringBody?_length heq))
      · simp at h
    split at h
    · exact taken h hn
    split at h
    · rename_i hs
      match hr : readNumber (c :: cs) with
      | .error _ => simp [hr, Except.map] at h
      | .ok (u, r) =>
        have hl := readNumber_length hs hr
        simp only [List.length_cons] at hl
        exact taken (by simpa only [hr, Except.map] using h) (by omega)
    split at h
    · rename_i hs
      match hr : readNamed (c :: cs) with
      | .error _ => simp [hr, Except.map] at h
      | .ok (u, r) =>
        have hl := readNamed_length hs hr
        simp only [List.length_cons] at hl
        exact taken (by simpa only [hr, Except.map] using h) (by omega)
    · exact taken h (Nat.le_refl _)

/-- The tokens of a text with what each one takes. The last component tells the end of the text
from a failure. -/
def lexemes (cs : List Char) : List (Token × List Char) × Except Failure Unit :=
  match _h : next? cs with
  | .error failure => ([], .error failure)
  | .ok none => ([], .ok ())
  | .ok (some (t, rest)) =>
    let (more, outcome) := lexemes rest
    ((t, cs.take (cs.length - rest.length)) :: more, outcome)
  termination_by cs.length
  decreasing_by exact next?_length _h

end Token

/-- The tokens of a text with the positions before them, and the position of its end or the fault
that stopped the scan. -/
structure Scan where
  tokens : List (Location × Token)
  outcome : Except CssFault Location

namespace Token

def Failure.fault (input : List Char) (location : Location) : Failure → CssFault
  | unclosedString => .unterminatedString (String.ofList input) location
  | unclosedUrl opening => .unbalancedParentheses (String.ofList input) (location.past opening)
  | notANumber text => .invalidNumber (String.ofList text) location

/-- The tokens with positions, starting at a given one. Each token moves it over the text taken. -/
def placed (location : Location) :
    List (Token × List Char) → List (Location × Token) × Location
  | [] => ([], location)
  | (t, taken) :: more =>
    let (tokens, last) := placed (location.past taken) more
    ((location, t) :: tokens, last)

def scan (input : List Char) : Scan :=
  let (taken, outcome) := lexemes input
  let (tokens, last) := placed .start taken
  { tokens
    outcome :=
      match outcome with
      | .ok () => .ok last
      | .error failure => .error (failure.fault input last) }

/-- How many parentheses are open behind the tokens, or where one is closed that was not open. -/
def openDepth (depth : Nat) : List (Location × Token) → Except Location Nat
  | [] => .ok depth
  | (location, t) :: more =>
    match t with
    | function _ | leftParen => openDepth (depth + 1) more
    | rightParen => if depth = 0 then .error location else openDepth (depth - 1) more
    | _ => openDepth depth more

/-- The tokens of a value whose parentheses balance. -/
def tokenize (input : List Char) : Except CssFault (List Token) :=
  let result := scan input
  match openDepth 0 result.tokens with
  | .error location => .error (.unbalancedParentheses (String.ofList input) location)
  | .ok depth =>
    match result.outcome with
    | .error fault => .error fault
    | .ok last =>
      if depth = 0 then .ok (result.tokens.map Prod.snd)
      else .error (.unbalancedParentheses (String.ofList input) last)

end Token

end AtomicCss
