import AtomicCss.Proofs.Rewriting

/-!
# What may stand behind a token

A rewritten token is read again where it is written as long as the text behind it does not go on
with it. A text that begins with no number, and otherwise like the text that the token was read in
front of, is safe; so is one that begins with the very same number, if the token itself is kept.
-/

namespace AtomicCss.Proofs

open Token Value

/-- A text begins with one of these, or with a character of the kind that begins another. -/
def HeadLike (rest' rest : List Char) : Prop :=
  ∀ c ∈ rest'.head?, c ∈ [' ', ',', ')', '"'] ∨
    ∃ d ∈ rest.head?, d = c ∨ isNameStart d = true ∧ isNameChar c = true

/-- A text that may stand behind a token instead of `rest`. -/
structure Replaces (rest' rest : List Char) : Prop where
  ended : rest = [] → rest' = []
  head : HeadLike rest' rest

/-- Two texts that begin with one number: with the same sign and point up to the first digit. -/
inductive SameNumber : List Char → List Char → Prop
  | digit {sign : List Char} {d : Char} (more' more : List Char) : isSign sign →
    d.isDigit = true → SameNumber (sign ++ d :: more') (sign ++ d :: more)
  | point {sign : List Char} {d : Char} (more' more : List Char) : isSign sign →
    d.isDigit = true → SameNumber (sign ++ '.' :: d :: more') (sign ++ '.' :: d :: more)

/-- The tokens that may go on into the text behind them. -/
def isOpenEnded : Token → Bool
  | .ident _ | .hash _ | .number _ | .dimension .. => true
  | .delim c => c == '+' || c == '-' || c == '.'
  | _ => false

lemma nameChar_of_nameStart {c : Char} (h : isNameStart c = true) : isNameChar c = true := by
  simp [isNameChar, h]

/-- A property of heads that closing marks have, and that no name character spoils. -/
lemma HeadLike.forall {rest' rest : List Char} (h : HeadLike rest' rest) {P : Char → Prop}
    (hmarks : ∀ c ∈ [' ', ',', ')', '"'], P c)
    (hname : ∀ d ∈ rest.head?, isNameStart d = true → ∀ c, isNameChar c = true → P c)
    (hrest : ∀ d ∈ rest.head?, P d) : ∀ c ∈ rest'.head?, P c := by
  intro c hc
  rcases h c hc with hmark | ⟨d, hd, rfl | ⟨hstart, hchar⟩⟩
  · exact hmarks c hmark
  · exact hrest d hd
  · exact hname d hd hstart c hchar

lemma HeadLike.not_name {rest' rest : List Char} (h : HeadLike rest' rest)
    (hrest : ∀ d ∈ rest.head?, isNameChar d = false ∧ d ≠ '\\') :
    ∀ c ∈ rest'.head?, isNameChar c = false ∧ c ≠ '\\' := by
  refine h.forall (by decide) (fun d hd hstart => ?_) hrest
  have hchar := nameChar_of_nameStart hstart
  rw [(hrest d hd).1] at hchar
  cases hchar

lemma HeadLike.not_unit {rest' rest : List Char} (h : HeadLike rest' rest)
    (hrest : ∀ d ∈ rest.head?, d ≠ '%' ∧ isNameStart d = false) :
    ∀ c ∈ rest'.head?, c ≠ '%' ∧ isNameStart c = false := by
  refine h.forall (by decide) (fun d hd hstart => ?_) hrest
  rw [(hrest d hd).2] at hstart
  cases hstart

lemma HeadLike.head_ne {rest' rest : List Char} (h : HeadLike rest' rest) {mark : Char}
    (hmark : mark ∉ [' ', ',', ')', '"']) (hname : isNameChar mark = false)
    (hrest : rest.head? ≠ some mark) : rest'.head? ≠ some mark := by
  intro heq
  rcases h mark heq with hmem | ⟨d, hd, rfl | ⟨_, hchar⟩⟩
  · exact hmark hmem
  · exact hrest hd
  · rw [hname] at hchar
    cases hchar

lemma HeadLike.not_startsName {rest' rest : List Char} (h : HeadLike rest' rest)
    (hrest : startsName ('-' :: rest) = false) : startsName ('-' :: rest') = false := by
  have hsource : ∀ d ∈ rest.head?, isNameStart d = false ∧ d ≠ '-' := by
    intro d hd
    obtain ⟨cs, rfl⟩ := List.head?_eq_some_iff.1 hd
    simpa [startsName] using hrest
  have htarget : ∀ c ∈ rest'.head?, isNameStart c = false ∧ c ≠ '-' := by
    refine h.forall (by decide) (fun d hd hstart => ?_) hsource
    rw [(hsource d hd).1] at hstart
    cases hstart
  cases rest' with
  | nil => rfl
  | cons c cs => simpa [startsName] using htarget c rfl

lemma digitSpan_eq_nil_iff {rest : List Char} :
    (digitSpan rest).1 = [] ↔ ∀ c ∈ rest.head?, c.isDigit = false := by
  cases rest with
  | nil => simp [digitSpan]
  | cons c cs => simp [digitSpan, List.takeWhile_cons]

/-- What begins with no number begins with no digit, with or without a sign, and no fraction. -/
lemma signedSpan_of_not_startsNumber {rest : List Char} (h : startsNumber rest = false) :
    (digitSpan (signSpan rest).2).1 = [] := by
  rw [digitSpan_eq_nil_iff]
  intro c hc
  by_contra hdigit
  rw [Bool.not_eq_false] at hdigit
  obtain ⟨cs, hcs⟩ := List.head?_eq_some_iff.1 hc
  have hstart := startsNumber_of_digit (isSign_signSpan rest) hdigit cs
  rw [← hcs, signSpan_append, h] at hstart
  cases hstart

lemma digitSpan_of_not_startsNumber {rest : List Char} (h : startsNumber rest = false) :
    (digitSpan rest).1 = [] := by
  rw [digitSpan_eq_nil_iff]
  intro c hc
  by_contra hdigit
  rw [Bool.not_eq_false] at hdigit
  obtain ⟨cs, rfl⟩ := List.head?_eq_some_iff.1 hc
  have hstart := startsNumber_of_digit (.inl rfl) hdigit cs
  rw [List.nil_append, h] at hstart
  cases hstart

lemma fractionSpan_of_not_startsNumber {rest : List Char} (h : startsNumber rest = false) :
    (fractionSpan rest).1 = [] := by
  by_contra hne
  obtain ⟨d, ds, rfl, hd⟩ := isDigit_of_fractionSpan hne
  have hstart := startsNumber_of_point (.inl rfl) hd ds
  rw [List.nil_append, h] at hstart
  cases hstart

/-- Only a letter begins an exponent. -/
lemma exponentSpan_of_head {rest : List Char} (h : ∀ c ∈ rest.head?, isNameStart c = false) :
    (exponentSpan rest).1 = [] := by
  cases rest with
  | nil => rfl
  | cons c cs =>
    have hletter : ¬(c = 'e' ∨ c = 'E') := by
      rintro (rfl | rfl)
      · exact absurd (h 'e' rfl) (by decide)
      · exact absurd (h 'E' rfl) (by decide)
    unfold exponentSpan
    dsimp only
    rw [if_neg fun hexponent => hletter hexponent.1]

/-- A number ends where neither a number nor a name begins. -/
lemma NumberParts.endsAt_of_not_startsNumber (p : NumberParts) {rest : List Char}
    (hnumber : Token.startsNumber rest = false)
    (hname : ∀ c ∈ rest.head?, isNameStart c = false) : p.EndsAt rest where
  digit := digitSpan_of_not_startsNumber hnumber
  fraction _ _ := fractionSpan_of_not_startsNumber hnumber
  exponent _ := exponentSpan_of_head hname

/-- Without a sign, a number begins with a point and a digit, or with a digit. -/
lemma startsNumber_unsigned {c : Char} (hc : ¬(c = '+' ∨ c = '-')) (cs : List Char) :
    startsNumber (c :: cs) = if c = '.' then (cs.head?.map Char.isDigit).getD false else c.isDigit := by
  unfold startsNumber
  dsimp only
  rw [if_neg hc]
  split
  · rename_i heq
    cases heq
    rfl
  · rename_i hpoint heq
    cases heq
    split
    · rename_i hc
      subst hc
      cases cs with
      | nil => rfl
      | cons d ds => exact (hpoint d ds rfl rfl).elim
    · rfl
  · rename_i heq
    cases heq

lemma startsNumber_signed {c : Char} (hc : c = '+' ∨ c = '-') {d : Char} (hd : ¬(d = '+' ∨ d = '-'))
    (cs : List Char) : startsNumber (c :: d :: cs) = startsNumber (d :: cs) := by
  unfold startsNumber
  dsimp only
  rw [if_pos hc, if_neg hd]

/-- A mark in front of what begins with no number begins none either. -/
lemma startsNumber_mark {c : Char} (hc : c = '+' ∨ c = '-' ∨ c = '.') {rest : List Char}
    (h : startsNumber rest = false) : startsNumber (c :: rest) = false := by
  by_cases hsign : c = '+' ∨ c = '-'
  · cases rest with
    | nil => rcases hsign with rfl | rfl <;> rfl
    | cons d ds =>
      by_cases hd : d = '+' ∨ d = '-'
      · rcases hsign with rfl | rfl <;> rcases hd with rfl | rfl <;> rfl
      · rw [startsNumber_signed hsign hd]
        exact h
  · obtain rfl : c = '.' := by tauto
    have hdigit := digitSpan_eq_nil_iff.1 (digitSpan_of_not_startsNumber h)
    rw [startsNumber_unsigned hsign, if_pos rfl]
    cases rest with
    | nil => rfl
    | cons d ds => exact hdigit d rfl

/-- Up to its first digit, a number does not depend on what stands behind it. -/
lemma NumberParts.sameNumber (q : NumberParts) (more' more : List Char) :
    SameNumber (q.text ++ more') (q.text ++ more) := by
  have htext : ∀ rest, q.text ++ rest =
      q.sign ++ (q.whole ++ (pointed q.fraction ++ (q.exponent ++ rest))) := by
    simp [text]
  rw [htext, htext]
  cases hw : q.whole with
  | cons d ds => exact .digit _ _ q.sign_ok (q.whole_run d (hw ▸ List.mem_cons_self))
  | nil =>
    have hf : q.fraction ≠ [] := q.some_digits.resolve_left (by simp [hw])
    rw [pointed_of_ne_nil hf]
    cases hfraction : q.fraction with
    | nil => exact (hf hfraction).elim
    | cons d ds =>
      exact .point _ _ q.sign_ok (q.fraction_run d (hfraction ▸ List.mem_cons_self))

namespace SameNumber

variable {rest' rest : List Char} (h : SameNumber rest' rest)

include h

lemma head_eq : rest'.head? = rest.head? := by
  rcases h with ⟨_, _, hsign, _⟩ | ⟨_, _, hsign, _⟩
  all_goals rcases hsign with rfl | rfl | rfl <;> rfl

lemma replaces : Replaces rest' rest where
  ended := by
    rintro rfl
    have hhead := h.head_eq
    exact List.head?_eq_none_iff.1 hhead
  head c hc := .inr ⟨c, h.head_eq ▸ hc, .inl rfl⟩

lemma head_cases : ∀ c ∈ rest.head?, c.isDigit = true ∨ c = '+' ∨ c = '-' ∨ c = '.' := by
  intro c hc
  rcases h with ⟨_, _, hsign, hd⟩ | ⟨_, _, hsign, hd⟩
  all_goals
    rcases hsign with rfl | rfl | rfl
    all_goals
      obtain rfl := Option.some.inj hc
      tauto

lemma endsAt {p : NumberParts} (hend : p.EndsAt rest) : p.EndsAt rest' where
  digit := by
    rw [digitSpan_eq_nil_iff, h.head_eq]
    exact digitSpan_eq_nil_iff.1 hend.digit
  fraction hf he := by
    have hnone := hend.fraction hf he
    have hdigit := digitSpan_eq_nil_iff.1 hend.digit
    rcases h with ⟨more', more, hsign, hd⟩ | ⟨more', more, hsign, hd⟩
    · rcases hsign with rfl | rfl | rfl
      · rw [hdigit _ rfl] at hd
        cases hd
      · rfl
      · rfl
    · rcases hsign with rfl | rfl | rfl
      · rw [List.nil_append, fractionSpan, if_pos hd] at hnone
        cases hnone
      · rfl
      · rfl
  exponent _ := by
    apply exponentSpan_of_head
    rw [h.head_eq]
    intro c hc
    rcases h.head_cases c hc with hdigit | rfl | rfl | rfl
    · by_contra hstart
      rw [Bool.not_eq_false] at hstart
      rw [not_isDigit_of_nameStart hstart] at hdigit
      cases hdigit
    · rfl
    · rfl
    · rfl

/-- The characters up to the first digit tell whether a mark in front goes on with the number. -/
lemma startsNumber_cons (c : Char) : startsNumber (c :: rest') = startsNumber (c :: rest) := by
  by_cases hc : c = '+' ∨ c = '-'
  · rcases h with ⟨more', more, hsign, hd⟩ | ⟨more', more, hsign, hd⟩
    all_goals rcases hsign with rfl | rfl | rfl
    · have hne : ¬(_ = '+' ∨ _ = '-') := not_or.2 (ne_sign_of_isDigit hd)
      rw [List.nil_append, List.nil_append, startsNumber_signed hc hne, startsNumber_signed hc hne]
      exact (startsNumber_of_digit (.inl rfl) hd more').trans
        (startsNumber_of_digit (.inl rfl) hd more).symm
    all_goals rcases hc with rfl | rfl <;> rfl
  · rw [startsNumber_unsigned hc, startsNumber_unsigned hc, h.head_eq]

lemma signedSpan (hrest : (digitSpan (signSpan rest).2).1 = []) :
    (digitSpan (signSpan rest').2).1 = [] := by
  rcases h with @⟨_, d, more', more, hsign, hd⟩ | @⟨_, d, more', more, hsign, hd⟩
  · have hhead : ∀ c ∈ (d :: more).head?, c ≠ '+' ∧ c ≠ '-' := by
      intro c hc
      obtain rfl := Option.some.inj hc
      exact ne_sign_of_isDigit hd
    rw [signSpan_append_of_sign hsign hhead] at hrest
    have hfirst := digitSpan_eq_nil_iff.1 hrest _ rfl
    rw [hd] at hfirst
    cases hfirst
  · have hpoint : ∀ c ∈ ('.' :: d :: more').head?, c ≠ '+' ∧ c ≠ '-' := by
      intro c hc
      obtain rfl := Option.some.inj hc
      decide
    rw [signSpan_append_of_sign hsign hpoint]
    exact digitSpan_cons (by decide) _

end SameNumber

lemma exponentSpan_eq_nil_iff {e : Char} {cs : List Char} : (exponentSpan (e :: cs)).1 = [] ↔
    (e = 'e' ∨ e = 'E' → (digitSpan (signSpan cs).2).1 = []) := by
  unfold exponentSpan
  dsimp only
  split
  · simp_all
  · simp_all

/-- A unit that is no exponent in front of one text is none in front of another. -/
lemma exponentSpan_unit {unit rest rest' : List Char} (hne : unit ≠ [])
    (h : (exponentSpan (unit ++ rest)).1 = [])
    (hdigit : ∀ c ∈ rest'.head?, c.isDigit = false)
    (hsigned : (digitSpan (signSpan rest).2).1 = [] → (digitSpan (signSpan rest').2).1 = []) :
    (exponentSpan (unit ++ rest')).1 = [] := by
  cases unit with
  | nil => exact (hne rfl).elim
  | cons e cs =>
    rw [List.cons_append, exponentSpan_eq_nil_iff] at h ⊢
    refine fun he => ?_
    have hrest := h he
    cases cs with
    | nil => exact hsigned hrest
    | cons s ds =>
      have hhead : (∀ c ∈ (ds ++ rest).head?, c.isDigit = false) →
          ∀ c ∈ (ds ++ rest').head?, c.isDigit = false := by
        cases ds with
        | nil => exact fun _ => hdigit
        | cons d ds => exact id
      unfold signSpan at hrest ⊢
      dsimp only [List.cons_append] at hrest ⊢
      split
      · rename_i hs
        rw [if_pos hs] at hrest
        exact digitSpan_eq_nil_iff.2 (hhead (digitSpan_eq_nil_iff.1 hrest))
      · rename_i hs
        rw [if_neg hs] at hrest
        exact digitSpan_eq_nil_iff.2 fun c hc => digitSpan_eq_nil_iff.1 hrest c hc

end AtomicCss.Proofs
