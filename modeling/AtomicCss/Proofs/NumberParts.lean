import AtomicCss.Proofs.NumberText
import Mathlib.Data.List.DropRight

/-!
# The parts of a number

The text of a number is a sign, digits, digits behind a point and an exponent. It is read again as a
whole as long as the text behind it does not go on with any of them. The canonical spelling drops a
plus sign and the zeros at both ends, and has nothing more to drop.
-/

namespace AtomicCss.Proofs

open Token

/-- A text of nothing but digits. -/
def IsRun (digits : List Char) : Prop :=
  ∀ c ∈ digits, c.isDigit = true

def isSign (sign : List Char) : Prop :=
  sign = [] ∨ sign = ['+'] ∨ sign = ['-']

/-- A letter, a sign and digits, or nothing. -/
def IsExponent (exponent : List Char) : Prop :=
  exponent = [] ∨ ∃ e sign digits, (e = 'e' ∨ e = 'E') ∧ isSign sign ∧ IsRun digits ∧
    digits ≠ [] ∧ exponent = e :: (sign ++ digits)

/-- The parts of a number's text. The digits on one side of the point may be missing. -/
structure NumberParts where
  sign : List Char
  whole : List Char
  fraction : List Char
  exponent : List Char
  sign_ok : isSign sign
  whole_run : IsRun whole
  fraction_run : IsRun fraction
  exponent_ok : IsExponent exponent
  some_digits : whole ≠ [] ∨ fraction ≠ []

/-- Digits behind a point, which is left out without them. -/
def pointed (fraction : List Char) : List Char :=
  if fraction.isEmpty then [] else '.' :: fraction

def NumberParts.text (p : NumberParts) : List Char :=
  p.sign ++ p.whole ++ pointed p.fraction ++ p.exponent

/-- The number does not go on into a text: that begins neither with a digit nor, where these are
missing, with a fraction or an exponent. -/
structure NumberParts.EndsAt (p : NumberParts) (rest : List Char) : Prop where
  digit : (digitSpan rest).1 = []
  fraction : p.fraction = [] → p.exponent = [] → (fractionSpan rest).1 = []
  exponent : p.exponent = [] → (exponentSpan rest).1 = []

lemma pointed_nil : pointed [] = [] := rfl

lemma pointed_of_ne_nil {fraction : List Char} (h : fraction ≠ []) :
    pointed fraction = '.' :: fraction := by
  unfold pointed
  rw [if_neg (by simpa using h)]

lemma digitSpan_of_nil {rest : List Char} (h : (digitSpan rest).1 = []) : digitSpan rest = ([], rest) := by
  have happend := digitSpan_append rest
  rw [h] at happend
  exact Prod.ext h happend

lemma fractionSpan_of_nil {rest : List Char} (h : (fractionSpan rest).1 = []) :
    fractionSpan rest = ([], rest) := by
  have happend := fractionSpan_append rest
  rw [h] at happend
  exact Prod.ext h happend

lemma exponentSpan_of_nil {rest : List Char} (h : (exponentSpan rest).1 = []) :
    exponentSpan rest = ([], rest) := by
  have happend := exponentSpan_append rest
  rw [h] at happend
  exact Prod.ext h happend

lemma digitSpan_append_of_run {digits rest : List Char} (hrun : IsRun digits)
    (hrest : (digitSpan rest).1 = []) : digitSpan (digits ++ rest) = (digits, rest) := by
  have htake : rest.takeWhile Char.isDigit = [] := hrest
  have hdrop : rest.dropWhile Char.isDigit = rest := congrArg Prod.snd (digitSpan_of_nil hrest)
  unfold digitSpan
  rw [List.takeWhile_append_of_pos hrun, List.dropWhile_append_of_pos hrun, htake, hdrop,
    List.append_nil]

/-- A character that is no digit ends a run. -/
lemma digitSpan_cons {c : Char} (h : c.isDigit = false) (rest : List Char) :
    (digitSpan (c :: rest)).1 = [] := by
  simp [digitSpan, h]

lemma signSpan_append_of_sign {sign rest : List Char} (hsign : isSign sign)
    (hrest : ∀ c ∈ rest.head?, c ≠ '+' ∧ c ≠ '-') :
    signSpan (sign ++ rest) = (sign, rest) := by
  rcases hsign with rfl | rfl | rfl
  · cases rest with
    | nil => rfl
    | cons c cs =>
      have hc := hrest c rfl
      simp [signSpan, hc.1, hc.2]
  · simp [signSpan]
  · simp [signSpan]

lemma isSign_signSpan (cs : List Char) : isSign (signSpan cs).1 := by
  unfold signSpan isSign
  split
  · split
    · rename_i h
      rcases h with rfl | rfl <;> simp
    · exact .inl rfl
  · exact .inl rfl

lemma ne_sign_of_isDigit {c : Char} (h : c.isDigit = true) : c ≠ '+' ∧ c ≠ '-' := by
  constructor <;> rintro rfl <;> exact absurd h (by decide)

/-- Behind the sign there is no second one. -/
lemma NumberParts.head_behind_sign (p : NumberParts) (rest : List Char) :
    ∀ c ∈ (p.whole ++ (pointed p.fraction ++ rest)).head?, c ≠ '+' ∧ c ≠ '-' := by
  intro c hc
  cases hw : p.whole with
  | cons d ds =>
    rw [hw] at hc
    obtain rfl : d = c := by simpa using hc
    exact ne_sign_of_isDigit (p.whole_run d (hw ▸ List.mem_cons_self))
  | nil =>
    have hf : p.fraction ≠ [] := p.some_digits.resolve_left (by simp [hw])
    rw [hw, pointed_of_ne_nil hf] at hc
    obtain rfl : '.' = c := by simpa using hc
    decide

lemma exponentSpan_append_of_exponent {exponent rest : List Char} (h : IsExponent exponent)
    (hdigit : (digitSpan rest).1 = []) (hrest : exponent = [] → (exponentSpan rest).1 = []) :
    exponentSpan (exponent ++ rest) = (exponent, rest) := by
  rcases h with rfl | ⟨e, sign, digits, he, hsign, hrun, hne, rfl⟩
  · exact exponentSpan_of_nil (hrest rfl)
  · have hhead : ∀ c ∈ (digits ++ rest).head?, c ≠ '+' ∧ c ≠ '-' := by
      cases digits with
      | nil => exact (hne rfl).elim
      | cons d ds =>
        intro c hc
        obtain rfl : d = c := by simpa using hc
        exact ne_sign_of_isDigit (hrun d List.mem_cons_self)
    have hspan : exponentSpan (e :: (sign ++ (digits ++ rest))) = (e :: (sign ++ digits), rest) := by
      simp only [exponentSpan, signSpan_append_of_sign hsign hhead,
        digitSpan_append_of_run hrun hdigit]
      rw [if_pos ⟨he, hne⟩]
    rw [List.cons_append, List.append_assoc]
    exact hspan

lemma fractionSpan_append_of_fraction {fraction rest : List Char} (hrun : IsRun fraction)
    (hdigit : (digitSpan rest).1 = []) (hrest : fraction = [] → (fractionSpan rest).1 = []) :
    fractionSpan (pointed fraction ++ rest) = (pointed fraction, rest) := by
  cases fraction with
  | nil => exact fractionSpan_of_nil (hrest rfl)
  | cons d ds =>
    have hd : d.isDigit = true := hrun d List.mem_cons_self
    have hspan := digitSpan_append_of_run hrun hdigit
    rw [List.cons_append] at hspan
    rw [pointed_of_ne_nil (List.cons_ne_nil d ds), List.cons_append, List.cons_append,
      fractionSpan, if_pos hd, hspan]

/-- What stands behind the fraction begins with no digit. -/
lemma digitSpan_exponent {exponent rest : List Char} (h : IsExponent exponent)
    (hrest : (digitSpan rest).1 = []) : (digitSpan (exponent ++ rest)).1 = [] := by
  rcases h with rfl | ⟨e, sign, digits, he, _, _, _, rfl⟩
  · exact hrest
  · apply digitSpan_cons
    rcases he with rfl | rfl <;> rfl

lemma fractionSpan_exponent {exponent : List Char} (rest : List Char) (h : IsExponent exponent)
    (hne : exponent ≠ []) : (fractionSpan (exponent ++ rest)).1 = [] := by
  rcases h with rfl | ⟨e, sign, digits, he, _, _, _, rfl⟩
  · exact (hne rfl).elim
  · rcases he with rfl | rfl <;> rfl

/-- A number is read off the front of a text into which it does not go on. -/
lemma numberSpan_text (p : NumberParts) {rest : List Char} (h : p.EndsAt rest) :
    numberSpan (p.text ++ rest) = (p.text, rest) := by
  have hexponent := digitSpan_exponent p.exponent_ok h.digit
  have hfraction : (digitSpan (pointed p.fraction ++ (p.exponent ++ rest))).1 = [] := by
    by_cases hf : p.fraction = []
    · rw [hf, pointed_nil]
      exact hexponent
    · rw [pointed_of_ne_nil hf]
      exact digitSpan_cons (by decide) _
  have hnofraction : p.fraction = [] → (fractionSpan (p.exponent ++ rest)).1 = [] := by
    intro hf
    by_cases he : p.exponent = []
    · rw [he]
      exact h.fraction hf he
    · exact fractionSpan_exponent rest p.exponent_ok he
  have hassoc : p.text ++ rest =
      p.sign ++ (p.whole ++ (pointed p.fraction ++ (p.exponent ++ rest))) := by
    simp [NumberParts.text]
  unfold numberSpan
  rw [hassoc, signSpan_append_of_sign p.sign_ok (p.head_behind_sign _)]
  dsimp only
  rw [digitSpan_append_of_run p.whole_run hfraction]
  dsimp only
  rw [fractionSpan_append_of_fraction p.fraction_run hexponent hnofraction]
  dsimp only
  rw [exponentSpan_append_of_exponent p.exponent_ok h.digit h.exponent]
  rfl

lemma isRun_digitSpan (cs : List Char) : IsRun (digitSpan cs).1 :=
  List.all_eq_true.1 List.all_takeWhile

lemma digitSpan_behind (cs : List Char) : (digitSpan (digitSpan cs).2).1 = [] := by
  unfold digitSpan
  induction cs with
  | nil => rfl
  | cons c cs ih =>
    by_cases hc : c.isDigit = true
    · simpa [hc] using ih
    · simp [hc]

lemma isDigit_of_fractionSpan {cs : List Char} (h : (fractionSpan cs).1 ≠ []) :
    ∃ d ds, cs = '.' :: d :: ds ∧ d.isDigit = true := by
  unfold fractionSpan at h
  split at h
  · rename_i d ds
    split at h
    · rename_i hd
      exact ⟨d, ds, rfl, hd⟩
    · exact (h rfl).elim
  · exact (h rfl).elim

/-- A fraction is a point and digits, and no digits are left behind it. -/
lemma fractionSpan_parts (cs : List Char) : ∃ fraction, IsRun fraction ∧
    (fractionSpan cs).1 = pointed fraction ∧
    ((digitSpan cs).1 = [] → (digitSpan (fractionSpan cs).2).1 = []) := by
  by_cases h : (fractionSpan cs).1 = []
  · refine ⟨[], nofun, h, ?_⟩
    rw [fractionSpan_of_nil h]
    exact id
  · obtain ⟨d, ds, rfl, hd⟩ := isDigit_of_fractionSpan h
    have hne : (digitSpan (d :: ds)).1 ≠ [] := by simp [digitSpan, hd]
    refine ⟨(digitSpan (d :: ds)).1, isRun_digitSpan _, ?_, ?_⟩
    · rw [pointed_of_ne_nil hne, fractionSpan, if_pos hd]
    · rw [fractionSpan, if_pos hd]
      exact fun _ => digitSpan_behind _

/-- What is read as an exponent is one, and no digits are left behind it. -/
lemma exponentSpan_parts (cs : List Char) : IsExponent (exponentSpan cs).1 ∧
    ((digitSpan cs).1 = [] → (digitSpan (exponentSpan cs).2).1 = []) := by
  cases cs with
  | nil => exact ⟨.inl rfl, id⟩
  | cons e cs =>
    unfold exponentSpan
    dsimp only
    split
    · rename_i h
      refine ⟨.inr ⟨e, _, _, h.1, isSign_signSpan cs, isRun_digitSpan _, h.2, rfl⟩, ?_⟩
      exact fun _ => digitSpan_behind _
    · exact ⟨.inl rfl, id⟩

/-- Behind the sign of a number there is a digit, or a point and a digit. -/
lemma digits_of_startsNumber {cs : List Char} (h : startsNumber cs = true) :
    (digitSpan (signSpan cs).2).1 ≠ [] ∨ (fractionSpan (digitSpan (signSpan cs).2).2).1 ≠ [] := by
  cases cs with
  | nil => cases h
  | cons c cs =>
    have hsign : (signSpan (c :: cs)).2 = if c = '+' ∨ c = '-' then cs else c :: cs := by
      by_cases hc : c = '+' ∨ c = '-'
      · rw [signSpan, if_pos hc, if_pos hc]
      · rw [signSpan, if_neg hc, if_neg hc]
    rw [hsign]
    unfold startsNumber at h
    dsimp only at h
    split at h
    · rename_i d ds heq
      rw [heq]
      refine .inr ?_
      have hpoint : digitSpan ('.' :: d :: ds) = ([], '.' :: d :: ds) :=
        digitSpan_of_nil (digitSpan_cons (by decide) _)
      rw [hpoint, fractionSpan, if_pos h]
      exact List.cons_ne_nil _ _
    · rename_i d ds _ heq
      rw [heq]
      refine .inl ?_
      simp [digitSpan, h]
    · cases h

/-- What is read as a number has the parts of one, and does not go on behind them. -/
lemma parts_of_startsNumber {cs : List Char} (h : startsNumber cs = true) :
    ∃ p : NumberParts, (numberSpan cs).1 = p.text ∧ p.EndsAt (numberSpan cs).2 := by
  let behindSign := (signSpan cs).2
  let behindWhole := (digitSpan behindSign).2
  let behindFraction := (fractionSpan behindWhole).2
  obtain ⟨fraction, hrun, hfraction, hdigits⟩ := fractionSpan_parts behindWhole
  obtain ⟨hexponent, hlast⟩ := exponentSpan_parts behindFraction
  have hsome : (digitSpan behindSign).1 ≠ [] ∨ fraction ≠ [] := by
    refine (digits_of_startsNumber h).imp_right fun hne hnil => hne ?_
    rw [hfraction, hnil]
    rfl
  refine ⟨⟨(signSpan cs).1, (digitSpan behindSign).1, fraction, (exponentSpan behindFraction).1,
    isSign_signSpan cs, isRun_digitSpan _, hrun, hexponent, hsome⟩, ?_, ?_⟩
  · unfold NumberParts.text
    rw [← hfraction]
    rfl
  · have hend : (numberSpan cs).2 = (exponentSpan behindFraction).2 := rfl
    constructor
    · rw [hend]
      exact hlast (hdigits (digitSpan_behind _))
    · intro hf he
      have hnone : (fractionSpan behindWhole).1 = [] := by
        rw [hfraction]
        exact hf ▸ pointed_nil
      rw [hend, exponentSpan_of_nil he]
      change (fractionSpan (fractionSpan behindWhole).2).1 = []
      rw [fractionSpan_of_nil hnone]
      exact hnone
    · intro he
      rw [hend, exponentSpan_of_nil he]
      exact he

/-- The digits of the whole part from the first that is not zero. -/
def NumberParts.keptWhole (p : NumberParts) : List Char :=
  p.whole.dropWhile (· == '0')

/-- The digits of the fraction up to the last that is not zero. -/
def NumberParts.keptFraction (p : NumberParts) : List Char :=
  Decimal.dropEndWhile (· == '0') p.fraction

def NumberParts.zero : NumberParts where
  sign := []
  whole := ['0']
  fraction := []
  exponent := []
  sign_ok := .inl rfl
  whole_run := by
    intro c hc
    rw [List.mem_singleton.1 hc]
    rfl
  fraction_run := nofun
  exponent_ok := .inl rfl
  some_digits := .inl (List.cons_ne_nil _ _)

/-- The parts of the canonical spelling. -/
def NumberParts.canonical (p : NumberParts) : NumberParts :=
  if p.exponent ≠ [] then p
  else if h : p.keptWhole ≠ [] ∨ p.keptFraction ≠ [] then
    { sign := if p.sign = ['-'] then ['-'] else []
      whole := p.keptWhole
      fraction := p.keptFraction
      exponent := []
      sign_ok := by
        unfold isSign
        split <;> simp
      whole_run := fun c hc => p.whole_run c ((List.dropWhile_sublist _).subset hc)
      fraction_run := fun c hc => p.fraction_run c (dropEndWhile_subset _ _ hc)
      exponent_ok := .inl rfl
      some_digits := h }
  else .zero

lemma NumberParts.canonical_of_exponent {p : NumberParts} (h : p.exponent ≠ []) :
    p.canonical = p := by
  unfold canonical
  rw [if_pos h]

lemma NumberParts.canonical_of_zeros {p : NumberParts} (hexponent : p.exponent = [])
    (hwhole : p.keptWhole = []) (hfraction : p.keptFraction = []) : p.canonical = .zero := by
  unfold canonical
  rw [if_neg (by simpa using hexponent), dif_neg (by simp [hwhole, hfraction])]

/-- What is kept of a number that is not zero. -/
lemma NumberParts.canonical_parts {p : NumberParts} (hexponent : p.exponent = [])
    (h : p.keptWhole ≠ [] ∨ p.keptFraction ≠ []) :
    p.canonical.sign = (if p.sign = ['-'] then ['-'] else []) ∧
      p.canonical.whole = p.keptWhole ∧ p.canonical.fraction = p.keptFraction ∧
      p.canonical.exponent = [] := by
  unfold canonical
  rw [if_neg (by simpa using hexponent), dif_pos h]
  exact ⟨rfl, rfl, rfl, rfl⟩

lemma NumberParts.text_congr {p q : NumberParts} (hsign : p.sign = q.sign)
    (hwhole : p.whole = q.whole) (hfraction : p.fraction = q.fraction)
    (hexponent : p.exponent = q.exponent) : p.text = q.text := by
  unfold text
  rw [hsign, hwhole, hfraction, hexponent]

/-- The canonical spelling has nothing more to drop. -/
lemma NumberParts.canonical_canonical (p : NumberParts) :
    p.canonical.canonical.text = p.canonical.text := by
  by_cases hexponent : p.exponent = []
  · by_cases hkept : p.keptWhole ≠ [] ∨ p.keptFraction ≠ []
    · obtain ⟨hsign, hwhole, hfraction, hnone⟩ := canonical_parts hexponent hkept
      have hwhole' : p.canonical.keptWhole = p.keptWhole := by
        rw [keptWhole, hwhole]
        exact List.dropWhile_idempotent _ _
      have hfraction' : p.canonical.keptFraction = p.keptFraction := by
        rw [keptFraction, hfraction]
        exact List.rdropWhile_idempotent _ _
      obtain ⟨hsign', hwhole'', hfraction'', hnone'⟩ :=
        canonical_parts (p := p.canonical) hnone (by rwa [hwhole', hfraction'])
      refine text_congr ?_ (by rw [hwhole'', hwhole', hwhole])
        (by rw [hfraction'', hfraction', hfraction]) (by rw [hnone', hnone])
      rw [hsign', hsign]
      by_cases hminus : p.sign = ['-'] <;> simp [hminus]
    · rw [not_or, not_not, not_not] at hkept
      rw [canonical_of_zeros hexponent hkept.1 hkept.2]
      rfl
  · rw [canonical_of_exponent hexponent, canonical_of_exponent hexponent]

lemma IsRun.not_mem {digits : List Char} (h : IsRun digits) {c : Char} (hc : c.isDigit = false) :
    c ∉ digits :=
  fun hmem => absurd (h c hmem) (by simp [hc])

/-- The two sides of the point. -/
lemma NumberParts.splitOnce?_digits (p : NumberParts) :
    (Text.splitOnce? '.' (p.whole ++ pointed p.fraction)).getD (p.whole ++ pointed p.fraction, [])
      = (p.whole, p.fraction) := by
  have hpoint : '.' ∉ p.whole := p.whole_run.not_mem (by decide)
  by_cases hf : p.fraction = []
  · rw [hf, pointed_nil, List.append_nil, splitOnce?_of_not_mem hpoint]
    rfl
  · rw [pointed_of_ne_nil hf, splitOnce?_append hpoint]
    rfl

lemma NumberParts.any_exponent (p : NumberParts) :
    (p.text.any fun c => c == 'e' || c == 'E') = !p.exponent.isEmpty := by
  have hrun : ∀ {digits : List Char}, IsRun digits →
      (digits.any fun c => c == 'e' || c == 'E') = false := by
    intro digits h
    rw [List.any_eq_false]
    intro c hc hletter
    rcases Bool.or_eq_true_iff.1 hletter with he | he
    · exact h.not_mem (by decide) (eq_of_beq he ▸ hc)
    · exact h.not_mem (by decide) (eq_of_beq he ▸ hc)
  have hsign : (p.sign.any fun c => c == 'e' || c == 'E') = false := by
    rcases p.sign_ok with h | h | h <;> rw [h] <;> rfl
  have hfraction : ((pointed p.fraction).any fun c => c == 'e' || c == 'E') = false := by
    by_cases hf : p.fraction = []
    · rw [hf]
      rfl
    · rw [pointed_of_ne_nil hf, List.any_cons, hrun p.fraction_run]
      rfl
  unfold text
  rw [List.any_append, List.any_append, List.any_append, hsign, hrun p.whole_run, hfraction]
  rcases p.exponent_ok with h | ⟨e, sign, digits, he, _, _, _, h⟩
  · rw [h]
    rfl
  · rw [h]
    rcases he with rfl | rfl <;> simp

lemma canonical_numeral (p : NumberParts) (negative : Bool) :
    numeral negative (p.whole ++ pointed p.fraction) =
      if p.keptWhole ≠ [] ∨ p.keptFraction ≠ [] then
        (if negative then ['-'] else []) ++ p.keptWhole ++ pointed p.keptFraction
      else ['0'] := by
  unfold numeral
  rw [p.splitOnce?_digits]
  change (if (p.keptWhole.isEmpty && p.keptFraction.isEmpty) = true then ['0'] else
    (if negative then ['-'] else []) ++ p.keptWhole ++ pointed p.keptFraction) = _
  by_cases hkept : p.keptWhole ≠ [] ∨ p.keptFraction ≠ []
  · rw [if_pos hkept, if_neg]
    rw [Bool.and_eq_true, List.isEmpty_iff, List.isEmpty_iff]
    tauto
  · rw [if_neg hkept, if_pos]
    rw [Bool.and_eq_true, List.isEmpty_iff, List.isEmpty_iff]
    tauto

/-- The sign is split off a number without an exponent. -/
lemma NumberParts.canonical_unsigned {p : NumberParts} (h : p.exponent = []) :
    Decimal.canonical p.text =
      numeral (p.sign = ['-']) (p.whole ++ pointed p.fraction) := by
  have htext : p.text = p.sign ++ (p.whole ++ pointed p.fraction) := by
    rw [text, h, List.append_nil, List.append_assoc]
  have hnone : (p.text.any fun c => c == 'e' || c == 'E') = false := by
    rw [p.any_exponent, h]
    rfl
  unfold Decimal.canonical
  rw [if_neg (by simp [hnone]), htext]
  rcases p.sign_ok with hs | hs | hs
  · have hhead := p.head_behind_sign []
    rw [List.append_nil] at hhead
    rw [hs, List.nil_append]
    generalize hdigits : p.whole ++ pointed p.fraction = digits at hhead
    cases digits with
    | nil => rfl
    | cons c cs =>
      obtain ⟨hplus, hminus⟩ := hhead c rfl
      split
      rename_i negative digits heq
      split at heq
      · rename_i hc
        cases hc
        exact (hminus rfl).elim
      · rename_i hc
        cases hc
        exact (hplus rfl).elim
      · cases heq
        rfl
  · rw [hs]
    rfl
  · rw [hs]
    rfl

lemma NumberParts.canonical_text (p : NumberParts) :
    Decimal.canonical p.text = p.canonical.text := by
  by_cases hexponent : p.exponent = []
  · rw [canonical_unsigned hexponent, canonical_numeral]
    by_cases hkept : p.keptWhole ≠ [] ∨ p.keptFraction ≠ []
    · obtain ⟨hsign, hwhole, hfraction, hnone⟩ := canonical_parts hexponent hkept
      rw [if_pos hkept, text, hsign, hwhole, hfraction, hnone, List.append_nil]
      by_cases hminus : p.sign = ['-'] <;> simp [hminus]
    · rw [if_neg hkept]
      rw [not_or, not_not, not_not] at hkept
      rw [canonical_of_zeros hexponent hkept.1 hkept.2]
      rfl
  · unfold Decimal.canonical
    rw [if_pos (by simpa [p.any_exponent] using hexponent), canonical_of_exponent hexponent]

lemma NumberParts.canonical_text_canonical (p : NumberParts) :
    Decimal.canonical p.canonical.text = p.canonical.text := by
  rw [p.canonical.canonical_text, p.canonical_canonical]

end AtomicCss.Proofs
