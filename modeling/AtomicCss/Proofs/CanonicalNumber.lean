import AtomicCss.Proofs.Idempotence
import Mathlib.Algebra.Order.Field.Rat
import Mathlib.Tactic.FieldSimp

/-!
# One spelling for each number

A number that the tokenizer reads without an exponent denotes its digits over a power of ten, under
its sign. Its canonical spelling denotes the same number and has nothing redundant. Fractions over
powers of ten are equal only if their digits are, once these neither begin nor end in zeros; so
numbers have one canonical spelling exactly if they are the same.
-/

namespace AtomicCss.Proofs

open Decimal Token

/-- The text of the number in a token. -/
def numberText? : Token → Option (List Char)
  | .number text | .percentage text | .dimension text _ => some text
  | _ => none

/-- The text of a number that the tokenizer reads, without an exponent. -/
structure IsDecimal (text : List Char) : Prop where
  read : ∃ value tokens, tokenize value = .ok tokens ∧ ∃ t ∈ tokens, numberText? t = some text
  plain : 'e' ∉ text ∧ 'E' ∉ text

/-- The number that a text without an exponent denotes. -/
def denoted (text : List Char) : ℚ :=
  let (sign, digits) := signSpan text
  let (whole, fraction) := (Text.splitOnce? '.' digits).getD (digits, [])
  (if sign = ['-'] then -1 else 1) * (digitsValue (whole ++ fraction) / 10 ^ fraction.length)

/-- A number with nothing to drop. -/
structure IsCanonical (text : List Char) : Prop where
  noPlus : '+' ∉ text
  noLeadingZero : ∀ sign rest, isSign sign → text = sign ++ '0' :: rest → rest = []
  noTrailingZero : '.' ∈ text → text.getLast? ≠ some '0'
  noNegativeZero : text.head? = some '-' → denoted text ≠ 0

section

variable {a b : List Char} {c d : Char}

lemma digit_lt (h : c.isDigit = true) : c.toNat - 48 < 10 := by
  have hrange := Char.isDigit_iff_toNat.1 h
  have hnine : '9'.toNat = 57 := rfl
  omega

lemma digit_inj (hc : c.isDigit = true) (hd : d.isDigit = true)
    (h : c.toNat - 48 = d.toNat - 48) : c = d := by
  have hrange := Char.isDigit_iff_toNat.1 hc
  have hrange' := Char.isDigit_iff_toNat.1 hd
  have hzero : '0'.toNat = 48 := rfl
  exact Char.toNat_inj.1 (by omega)

lemma digitsValue_concat (digits : List Char) (c : Char) :
    digitsValue (digits ++ [c]) = 10 * digitsValue digits + (c.toNat - 48) := by
  rw [digitsValue, List.foldl_append]
  rfl

/-- As many digits of one value are the same digits. -/
lemma eq_of_digitsValue (ha : IsRun a) (hb : IsRun b) (hlen : a.length = b.length)
    (h : digitsValue a = digitsValue b) : a = b := by
  induction a using List.reverseRecOn generalizing b with
  | nil => exact (List.length_eq_zero_iff.1 hlen.symm).symm
  | append_singleton a c ih =>
    rcases List.eq_nil_or_concat' b with rfl | ⟨b, d, rfl⟩
    · simp at hlen
    · obtain ⟨ha, hc⟩ := List.forall_mem_append.1 ha
      obtain ⟨hb, hd⟩ := List.forall_mem_append.1 hb
      have hc := hc c (List.mem_singleton_self c)
      have hd := hd d (List.mem_singleton_self d)
      have hclt := digit_lt hc
      have hdlt := digit_lt hd
      rw [digitsValue_concat, digitsValue_concat] at h
      rw [ih ha hb (by simpa using hlen) (by omega), digit_inj hc hd (by omega)]

/-- What stands behind the point is told apart by its length, what stands before it has no zero in
front. -/
lemma eq_of_sides {whole whole' fraction fraction' : List Char} (hrun : IsRun (whole ++ fraction))
    (hrun' : IsRun (whole' ++ fraction')) (hlen : fraction.length = fraction'.length)
    (hle : whole.length ≤ whole'.length) (hhead : whole'.head? ≠ some '0')
    (h : digitsValue (whole ++ fraction) = digitsValue (whole' ++ fraction')) :
    whole = whole' ∧ fraction = fraction' := by
  have hpadded : List.replicate (whole'.length - whole.length) '0' ++ (whole ++ fraction) =
      whole' ++ fraction' := by
    refine eq_of_digitsValue ((isRun_zeros _).append hrun) hrun' ?_ ?_
    · simp only [List.length_append, List.length_replicate]
      omega
    · rw [digitsValue_leading, h]
  rw [← List.append_assoc] at hpadded
  obtain ⟨hwhole, hfraction⟩ := List.append_inj' hpadded hlen
  cases hmissing : whole'.length - whole.length with
  | zero =>
    rw [hmissing] at hwhole
    exact ⟨hwhole, hfraction⟩
  | succ n =>
    rw [hmissing] at hwhole
    exact (hhead (by rw [← hwhole]; rfl)).elim

lemma digitsValue_pos (hrun : IsRun a) (hc : c ∈ a) (hne : c ≠ '0') : 0 < digitsValue a := by
  refine Nat.pos_of_ne_zero fun hzero => hne ?_
  have hzeros : a = List.replicate a.length '0' := by
    refine eq_of_digitsValue hrun (isRun_zeros _) List.length_replicate.symm ?_
    have hvalue := digitsValue_leading a.length []
    rw [List.append_nil] at hvalue
    rw [hzero, hvalue]
    rfl
  exact List.eq_of_mem_replicate (hzeros ▸ hc)

/-- A fraction that does not end in a zero needs all of its places. -/
lemma length_le_of_value {n : Nat} {places : Nat} (hrun : IsRun (a ++ b))
    (hlast : b.getLast? ≠ some '0')
    (h : n * 10 ^ b.length = digitsValue (a ++ b) * 10 ^ places) : b.length ≤ places := by
  by_contra hlt
  obtain ⟨more, hmore⟩ := Nat.exists_eq_add_of_lt (Nat.not_le.1 hlt)
  rcases List.eq_nil_or_concat' b with rfl | ⟨front, c, rfl⟩
  · simp at hmore
  · have hten : digitsValue (a ++ (front ++ [c])) = 10 * (n * 10 ^ more) := by
      have hpow : 0 < 10 ^ places := Nat.pow_pos (by decide)
      refine Nat.eq_of_mul_eq_mul_right hpow ?_
      rw [← h, hmore]
      ring
    rw [← List.append_assoc] at hrun hten
    rw [digitsValue_concat] at hten
    have hc : c.isDigit = true := hrun c (by simp)
    have hclt := digit_lt hc
    have hzero : c = '0' := by
      refine digit_inj hc rfl ?_
      have hvalue : '0'.toNat - 48 = 0 := rfl
      omega
    exact hlast (by simp [hzero])

end

namespace NumberParts

variable {p q : NumberParts}

/-- The number without its sign. -/
def magnitude (p : NumberParts) : ℚ :=
  digitsValue (p.whole ++ p.fraction) / 10 ^ p.fraction.length

/-- No zeros at the ends of the digits. -/
structure Reduced (p : NumberParts) : Prop where
  whole : p.whole.head? ≠ some '0'
  fraction : p.fraction.getLast? ≠ some '0'

lemma run (p : NumberParts) : IsRun (p.whole ++ p.fraction) :=
  p.whole_run.append p.fraction_run

lemma denoted_text (h : p.exponent = []) :
    denoted p.text = (if p.sign = ['-'] then -1 else 1) * p.magnitude := by
  have htext : p.text = p.sign ++ (p.whole ++ pointed p.fraction) := by
    rw [text, h, List.append_nil, List.append_assoc]
  have hhead := p.head_behind_sign []
  rw [List.append_nil] at hhead
  unfold denoted
  rw [htext, signSpan_append_of_sign p.sign_ok hhead]
  dsimp only
  rw [p.splitOnce?_digits]
  rfl

lemma magnitude_nonneg (p : NumberParts) : 0 ≤ p.magnitude := by
  unfold magnitude
  positivity

lemma Reduced.magnitude_pos (h : p.Reduced) : 0 < p.magnitude := by
  have hvalue : 0 < digitsValue (p.whole ++ p.fraction) := by
    rcases p.some_digits with hne | hne
    · obtain ⟨c, cs, hwhole⟩ := List.exists_cons_of_ne_nil hne
      refine digitsValue_pos (c := c) p.run (by simp [hwhole]) ?_
      rintro rfl
      exact h.whole (by rw [hwhole]; rfl)
    · obtain ⟨front, c, hfraction⟩ := (List.eq_nil_or_concat' p.fraction).resolve_left hne
      refine digitsValue_pos (c := c) p.run (by simp [hfraction]) ?_
      rintro rfl
      exact h.fraction (by simp [hfraction])
  unfold magnitude
  positivity

/-- Equal fractions over powers of ten have the same digits, if these have no zeros at the ends. -/
lemma Reduced.eq_of_magnitude (hp : p.Reduced) (hq : q.Reduced) (h : p.magnitude = q.magnitude) :
    p.whole = q.whole ∧ p.fraction = q.fraction := by
  have hcross : digitsValue (p.whole ++ p.fraction) * 10 ^ q.fraction.length =
      digitsValue (q.whole ++ q.fraction) * 10 ^ p.fraction.length := by
    unfold magnitude at h
    rw [div_eq_div_iff (by positivity) (by positivity)] at h
    exact_mod_cast h
  have hlen : p.fraction.length = q.fraction.length :=
    Nat.le_antisymm (length_le_of_value p.run hp.fraction hcross.symm)
      (length_le_of_value q.run hq.fraction hcross)
  have hvalue : digitsValue (p.whole ++ p.fraction) = digitsValue (q.whole ++ q.fraction) := by
    rw [hlen] at hcross
    exact Nat.eq_of_mul_eq_mul_right (Nat.pow_pos (by decide)) hcross
  rcases Nat.le_total p.whole.length q.whole.length with hle | hle
  · exact eq_of_sides p.run q.run hlen hle hq.whole hvalue
  · obtain ⟨hwhole, hfraction⟩ := eq_of_sides q.run p.run hlen.symm hle hp.whole hvalue.symm
    exact ⟨hwhole.symm, hfraction.symm⟩

/-- The canonical spelling is zero or reduced, without a plus sign. -/
lemma canonical_cases (h : p.exponent = []) : p.canonical = .zero ∨
    p.canonical.Reduced ∧ p.canonical.exponent = [] ∧
      p.canonical.sign = if p.sign = ['-'] then ['-'] else [] := by
  by_cases hkept : p.keptWhole ≠ [] ∨ p.keptFraction ≠ []
  · obtain ⟨hsign, hwhole, hfraction, hnone⟩ := canonical_parts h hkept
    have hdropped : ∀ digits : List Char, (digits.dropWhile (· == '0')).head? ≠ some '0' := by
      intro digits hzero
      have hhead := List.head?_dropWhile_not (· == '0') digits
      rw [hzero] at hhead
      exact absurd hhead (by decide)
    refine .inr ⟨⟨?_, ?_⟩, hnone, hsign⟩
    · rw [hwhole]
      exact hdropped p.whole
    · rw [hfraction, keptFraction, dropEndWhile, List.getLast?_reverse]
      exact hdropped p.fraction.reverse
  · rw [not_or, not_not, not_not] at hkept
    exact .inl (canonical_of_zeros h hkept.1 hkept.2)

lemma exponent_canonical (h : p.exponent = []) : p.canonical.exponent = [] := by
  rcases canonical_cases h with heq | hreduced
  · rw [heq]
    rfl
  · exact hreduced.2.1

lemma magnitude_zero : zero.magnitude = 0 := by
  simp [magnitude, zero, digitsValue]

/-- The zeros that are dropped do not count. -/
lemma magnitude_canonical (h : p.exponent = []) : p.canonical.magnitude = p.magnitude := by
  obtain ⟨n, hdigits, hlength⟩ := p.kept_digits
  have hkept : p.magnitude =
      digitsValue (p.keptWhole ++ p.keptFraction) / 10 ^ p.keptFraction.length := by
    unfold magnitude
    rw [hdigits, hlength]
    push_cast
    field_simp
    ring
  rw [hkept]
  by_cases hsome : p.keptWhole ≠ [] ∨ p.keptFraction ≠ []
  · obtain ⟨_, hwhole', hfraction', _⟩ := canonical_parts h hsome
    rw [magnitude, hwhole', hfraction']
  · rw [not_or, not_not, not_not] at hsome
    rw [canonical_of_zeros h hsome.1 hsome.2, magnitude_zero, hsome.1, hsome.2]
    simp [digitsValue]

/-- The canonical spelling denotes the same number. -/
lemma denoted_canonical (h : p.exponent = []) : denoted p.canonical.text = denoted p.text := by
  rw [denoted_text (exponent_canonical h), denoted_text h, magnitude_canonical h]
  rcases canonical_cases h with heq | ⟨_, _, hsign⟩
  · have hzero : p.magnitude = 0 := by
      rw [← magnitude_canonical h, heq, magnitude_zero]
    rw [hzero, mul_zero, mul_zero]
  · rw [hsign]
    by_cases hminus : p.sign = ['-'] <;> simp [hminus]

/-- A sign counts unless the number is zero. -/
lemma eq_of_signed {x y : ℚ} {sign sign' : List Char} (hx : 0 ≤ x) (hy : 0 ≤ y)
    (h : (if sign = ['-'] then -1 else 1) * x = (if sign' = ['-'] then -1 else 1) * y) :
    x = y ∧ (x ≠ 0 → (sign = ['-'] ↔ sign' = ['-'])) := by
  by_cases hminus : sign = ['-'] <;> by_cases hminus' : sign' = ['-'] <;>
    simp only [hminus, hminus', if_true, if_false, neg_mul, one_mul, neg_inj] at h ⊢
  · exact ⟨h, by simp⟩
  · obtain rfl : x = 0 := by linarith
    exact ⟨by linarith, by simp⟩
  · obtain rfl : x = 0 := by linarith
    exact ⟨by linarith, by simp⟩
  · exact ⟨h, by simp⟩

/-- Numbers that are the same have one canonical spelling. -/
lemma canonical_congr (hp : p.exponent = []) (hq : q.exponent = [])
    (h : denoted p.text = denoted q.text) : p.canonical.text = q.canonical.text := by
  rw [denoted_text hp, denoted_text hq] at h
  obtain ⟨hmagnitude, hsigns⟩ := eq_of_signed p.magnitude_nonneg q.magnitude_nonneg h
  have hkept : p.canonical.magnitude = q.canonical.magnitude := by
    rw [magnitude_canonical hp, magnitude_canonical hq, hmagnitude]
  rcases canonical_cases hp with heq | ⟨hreduced, hnone, hsign⟩ <;>
    rcases canonical_cases hq with heq' | ⟨hreduced', hnone', hsign'⟩
  · rw [heq, heq']
  · rw [heq, magnitude_zero] at hkept
    exact (hreduced'.magnitude_pos.ne hkept).elim
  · rw [heq', magnitude_zero] at hkept
    exact (hreduced.magnitude_pos.ne' hkept).elim
  · obtain ⟨hwhole, hfraction⟩ := hreduced.eq_of_magnitude hreduced' hkept
    have hne : p.magnitude ≠ 0 := magnitude_canonical hp ▸ hreduced.magnitude_pos.ne'
    refine text_congr ?_ hwhole hfraction (by rw [hnone, hnone'])
    rw [hsign, hsign']
    exact if_congr (hsigns hne) rfl rfl

/-- A reduced number without a plus sign has nothing to drop. -/
lemma Reduced.isCanonical (h : p.Reduced) (hexponent : p.exponent = []) (hsign : p.sign ≠ ['+']) :
    IsCanonical p.text where
  noPlus := by
    have hplus : ∀ {digits : List Char}, IsRun digits → '+' ∉ digits := fun hrun =>
      hrun.not_mem (by decide)
    have hpointed : '+' ∉ pointed p.fraction := by
      unfold pointed
      split
      · exact List.not_mem_nil
      · simpa using hplus p.fraction_run
    have hown : '+' ∉ p.sign := by
      rcases p.sign_ok with heq | heq | heq
      · simp [heq]
      · exact (hsign heq).elim
      · simp [heq]
    simp [text, hexponent, hown, hplus p.whole_run, hpointed]
  noLeadingZero := by
    intro sign rest hother htext
    have hhead := p.head_behind_sign []
    rw [List.append_nil] at hhead
    have hsplit : (p.sign, p.whole ++ pointed p.fraction) = (sign, '0' :: rest) := by
      rw [← signSpan_append_of_sign p.sign_ok hhead, ← signSpan_append_of_sign hother,
        ← htext, text, hexponent, List.append_nil, List.append_assoc]
      simp
    have hdigits := (Prod.mk.inj hsplit).2
    cases hwhole : p.whole with
    | nil =>
      have hne : p.fraction ≠ [] := p.some_digits.resolve_left (by simp [hwhole])
      rw [hwhole, pointed_of_ne_nil hne] at hdigits
      exact absurd (List.cons.inj hdigits).1 (by decide)
    | cons c cs =>
      rw [hwhole] at hdigits
      exact (h.whole (by rw [hwhole, (List.cons.inj hdigits).1]; rfl)).elim
  noTrailingZero := by
    intro hpoint
    have hne : p.fraction ≠ [] := by
      intro hnil
      rw [text, hexponent, hnil, pointed_nil, List.append_nil, List.append_nil] at hpoint
      rcases List.mem_append.1 hpoint with hmem | hmem
      · rcases p.sign_ok with heq | heq | heq <;> simp [heq] at hmem
      · exact p.whole_run.not_mem (by decide) hmem
    obtain ⟨front, c, hfraction⟩ := (List.eq_nil_or_concat' p.fraction).resolve_left hne
    have hlast := h.fraction
    rw [hfraction] at hlast
    rw [text, hexponent, List.append_nil, pointed_of_ne_nil hne, hfraction, ← List.cons_append,
      ← List.append_assoc, List.getLast?_concat]
    rwa [List.getLast?_concat] at hlast
  noNegativeZero := by
    intro _ hzero
    rw [denoted_text hexponent] at hzero
    have hpositive := h.magnitude_pos
    split at hzero <;> linarith

lemma isCanonical_canonical (h : p.exponent = []) : IsCanonical p.canonical.text := by
  rcases canonical_cases h with heq | ⟨hreduced, hnone, hsign⟩
  · rw [heq]
    refine ⟨by decide, ?_, by decide, by decide⟩
    intro sign rest hsign htext
    have hlength := congrArg List.length htext
    rw [List.length_append, List.length_cons] at hlength
    have hone : zero.text.length = 1 := rfl
    exact List.length_eq_zero_iff.1 (by omega)
  · refine hreduced.isCanonical hnone ?_
    rw [hsign]
    split <;> decide

end NumberParts

lemma HasParts.exists_parts {t : Token} {text : List Char} (h : HasParts t)
    (htext : numberText? t = some text) : ∃ p : NumberParts, text = p.text := by
  have hnumber : ∃ unit, t = .number text ∨ t = .percentage text ∨ t = .dimension text unit := by
    cases t with
    | number | percentage => exact ⟨[], by simpa [numberText?] using htext⟩
    | dimension own unit => exact ⟨unit, by simpa [numberText?] using htext⟩
    | _ => cases htext
  obtain ⟨unit, hnumber⟩ := hnumber
  obtain ⟨p, hp, _⟩ := h text unit hnumber
  exact ⟨p, hp⟩

lemma exists_parts_of_read {value : List Char} {tokens : List Token} {t : Token} {text : List Char}
    (h : tokenize value = .ok tokens) (ht : t ∈ tokens) (htext : numberText? t = some text) :
    ∃ p : NumberParts, text = p.text := by
  have hparts := (tokenize_eq_ok.1 h).1.forall (fun _ _ _ htaken => hasParts_of_taken htaken) t ht
  exact hparts.exists_parts htext

/-- The numbers without an exponent that the tokenizer reads are those made of parts. -/
lemma isDecimal_iff {text : List Char} :
    IsDecimal text ↔ ∃ p : NumberParts, p.exponent = [] ∧ text = p.text := by
  constructor
  · rintro ⟨⟨value, tokens, htokens, t, ht, htext⟩, hsmall, hcapital⟩
    obtain ⟨p, rfl⟩ := exists_parts_of_read htokens ht htext
    refine ⟨p, ?_, rfl⟩
    have hnone : (p.text.any fun c => c == 'e' || c == 'E') = false := by
      rw [List.any_eq_false]
      intro c hc hletter
      rcases Bool.or_eq_true_iff.1 hletter with he | he
      · exact hsmall (eq_of_beq he ▸ hc)
      · exact hcapital (eq_of_beq he ▸ hc)
    simpa [p.any_exponent] using hnone
  · rintro ⟨p, hexponent, rfl⟩
    have hreads : Reads (.number p.text) [] :=
      reads_number ⟨rfl, fun _ _ => rfl, fun _ => rfl⟩ nofun
    have hlexed : Lexed p.text [.number p.text] := lexed_of_reads hreads
    have hnone : (p.text.any fun c => c == 'e' || c == 'E') = false := by
      rw [p.any_exponent, hexponent]
      rfl
    rw [List.any_eq_false] at hnone
    refine ⟨⟨p.text, _, tokenize_eq_ok.2 ⟨hlexed, rfl⟩, _, List.mem_singleton_self _, rfl⟩, ?_, ?_⟩
    · exact fun hmem => hnone 'e' hmem rfl
    · exact fun hmem => hnone 'E' hmem rfl

/-- Two texts that denote one number have one canonical spelling, which denotes it too and has
nothing redundant; and only such texts have it. -/
theorem canonical_spelling {text other : List Char} (htext : IsDecimal text)
    (hother : IsDecimal other) :
    IsDecimal (canonical text) ∧ denoted (canonical text) = denoted text ∧
      IsCanonical (canonical text) ∧
      (canonical text = canonical other ↔ denoted text = denoted other) := by
  obtain ⟨p, hp, rfl⟩ := isDecimal_iff.1 htext
  obtain ⟨q, hq, rfl⟩ := isDecimal_iff.1 hother
  rw [p.canonical_text, q.canonical_text]
  refine ⟨isDecimal_iff.2 ⟨p.canonical, p.exponent_canonical hp, rfl⟩, p.denoted_canonical hp,
    p.isCanonical_canonical hp, fun h => ?_, NumberParts.canonical_congr hp hq⟩
  rw [← NumberParts.denoted_canonical hp, h, NumberParts.denoted_canonical hq]

theorem canonical_spelling_half :
    IsDecimal "+00.50".toList ∧ IsDecimal ".5".toList ∧
      IsDecimal (canonical "+00.50".toList) ∧
      denoted (canonical "+00.50".toList) = denoted "+00.50".toList ∧
      IsCanonical (canonical "+00.50".toList) ∧
      (canonical "+00.50".toList = canonical ".5".toList ↔
        denoted "+00.50".toList = denoted ".5".toList) := by
  have hread : ∀ text : List Char, tokenize text = .ok [.number text] →
      ('e' ∉ text ∧ 'E' ∉ text) → IsDecimal text := fun text htokens hplain =>
    ⟨⟨text, _, htokens, _, List.mem_singleton_self _, rfl⟩, hplain⟩
  have htext := hread "+00.50".toList (by decide +kernel) (by decide)
  have hother := hread ".5".toList (by decide +kernel) (by decide)
  exact ⟨htext, hother, canonical_spelling htext hother⟩

end AtomicCss.Proofs
