import AtomicCss.Proofs.Packing

/-!
# Fractions rounded to doubles

The double nearest to a fraction depends on the value of the fraction alone. Division and products
round a fraction that is written with enough bits, so equal values are rounded alike, and a fraction
above half the least double is not rounded to zero.
-/

namespace AtomicCss.Proofs

open Float.Model Float.Model.UnpackedFloat

/-- The fraction `num / den` in whole units, with the next bit and whether anything is behind it. -/
def quotient (num den : Nat) : ExtendedMantissa :=
  ⟨num / den, 2 * num / den % 2 != 0, 2 * num % den != 0⟩

lemma two_mul_eq (num den : Nat) : 2 * num = den * (2 * (num / den)) + 2 * (num % den) := by
  have h := Nat.div_add_mod num den
  calc 2 * num = 2 * (den * (num / den) + num % den) := by rw [h]
    _ = den * (2 * (num / den)) + 2 * (num % den) := by ring

/-- The bit behind the whole units is decided by the remainder. -/
lemma next_bit (num : Nat) {den : Nat} (h : 0 < den) :
    2 * num / den % 2 = 2 * (num % den) / den % 2 := by
  rw [two_mul_eq num den, Nat.mul_add_div h, Nat.mul_add_mod]

lemma next_rest (num den : Nat) : 2 * num % den = 2 * (num % den) % den := by
  rw [two_mul_eq num den, Nat.mul_add_mod]

lemma ofMantissaAndAccuracy_fraction (num : Nat) {den : Nat} (h : 0 < den) :
    .ofMantissaAndAccuracy (num / den) (accuracyOfFraction (num % den) den) = quotient num den := by
  have hlt := Nat.mod_lt num h
  unfold quotient accuracyOfFraction
  rw [next_bit num h, next_rest]
  generalize num % den = r at hlt
  by_cases hzero : r = 0
  · subst hzero
    simp [ExtendedMantissa.ofMantissaAndAccuracy]
  · rw [if_neg hzero]
    rcases Nat.lt_trichotomy (2 * r) den with hr | hr | hr
    · rw [Nat.compare_eq_lt.2 hr, Nat.div_eq_of_lt hr, Nat.mod_eq_of_lt hr]
      simp [ExtendedMantissa.ofMantissaAndAccuracy, hzero]
    · rw [Nat.compare_eq_eq.2 hr, hr, Nat.div_self h, Nat.mod_self]
      rfl
    · have hone : 2 * r / den = 1 := by
        apply Nat.div_eq_of_lt_le <;> omega
      have hrest : 2 * r % den = 2 * r - den := by
        rw [Nat.mod_eq_sub_mod (by omega), Nat.mod_eq_of_lt (by omega)]
      have hbehind : 2 * r - den ≠ 0 := by omega
      rw [Nat.compare_eq_gt.2 hr, hone, hrest]
      simp [ExtendedMantissa.ofMantissaAndAccuracy, hbehind]

lemma quotient_mul {c : Nat} (hc : 0 < c) (num den : Nat) :
    quotient (c * num) (c * den) = quotient num den := by
  unfold quotient
  have hdouble : 2 * (c * num) = c * (2 * num) := by ring
  have hbehind : c * (2 * num % den) != 0 ↔ 2 * num % den != 0 := by
    simp [Nat.pos_iff_ne_zero.1 hc]
  rw [hdouble, Nat.mul_div_mul_left _ _ hc, Nat.mul_div_mul_left _ _ hc, Nat.mul_mod_mul_left,
    Bool.eq_iff_iff.2 hbehind]

lemma shiftRightOne_quotient (num : Nat) {den : Nat} (h : 0 < den) :
    (quotient num den).shiftRightOne = quotient num (2 * den) := by
  have hhalf : num / den / 2 = num / (2 * den) := by
    rw [Nat.div_div_eq_div_mul, Nat.mul_comm]
  have hbit : 2 * num / (2 * den) = num / den := Nat.mul_div_mul_left _ _ (by decide)
  have hrest : 2 * num % (2 * den) = 2 * (num % den) := Nat.mul_mod_mul_left _ _ _
  have hsticky : (2 * num / den % 2 != 0 || 2 * num % den != 0) = (2 * (num % den) != 0) := by
    have hlt := Nat.mod_lt num h
    rw [next_bit num h, next_rest]
    generalize num % den = r at hlt
    by_cases hzero : r = 0
    · subst hzero
      simp
    · have hsplit := Nat.div_add_mod (2 * r) den
      have hne : 2 * r / den % 2 ≠ 0 ∨ 2 * r % den ≠ 0 := by
        by_contra hnone
        rw [not_or, not_not, not_not] at hnone
        have hsmall : 2 * r / den < 2 := Nat.div_lt_of_lt_mul (by omega)
        rw [← Nat.mod_eq_of_lt hsmall, hnone.1, hnone.2] at hsplit
        omega
      have hdouble : (2 * r != 0) = true := by simp [hzero]
      rw [hdouble]
      simpa using hne
  unfold ExtendedMantissa.shiftRightOne quotient
  simp only [hhalf, hbit, hrest, hsticky]

lemma shiftRight_quotient (num : Nat) {den : Nat} (h : 0 < den) (n : Nat) :
    quotient num den >>> n = quotient num (2 ^ n * den) := by
  change n.repeat ExtendedMantissa.shiftRightOne (quotient num den) = _
  induction n with
  | zero => simp [Nat.repeat]
  | succ n ih =>
    have hpos : 0 < 2 ^ n * den := Nat.mul_pos (Nat.pow_pos (by decide)) h
    rw [Nat.repeat, ih, shiftRightOne_quotient num hpos, Nat.pow_succ, Nat.mul_comm (2 ^ n) 2,
      Nat.mul_assoc]

/-- The place of the last bit that a double with this leading bit has. -/
def lastPlace (mantissa : Nat) (e : Int) : Int :=
  max ((mantissa.log2 : Int) + 1 + e - 53) (-1074)

/-- How many bits stand behind that place. -/
def dropped (mantissa : Nat) (e : Int) : Nat :=
  (lastPlace mantissa e - e).toNat

/-- A rounded mantissa may have become too long by one bit. -/
def settled (sign : Sign) (mantissa : Nat) (e : Int) : UnpackedFloat :=
  let kept := (ExtendedMantissa.ofMantissaAndAccuracy mantissa .exact >>> dropped mantissa e).mantissa
  if h : kept = 0 then .zero sign
  else .finite sign kept (e + dropped mantissa e) (Nat.pos_of_ne_zero h)

lemma targetExponent_eq (mantissa : Nat) (e : Int) :
    Format.binary64.targetExponent (totalExponent mantissa e) = lastPlace mantissa e :=
  rfl

lemma shiftToTargetExponent_eq (mantissa : Nat) (e : Int) (accuracy : Accuracy) :
    shiftToTargetExponent .binary64 mantissa e accuracy =
      (ExtendedMantissa.ofMantissaAndAccuracy mantissa accuracy >>> dropped mantissa e,
        e + dropped mantissa e) := by
  unfold shiftToTargetExponent shiftToExponent
  rw [targetExponent_eq]
  rfl

lemma roundWithAccuracy_eq (sign : Sign) (mantissa : Nat) (e : Int) (accuracy : Accuracy) :
    roundWithAccuracy .binary64 sign mantissa e accuracy =
      settled sign (ExtendedMantissa.ofMantissaAndAccuracy mantissa accuracy >>>
        dropped mantissa e).roundedMantissa (e + dropped mantissa e) := by
  unfold roundWithAccuracy
  simp only [shiftToTargetExponent_eq]
  rfl

/-- The fraction `num / den` in units of `2 ^ e`, rounded to a double. -/
def rounded (sign : Sign) (num den : Nat) (e : Int) : UnpackedFloat :=
  let behind := dropped (num / den) e
  settled sign (quotient num (2 ^ behind * den)).roundedMantissa (e + behind)

lemma roundWithAccuracy_fraction (sign : Sign) (num : Nat) {den : Nat} (h : 0 < den) (e : Int) :
    roundWithAccuracy .binary64 sign (num / den) e (accuracyOfFraction (num % den) den) =
      rounded sign num den e := by
  rw [roundWithAccuracy_eq, ofMantissaAndAccuracy_fraction num h, shiftRight_quotient num h]
  rfl

/-- Fractions of one value are rounded alike. -/
lemma rounded_cross {num den num' den' : Nat} (hden : 0 < den) (hden' : 0 < den')
    (h : num * den' = num' * den) (sign : Sign) (e : Int) :
    rounded sign num den e = rounded sign num' den' e := by
  have hscale : ∀ {n d c : Nat}, 0 < c → rounded sign (c * n) (c * d) e = rounded sign n d e := by
    intro n d c hc
    unfold rounded
    dsimp only
    rw [Nat.mul_div_mul_left _ _ hc, Nat.mul_left_comm, quotient_mul hc]
  rw [← hscale (n := num) (d := den) hden', ← hscale (n := num') (d := den') hden,
    Nat.mul_comm den' num, h, Nat.mul_comm num', Nat.mul_comm den']

/-- The fraction has all the bits of a double, so that no digit of it matters but whether there are
more. -/
def Fine (num den : Nat) (e : Int) : Prop :=
  2 ^ 52 ≤ num / den ∨ e ≤ -1074

lemma half_double (num den : Nat) : 2 * num / den / 2 = num / den := by
  rw [Nat.div_div_eq_div_mul, Nat.mul_comm den, Nat.mul_div_mul_left _ _ (by decide)]

lemma log2_double {num den : Nat} (h : num / den ≠ 0) :
    (2 * num / den).log2 = (num / den).log2 + 1 := by
  have hhalf := half_double num den
  have htwo : 2 * num / den ≥ 2 := by
    generalize num / den = q at h hhalf
    omega
  rw [Nat.log2_def (2 * num / den), if_pos htwo, hhalf]

lemma Fine.double {num den : Nat} {e : Int} (h : Fine num den e) : Fine (2 * num) den (e - 1) := by
  have hhalf := half_double num den
  rcases h with h | h
  · exact .inl (by omega)
  · exact .inr (by omega)

/-- One more bit in front is one more that is dropped. -/
lemma dropped_double {num den : Nat} {e : Int} (h : Fine num den e) :
    dropped (2 * num / den) (e - 1) = dropped (num / den) e + 1 := by
  unfold dropped lastPlace
  by_cases hzero : num / den = 0
  · have he : e ≤ -1074 := h.resolve_left (by omega)
    have hone : (2 * num / den).log2 = 0 := by
      have hhalf := half_double num den
      rw [Nat.log2_def, if_neg]
      omega
    rw [hzero, hone]
    simp only [Nat.log2_zero]
    omega
  · rw [log2_double hzero]
    rcases h with h | h
    · have hlog : 52 ≤ (num / den).log2 := (Nat.le_log2 hzero).2 h
      push_cast
      omega
    · push_cast
      omega

lemma rounded_double {num den : Nat} {e : Int} (h : Fine num den e) (sign : Sign) :
    rounded sign (2 * num) den (e - 1) = rounded sign num den e := by
  unfold rounded
  dsimp only
  rw [dropped_double h, pow_succ, Nat.mul_comm _ 2, Nat.mul_assoc, quotient_mul (by decide)]
  congr 1
  push_cast
  ring

lemma rounded_doubled {num den : Nat} {e : Int} (h : Fine num den e) (sign : Sign) (n : Nat) :
    rounded sign (2 ^ n * num) den (e - n) = rounded sign num den e := by
  have hfine : ∀ n : Nat, Fine (2 ^ n * num) den (e - n) := by
    intro n
    induction n with
    | zero => simpa using h
    | succ n ih =>
      have hnext := ih.double
      rwa [← Nat.mul_assoc, ← Nat.pow_succ', Int.sub_sub] at hnext
  induction n with
  | zero => simp
  | succ n ih =>
    rw [← ih, ← rounded_double (hfine n), ← Nat.mul_assoc, ← Nat.pow_succ', Int.sub_sub]
    rfl

/-- How often the least double goes into one. -/
def leastInOne : Nat := 2 ^ 1074

lemma two_pow_le_leastInOne {n : Nat} (h : n ≤ 1074) : 2 ^ n ≤ leastInOne := by
  obtain ⟨k, hk, hpower⟩ : ∃ k, k = 1074 ∧ leastInOne = 2 ^ k := ⟨1074, rfl, rfl⟩
  rw [hpower]
  exact Nat.pow_le_pow_right (by decide) (hk ▸ h)

/-- The double nearest to `num / den`. -/
def nearestTo (sign : Sign) (num den : Nat) : UnpackedFloat :=
  rounded sign (leastInOne * num) den (-1074)

lemma nearestTo_cross {num den num' den' : Nat} (hden : 0 < den) (hden' : 0 < den')
    (h : num * den' = num' * den) (sign : Sign) :
    nearestTo sign num den = nearestTo sign num' den' :=
  rounded_cross hden hden' (by rw [Nat.mul_assoc, h, Nat.mul_assoc]) sign _

/-- What matters of a fine fraction is its value. -/
lemma rounded_eq_nearestTo {num den num' den' : Nat} {e : Int} (hden : 0 < den) (hden' : 0 < den')
    (hfine : Fine num den e) {a b : Nat} (he : e = (a : Int) - b)
    (hvalue : num * den' * 2 ^ a = num' * den * 2 ^ b) (sign : Sign) :
    rounded sign num den e = nearestTo sign num' den' := by
  have hpow : ∀ n, 0 < 2 ^ n := fun n => Nat.pow_pos (by decide)
  have hcross : ∀ {k j c : Nat}, b + k = a + c + j →
      2 ^ k * num * den' = 2 ^ c * num' * (2 ^ j * den) := by
    intro k j c hkj
    apply Nat.eq_of_mul_eq_mul_left (hpow b)
    calc 2 ^ b * (2 ^ k * num * den') = 2 ^ (b + k) * (num * den') := by ring
      _ = 2 ^ c * 2 ^ j * (num * den' * 2 ^ a) := by rw [hkj]; ring
      _ = 2 ^ c * 2 ^ j * (num' * den * 2 ^ b) := by rw [hvalue]
      _ = 2 ^ b * (2 ^ c * num' * (2 ^ j * den)) := by ring
  by_cases hlow : -1074 ≤ e
  · obtain ⟨k, hk⟩ := Int.le.dest hlow
    rw [← rounded_doubled hfine sign k, nearestTo, show e - k = -1074 by omega]
    refine rounded_cross hden hden' ?_ sign _
    rw [hcross (j := 0) (c := 1074) (by omega), Nat.pow_zero, Nat.one_mul, leastInOne]
  · obtain ⟨j, hj⟩ := Int.le.dest (show e ≤ -1074 by omega)
    have hcoarse : rounded sign num den e = rounded sign num (2 ^ j * den) (-1074) := by
      have hscaled : rounded sign num den e = rounded sign (2 ^ j * num) (2 ^ j * den) e :=
        rounded_cross hden (Nat.mul_pos (hpow j) hden) (by ring) sign e
      rw [hscaled, show e = -1074 - j by omega]
      exact rounded_doubled (.inr (Int.le_refl _)) sign j
    rw [hcoarse, nearestTo]
    refine rounded_cross (Nat.mul_pos (hpow j) hden) hden' ?_ sign _
    rw [leastInOne, ← hcross (k := 0) (by omega), Nat.pow_zero, Nat.one_mul]

lemma two_pow_log2_le {n : Nat} (h : 0 < n) : 2 ^ n.log2 ≤ n :=
  Nat.log2_self_le (Nat.ne_of_gt h)

/-- A quotient is rounded from the quotient of the mantissas with enough bits. -/
lemma div_finite {m₁ m₂ : Nat} {e₁ e₂ : Int} (h₁ : 0 < m₁) (h₂ : 0 < m₂) {num den : Nat}
    (hden : 0 < den) {a b : Nat} (he : e₁ - e₂ = (a : Int) - b)
    (hvalue : m₁ * den * 2 ^ a = num * m₂ * 2 ^ b) :
    UnpackedFloat.div .binary64 (.finite .positive m₁ e₁ h₁) (.finite .positive m₂ e₂ h₂) =
      nearestTo .positive num den := by
  let target := min (e₁ - e₂) (max (totalExponent m₁ e₁ - totalExponent m₂ e₂ - 53) (-1074))
  let shift := (e₁ - e₂ - target).toNat
  have hshift : (shift : Int) = e₁ - e₂ - target := Int.toNat_of_nonneg (by omega)
  have hdiv : UnpackedFloat.div .binary64 (.finite .positive m₁ e₁ h₁) (.finite .positive m₂ e₂ h₂)
      = roundWithAccuracy .binary64 .positive (m₁ <<< shift / m₂) target
        (accuracyOfFraction (m₁ <<< shift % m₂) m₂) := rfl
  have hfine : Fine (m₁ <<< shift) m₂ target := by
    by_cases hlow : target ≤ -1074
    · exact .inr hlow
    refine .inl ((Nat.le_div_iff_mul_le h₂).2 ?_)
    have hbits : m₂.log2 + 53 ≤ m₁.log2 + shift := by
      simp only [target, totalExponent] at hshift hlow
      omega
    calc 2 ^ 52 * m₂ ≤ 2 ^ 52 * 2 ^ (m₂.log2 + 1) :=
          Nat.mul_le_mul_left _ (Nat.le_of_lt Nat.lt_log2_self)
      _ = 2 ^ (m₂.log2 + 53) := by ring
      _ ≤ 2 ^ (m₁.log2 + shift) := Nat.pow_le_pow_right (by decide) hbits
      _ = 2 ^ m₁.log2 * 2 ^ shift := Nat.pow_add _ _ _
      _ ≤ m₁ * 2 ^ shift := Nat.mul_le_mul_right _ (two_pow_log2_le h₁)
      _ = m₁ <<< shift := (Nat.shiftLeft_eq _ _).symm
  rw [hdiv, roundWithAccuracy_fraction _ _ h₂]
  refine rounded_eq_nearestTo (a := a) (b := b + shift) h₂ hden hfine (by omega) ?_ _
  rw [Nat.shiftLeft_eq]
  calc m₁ * 2 ^ shift * den * 2 ^ a = m₁ * den * 2 ^ a * 2 ^ shift := by ring
    _ = num * m₂ * 2 ^ b * 2 ^ shift := by rw [hvalue]
    _ = num * m₂ * 2 ^ (b + shift) := by ring

/-- A product with enough bits. -/
lemma mul_finite {m₁ m₂ : Nat} {e₁ e₂ : Int} (h₁ : 0 < m₁) (h₂ : 0 < m₂)
    (hbits : 2 ^ 52 ≤ m₁ * m₂) {num den : Nat} (hden : 0 < den) {a b : Nat}
    (he : e₁ + e₂ = (a : Int) - b) (hvalue : m₁ * m₂ * den * 2 ^ a = num * 2 ^ b) :
    UnpackedFloat.mul .binary64 (.finite .positive m₁ e₁ h₁) (.finite .positive m₂ e₂ h₂) =
      nearestTo .positive num den := by
  have hmul : UnpackedFloat.mul .binary64 (.finite .positive m₁ e₁ h₁)
      (.finite .positive m₂ e₂ h₂) =
      roundWithAccuracy .binary64 .positive (m₁ * m₂ / 1) (e₁ + e₂)
        (accuracyOfFraction (m₁ * m₂ % 1) 1) := by
    rw [Nat.div_one, Nat.mod_one]
    rfl
  rw [hmul, roundWithAccuracy_fraction _ _ (by decide)]
  refine rounded_eq_nearestTo (by decide) hden (.inl (by simpa using hbits)) he ?_ _
  rw [Nat.mul_one]
  exact hvalue

lemma dropped_normal {mantissa : Nat} {e : Int} (hlog : mantissa.log2 = 52) (he : -1074 ≤ e) :
    dropped mantissa e = 0 := by
  unfold dropped lastPlace
  omega

/-- A mantissa of 53 bits needs no rounding. -/
lemma roundWithAccuracy_normal {mantissa : Nat} {e : Int} (hlog : mantissa.log2 = 52)
    (he : -1074 ≤ e) (hpos : 0 < mantissa) (sign : Sign) :
    roundWithAccuracy .binary64 sign mantissa e .exact = .finite sign mantissa e hpos := by
  have hexact : (ExtendedMantissa.ofMantissaAndAccuracy mantissa .exact >>> 0).roundedMantissa =
      mantissa := rfl
  rw [roundWithAccuracy_eq, dropped_normal hlog he, hexact]
  unfold settled
  dsimp only
  rw [Int.natCast_zero, Int.add_zero, dropped_normal hlog he]
  change (if h : mantissa = 0 then UnpackedFloat.zero sign else .finite sign mantissa (e + 0) _) = _
  rw [dif_neg (Nat.ne_of_gt hpos)]
  congr 1
  omega

lemma le_roundedMantissa (em : ExtendedMantissa) : em.mantissa ≤ em.roundedMantissa := by
  obtain ⟨mantissa, roundBit, stickyBit⟩ := em
  cases roundBit <;> cases stickyBit
  · exact Nat.le_refl _
  · exact Nat.le_refl _
  · exact Nat.le_add_right _ _
  · exact Nat.le_add_right _ _

lemma shiftRight_mantissa (mantissa n : Nat) :
    (ExtendedMantissa.ofMantissaAndAccuracy mantissa .exact >>> n).mantissa = mantissa / 2 ^ n := by
  change (n.repeat ExtendedMantissa.shiftRightOne _).mantissa = _
  induction n with
  | zero => exact (Nat.div_one _).symm
  | succ n ih =>
    change (n.repeat ExtendedMantissa.shiftRightOne _).mantissa / 2 = _
    rw [ih, Nat.div_div_eq_div_mul, Nat.pow_succ]

lemma dropped_eq {mantissa : Nat} {e : Int} (he : -1074 ≤ e) :
    dropped mantissa e = mantissa.log2 - 52 := by
  unfold dropped lastPlace
  omega

lemma log2_shifted {mantissa n : Nat} (hpos : 0 < mantissa) (hn : n ≤ mantissa.log2) :
    (mantissa / 2 ^ n).log2 = mantissa.log2 - n := by
  apply log2_of_range
  · rw [Nat.le_div_iff_mul_le (Nat.two_pow_pos n), ← Nat.pow_add, Nat.sub_add_cancel hn]
    exact two_pow_log2_le hpos
  · rw [Nat.div_lt_iff_lt_mul (Nat.two_pow_pos n), ← Nat.pow_add]
    calc mantissa < 2 ^ (mantissa.log2 + 1) := Nat.lt_log2_self
      _ = 2 ^ (mantissa.log2 - n + 1 + n) := by congr 1; omega

/-- A rounded mantissa that is not zero makes a double that fits. -/
lemma settled_fits {mantissa : Nat} {e : Int} (hpos : 0 < mantissa) (he : -1074 ≤ e)
    (hbits : 52 ≤ mantissa.log2 ∨ e = -1074) (sign : Sign) :
    ∃ (kept : Nat) (e' : Int) (hkept : 0 < kept), Fits kept e' ∧
      settled sign mantissa e = .finite sign kept e' hkept := by
  have hlog := log2_shifted hpos (show mantissa.log2 - 52 ≤ mantissa.log2 by omega)
  have hkept : 0 < mantissa / 2 ^ (mantissa.log2 - 52) := by
    apply Nat.div_pos _ (Nat.two_pow_pos _)
    calc 2 ^ (mantissa.log2 - 52) ≤ 2 ^ mantissa.log2 :=
          Nat.pow_le_pow_right (by decide) (Nat.sub_le _ _)
      _ ≤ mantissa := two_pow_log2_le hpos
  refine ⟨mantissa / 2 ^ (mantissa.log2 - 52), e + (mantissa.log2 - 52 : Nat), hkept,
    ⟨by omega, by omega, by omega⟩, ?_⟩
  unfold settled
  dsimp only
  simp only [shiftRight_mantissa, dropped_eq he]
  rw [dif_neg (Nat.ne_of_gt hkept)]

/-- More than half the least double is not rounded to zero. -/
lemma nearestTo_fits {num den : Nat} (hden : 0 < den) (h : den < 2 * (leastInOne * num))
    (sign : Sign) : ∃ (mantissa : Nat) (e : Int) (hpos : 0 < mantissa), Fits mantissa e ∧
      nearestTo sign num den = .finite sign mantissa e hpos := by
  unfold nearestTo rounded
  generalize leastInOne * num = units at h
  dsimp only
  rw [dropped_eq (Int.le_refl _)]
  generalize hbehind : (units / den).log2 - 52 = behind
  have hle := le_roundedMantissa (quotient units (2 ^ behind * den))
  have hmantissa : (quotient units (2 ^ behind * den)).mantissa = units / den / 2 ^ behind := by
    rw [Nat.div_div_eq_div_mul, Nat.mul_comm den]
    rfl
  rw [hmantissa] at hle
  by_cases hzero : units / den = 0
  · have hbelow : units < den := (Nat.div_eq_zero_iff_lt hden).1 hzero
    have hnone : behind = 0 := by
      rw [← hbehind, hzero]
      rfl
    subst hnone
    have hone : (quotient units (2 ^ 0 * den)).roundedMantissa = 1 := by
      have hbit : 2 * units / den = 1 := by
        apply Nat.div_eq_of_lt_le <;> omega
      have hrest : 2 * units % den ≠ 0 := by
        rw [Nat.mod_eq_sub_mod (by omega), Nat.mod_eq_of_lt (by omega)]
        omega
      have hsticky : (2 * units % den != 0) = true := by simpa using hrest
      unfold quotient
      rw [Nat.pow_zero, Nat.one_mul, hzero, hbit, hsticky]
      rfl
    rw [hone]
    exact settled_fits (by decide) (Int.le_refl _) (.inr rfl) sign
  · have hlog := log2_shifted (Nat.pos_of_ne_zero hzero)
      (show behind ≤ (units / den).log2 by omega)
    have hpositive : 0 < units / den / 2 ^ behind := by
      apply Nat.div_pos _ (Nat.two_pow_pos _)
      calc 2 ^ behind ≤ 2 ^ (units / den).log2 := Nat.pow_le_pow_right (by decide) (by omega)
        _ ≤ units / den := two_pow_log2_le (Nat.pos_of_ne_zero hzero)
    refine settled_fits (Nat.lt_of_lt_of_le hpositive hle) (by omega) ?_ sign
    rcases Nat.eq_zero_or_pos behind with hnone | hsome
    · exact .inr (by omega)
    · refine .inl ((Nat.le_log2 (by omega)).2 ?_)
      calc 2 ^ 52 ≤ units / den / 2 ^ behind :=
            (Nat.le_log2 (Nat.ne_of_gt hpositive)).1 (by omega)
        _ ≤ _ := hle

end AtomicCss.Proofs
