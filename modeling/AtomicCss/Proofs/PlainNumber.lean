import AtomicCss.Proofs.NumberValue

/-!
# Doubles written out

The plain text of a double is a number without an exponent. The decimal that it writes lies near
enough to the double not to be read as zero.
-/

namespace AtomicCss.Proofs

open Decimal

/-- The decimal is above half the least double. -/
def AboveHalf (d : Digits) : Prop :=
  10 ^ (-d.exponent).toNat < 2 * (leastInOne * (d.digits * 10 ^ d.exponent.toNat))

lemma scale_eq (base : Nat) (k : Int) :
    (if 0 ≤ k then (Nat.pow base k.toNat, 1) else (1, Nat.pow base (-k).toNat)) =
      (base ^ k.toNat, base ^ (-k).toNat) := by
  by_cases hk : 0 ≤ k
  · rw [if_pos hk, show (-k).toNat = 0 by omega]
    rfl
  · rw [if_neg hk, show k.toNat = 0 by omega]
    rfl

/-- If both enclosing decimals read back, so does the one that is taken. -/
lemma contains_either {i : Interval} {d num den : Nat} (takeAbove : Bool)
    (hbelow : i.contains (d * num) den = true) (habove : i.contains ((d + 1) * num) den = true) :
    i.contains ((if takeAbove then d + 1 else d) * num) den = true := by
  cases takeAbove
  · exact hbelow
  · exact habove

/-- A decimal that is found reads back. -/
lemma contains_of_onGrid {tie : Tie} {i : Interval} {unit k : Int} {d : Digits}
    (h : onGrid? tie i unit k = some d) : d.exponent = k ∧
      i.contains (d.digits * (10 ^ k.toNat * 2 ^ (-unit).toNat))
        (10 ^ (-k).toNat * 2 ^ unit.toNat) = true := by
  unfold onGrid? at h
  rw [scale_eq, scale_eq] at h
  dsimp only at h
  split at h
  · rename_i hboth
    obtain ⟨hbelow, habove⟩ := Bool.and_eq_true_iff.1 hboth
    cases h
    exact ⟨rfl, contains_either _ hbelow habove⟩
  · split at h
    · rename_i hbelow
      cases h
      exact ⟨rfl, hbelow⟩
    · split at h
      · rename_i habove
        cases h
        exact ⟨rfl, habove⟩
      · cases h

lemma onGrid_of_firstGrid {tie : Tie} {i : Interval} {unit leading : Int} {d : Digits}
    {places more : Nat} (h : firstGrid? tie i unit leading places more = some d) :
    ∃ k, onGrid? tie i unit k = some d := by
  induction more generalizing places with
  | zero => cases h
  | succ more ih =>
    unfold firstGrid? at h
    split at h
    · rename_i hd
      cases h
      exact ⟨_, hd⟩
    · exact ih h

/-- Whatever reads back as a positive double is above half of the unit below its last place. -/
lemma lt_of_contains {x : Magnitude} (hx : x.mantissa ≠ 0) {num den : Nat} (hden : 0 < den)
    (h : x.interval.contains num den = true) : 2 * den < num := by
  have hlower : 4 * x.mantissa - 2 ≤ x.interval.lower := by
    unfold Magnitude.interval
    dsimp only
    split <;> omega
  unfold Interval.contains at h
  split at h
  · rename_i hclosed
    have heven : x.mantissa % 2 = 0 := eq_of_beq hclosed
    have hle : x.interval.lower * den ≤ num :=
      of_decide_eq_true (Bool.and_eq_true_iff.1 h).1
    have hsix : 6 * den ≤ x.interval.lower * den := Nat.mul_le_mul_right _ (by omega)
    omega
  · have hlt : x.interval.lower * den < num := of_decide_eq_true (Bool.and_eq_true_iff.1 h).1
    have htwo : 2 * den ≤ x.interval.lower * den := Nat.mul_le_mul_right _ (by omega)
    omega

lemma aboveHalf_of_onGrid {tie : Tie} {x : Magnitude} (hx : x.mantissa ≠ 0)
    (hlow : -1074 ≤ x.exponent) {k : Int} {d : Digits}
    (h : onGrid? tie x.interval (x.exponent - 2) k = some d) : AboveHalf d := by
  obtain ⟨rfl, hcontains⟩ := contains_of_onGrid h
  have hten : 0 < 10 ^ (-d.exponent).toNat := Nat.pow_pos (by decide)
  have hlt := lt_of_contains hx (Nat.mul_pos hten (Nat.two_pow_pos _)) hcontains
  have hunit : 2 ^ (-(x.exponent - 2)).toNat ≤ 4 * leastInOne := by
    calc 2 ^ (-(x.exponent - 2)).toNat ≤ 2 ^ (2 + (-x.exponent).toNat) :=
          Nat.pow_le_pow_right (by decide) (by omega)
      _ = 4 * 2 ^ (-x.exponent).toNat := Nat.pow_add _ _ _
      _ ≤ 4 * leastInOne := Nat.mul_le_mul_left _ (two_pow_le_leastInOne (by omega))
  have habove : 2 * 10 ^ (-d.exponent).toNat <
      d.digits * 10 ^ d.exponent.toNat * (4 * leastInOne) := by
    calc 2 * 10 ^ (-d.exponent).toNat
        ≤ 2 * (10 ^ (-d.exponent).toNat * 2 ^ (x.exponent - 2).toNat) :=
          Nat.mul_le_mul_left _ (Nat.le_mul_of_pos_right _ (Nat.two_pow_pos _))
      _ < d.digits * (10 ^ d.exponent.toNat * 2 ^ (-(x.exponent - 2)).toNat) := hlt
      _ ≤ d.digits * (10 ^ d.exponent.toNat * (4 * leastInOne)) :=
          Nat.mul_le_mul_left _ (Nat.mul_le_mul_left _ hunit)
      _ = d.digits * 10 ^ d.exponent.toNat * (4 * leastInOne) := (Nat.mul_assoc _ _ _).symm
  have hcommute : d.digits * 10 ^ d.exponent.toNat * (4 * leastInOne) =
      2 * (2 * (leastInOne * (d.digits * 10 ^ d.exponent.toNat))) := by ring
  unfold AboveHalf
  omega

/-- A zero at the end of the digits goes over into the exponent. -/
lemma aboveHalf_div_ten {d : Digits} (h : AboveHalf d) (hten : d.digits % 10 = 0) :
    AboveHalf ⟨d.digits / 10, d.exponent + 1⟩ := by
  have hdigits : d.digits = 10 * (d.digits / 10) := by omega
  unfold AboveHalf at h ⊢
  dsimp only
  generalize d.digits / 10 = n at hdigits ⊢
  rw [hdigits] at h
  by_cases hk : 0 ≤ d.exponent
  · have hnext : (d.exponent + 1).toNat = d.exponent.toNat + 1 := by omega
    have hsame : (-(d.exponent + 1)).toNat = (-d.exponent).toNat := by omega
    have hshift : n * 10 ^ (d.exponent.toNat + 1) = 10 * n * 10 ^ d.exponent.toNat := by ring
    rw [hnext, hsame, hshift]
    exact h
  · have hnext : (-d.exponent).toNat = (-(d.exponent + 1)).toNat + 1 := by omega
    have hzero : d.exponent.toNat = 0 := by omega
    have hzero' : (d.exponent + 1).toNat = 0 := by omega
    rw [hnext, hzero, Nat.pow_succ] at h
    rw [hzero']
    have hcommute : leastInOne * (10 * n * 10 ^ 0) = 10 * (leastInOne * (n * 10 ^ 0)) := by ring
    omega

lemma shortest_aboveHalf {x : Magnitude} (hlow : -1074 ≤ x.exponent) (tie : Tie) :
    x.shortest tie = ⟨0, 0⟩ ∨ AboveHalf (x.shortest tie) := by
  unfold Magnitude.shortest
  split
  · exact .inl rfl
  · rename_i hx
    dsimp only
    split
    · rename_i d k hfirst
      obtain ⟨l, hgrid⟩ := onGrid_of_firstGrid hfirst
      have habove := aboveHalf_of_onGrid hx hlow hgrid
      split
      · rename_i hten
        exact .inr (aboveHalf_div_ten habove hten)
      · exact .inr habove
    · rcases Nat.eq_zero_or_pos (x.ratio.1 / x.ratio.2) with hzero | hpos
      · rw [hzero]
        exact .inl rfl
      · refine .inr ?_
        unfold AboveHalf
        dsimp only
        have hleast : 0 < leastInOne * (x.ratio.1 / x.ratio.2 * 10 ^ (0 : Int).toNat) :=
          Nat.mul_pos (two_pow_le_leastInOne (Nat.zero_le _)) (Nat.mul_pos hpos (Nat.pow_pos (by decide)))
        change 1 < _
        omega

lemma isRun_toDigits (n : Nat) : IsRun (Nat.toDigits 10 n) :=
  fun _ hc => Nat.isDigit_of_mem_toDigits (by decide) (by decide) hc

lemma isRun_zeros (n : Nat) : IsRun (List.replicate n '0') := by
  intro c hc
  rw [List.eq_of_mem_replicate hc]
  rfl

lemma IsRun.append {before after : List Char} (hbefore : IsRun before) (hafter : IsRun after) :
    IsRun (before ++ after) :=
  List.forall_mem_append.2 ⟨hbefore, hafter⟩

/-- Digits are written out with a point among them, and have the value that they had. -/
lemma positional_parts (d : Digits) : ∃ whole fraction, IsRun whole ∧ IsRun fraction ∧
    whole ≠ [] ∧ d.positional = whole ++ pointed fraction ∧
    digitsValue (whole ++ fraction) = d.digits * 10 ^ d.exponent.toNat ∧
    fraction.length = (-d.exponent).toNat := by
  have hrun := isRun_toDigits d.digits
  have hne : Nat.toDigits 10 d.digits ≠ [] := Nat.toDigits_ne_nil
  have hvalue : digitsValue (Nat.toDigits 10 d.digits) = d.digits := Nat.ofDigitChars_ten_toDigits
  unfold Digits.positional
  dsimp only
  generalize Nat.toDigits 10 d.digits = ds at hrun hne hvalue
  by_cases hwhole : 0 ≤ d.exponent
  · rw [if_pos hwhole]
    refine ⟨ds ++ List.replicate d.exponent.toNat '0', [], hrun.append (isRun_zeros _),
      List.forall_mem_nil _, List.append_ne_nil_of_left_ne_nil hne _, (List.append_nil _).symm,
      ?_, ?_⟩
    · rw [List.append_nil, digitsValue_zeros, hvalue]
    · exact (Int.toNat_of_nonpos (by omega)).symm
  have hzero : d.exponent.toNat = 0 := by omega
  rw [if_neg hwhole, hzero, Nat.pow_zero, Nat.mul_one]
  have hplaces : 0 < (-d.exponent).toNat := by omega
  generalize (-d.exponent).toNat = places at hplaces
  by_cases hinside : places < ds.length
  · rw [if_pos hinside]
    refine ⟨ds.take (ds.length - places), ds.drop (ds.length - places),
      fun c hc => hrun c (List.mem_of_mem_take hc), fun c hc => hrun c (List.mem_of_mem_drop hc),
      ?_, ?_, ?_, ?_⟩
    · rw [Ne, ← List.length_eq_zero_iff, List.length_take]
      omega
    · rw [pointed_of_ne_nil]
      rw [Ne, ← List.length_eq_zero_iff, List.length_drop]
      omega
    · rw [List.take_append_drop, hvalue]
    · rw [List.length_drop]
      omega
  · rw [if_neg hinside]
    refine ⟨['0'], List.replicate (places - ds.length) '0' ++ ds, isRun_zeros 1,
      (isRun_zeros _).append hrun, List.cons_ne_nil _ _, ?_, ?_, ?_⟩
    · rw [pointed_of_ne_nil (List.append_ne_nil_of_right_ne_nil _ hne)]
      rfl
    · exact (digitsValue_leading 1 _).trans ((digitsValue_leading _ ds).trans hvalue)
    · rw [List.length_append, List.length_replicate]
      omega

/-- The exponents of doubles are bounded from below. -/
lemma exponent_of_reading {x : Float} {negative : Bool} {m : Magnitude}
    (h : Reading.ofFloat x = .finite negative m) : -1074 ≤ m.exponent := by
  unfold Reading.ofFloat Reading.ofBits at h
  dsimp only at h
  split at h
  · split at h <;> cases h
  · split at h <;> cases h
    · exact Int.le_refl _
    · dsimp only
      omega

/-- A finite double is written as a number that is read as zero only if it is written as zero. -/
lemma parts_of_plainText {x : Float} {negative : Bool} {m : Magnitude}
    (h : Reading.ofFloat x = .finite negative m) :
    ∃ p : NumberParts, plainText x = p.text ∧ p.exponent = [] ∧
      (p.canonical.text = ['0'] ∨ (p.value == 0.0) = false) := by
  obtain ⟨whole, fraction, hwhole, hfraction, hne, hpositional, hvalue, hlength⟩ :=
    positional_parts (m.shortest .up)
  have hsign : isSign (if negative then ['-'] else []) := by
    cases negative
    · exact .inl rfl
    · exact .inr (.inr rfl)
  let p : NumberParts := ⟨if negative then ['-'] else [], whole, fraction, [], hsign, hwhole,
    hfraction, .inl rfl, .inl hne⟩
  refine ⟨p, ?_, rfl, ?_⟩
  · unfold plainText
    rw [h]
    dsimp only
    rw [hpositional]
    cases negative <;> simp [p, NumberParts.text]
  · rcases shortest_aboveHalf (exponent_of_reading h) .up with hzero | habove
    · left
      rw [hzero] at hpositional hlength
      obtain rfl : fraction = [] := List.eq_nil_of_length_eq_zero hlength
      obtain rfl : whole = ['0'] := by
        rw [pointed_nil, List.append_nil] at hpositional
        exact hpositional.symm
      rw [NumberParts.canonical_of_zeros rfl rfl rfl]
      rfl
    · right
      have hread := nearest_ne_zero habove
      rw [← hlength, ← hvalue] at hread
      unfold NumberParts.value signed
      split
      · exact hread.2
      · exact hread.1

end AtomicCss.Proofs
