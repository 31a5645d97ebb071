import AtomicCss.Decimal.Reader
import AtomicCss.Proofs.Rounding

/-!
# Decimals read as doubles

A decimal is read as the double nearest to its value, whether its digits and its power of ten are
doubles themselves or not. So decimals of one value are read as one double, and a decimal above half
the least double is not read as zero.
-/

namespace AtomicCss.Proofs

open Float.Model Float.Model.UnpackedFloat

/-- A natural number below `2 ^ 53` is a double. -/
lemma unpack_toFloat {n : Nat} (hpos : 0 < n) (hsmall : n < 2 ^ 53) :
    ∃ hp, n.toUInt64.toFloat.toModel.unpack =
      .finite .positive (n * 2 ^ (52 - n.log2)) ((n.log2 : Int) - 52) hp := by
  have hlog : n.log2 ≤ 52 := Nat.lt_succ_iff.1 ((Nat.log2_lt (Nat.ne_of_gt hpos)).2 hsmall)
  have hmantissa : 0 < n * 2 ^ (52 - n.log2) := Nat.mul_pos hpos (Nat.two_pow_pos _)
  have hbits : (n * 2 ^ (52 - n.log2)).log2 = 52 := by
    apply log2_of_range
    · calc 2 ^ 52 = 2 ^ n.log2 * 2 ^ (52 - n.log2) := by rw [← Nat.pow_add]; congr 1; omega
        _ ≤ n * 2 ^ (52 - n.log2) := Nat.mul_le_mul_right _ (two_pow_log2_le hpos)
    · calc n * 2 ^ (52 - n.log2) < 2 ^ (n.log2 + 1) * 2 ^ (52 - n.log2) :=
            Nat.mul_lt_mul_of_pos_right Nat.lt_log2_self (Nat.two_pow_pos _)
        _ = 2 ^ 53 := by rw [← Nat.pow_add]; congr 1; omega
  have hword : n.toUInt64.toNat = n := by
    change n % 2 ^ 64 = n
    exact Nat.mod_eq_of_lt (by omega)
  have hround : UnpackedFloat.ofUInt64 .binary64 n.toUInt64 =
      .finite .positive (n * 2 ^ (52 - n.log2)) ((n.log2 : Int) - 52) hmantissa := by
    have hcompare : compare (n : Int) 0 = .gt := by
      simpa [Int.compare_eq_gt] using hpos
    have htarget : Format.binary64.targetExponent (totalExponent n 0) = (n.log2 : Int) - 52 := by
      rw [targetExponent_eq, lastPlace]
      omega
    rw [UnpackedFloat.ofUInt64, hword, UnpackedFloat.ofNat, UnpackedFloat.ofInt,
      UnpackedFloat.normalize, hcompare]
    dsimp only
    rw [UnpackedFloat.round, Int.toNat_natCast, htarget, decreaseExponent, Nat.shiftLeft_eq]
    dsimp only
    have hshift : (0 - ((n.log2 : Int) - 52)).toNat = 52 - n.log2 := by omega
    have hplace : (0 : Int) - ((52 - n.log2 : Nat) : Int) = (n.log2 : Int) - 52 := by omega
    rw [hshift, hplace]
    exact roundWithAccuracy_normal hbits (by omega) hmantissa _
  refine ⟨hmantissa, ?_⟩
  change UnpackedFloat.unpack .binary64 (UnpackedFloat.pack .binary64
    (UnpackedFloat.ofUInt64 .binary64 n.toUInt64)) = _
  rw [hround, unpack_pack_finite ⟨by omega, by omega, .inl hbits⟩, if_neg (by omega)]

/-- The double is `10 ^ k` exactly. -/
def isPowerOfTen (f : UnpackedFloat) (k : Nat) : Bool :=
  match f with
  | .finite .positive mantissa e _ => mantissa * 2 ^ e.toNat == 10 ^ k * 2 ^ (-e).toNat
  | _ => false

lemma table_isPowerOfTen : ∀ k < 23, ∀ hk : k < Float.exactlyRepresentablePowersOfTen.size,
    isPowerOfTen Float.exactlyRepresentablePowersOfTen[k].toModel.unpack k = true := by
  decide +kernel

lemma unpack_powerOfTen {k : Nat} (h : k ≤ 22) (hk : k < Float.exactlyRepresentablePowersOfTen.size) :
    ∃ (mantissa : Nat) (e : Int) (hpos : 0 < mantissa) (a b : Nat),
      Float.exactlyRepresentablePowersOfTen[k].toModel.unpack = .finite .positive mantissa e hpos ∧
        e = (a : Int) - b ∧ mantissa * 2 ^ a = 10 ^ k * 2 ^ b := by
  have hpower := table_isPowerOfTen k (by omega) hk
  unfold isPowerOfTen at hpower
  split at hpower
  · rename_i mantissa e hpos hunpack
    exact ⟨mantissa, e, hpos, e.toNat, (-e).toNat, hunpack, by omega, eq_of_beq hpower⟩
  · cases hpower

lemma mul_shifted {n : Nat} (hpos : 0 < n) (hshifted : 0 < n <<< 53) (hone : 0 < 1) :
    UnpackedFloat.mul .binary64 (.finite .positive (n <<< 53) (-53) hshifted)
      (.finite .positive 1 0 hone) = nearestTo .positive n 1 := by
  have hshift : n <<< 53 * 1 = n * 2 ^ 53 := by
    rw [Nat.shiftLeft_eq, Nat.mul_one]
  refine mul_finite (a := 0) (b := 53) hshifted hone (by omega) hone rfl ?_
  rw [hshift, Nat.mul_one, Nat.pow_zero, Nat.mul_one]

/-- Beyond the table, decimals are rounded from whole numbers. -/
lemma ofScientific_eq {n k : Nat} (hpos : 0 < n) (hk : k ≤ 2048 + n.log2) :
    UnpackedFloat.ofScientific .binary64 n (-(k : Int)) = nearestTo .positive n (10 ^ k) := by
  have hten : ∀ k, 0 < 10 ^ k := fun k => Nat.pow_pos (by decide)
  have hhigh : ¬-(k : Int) > 2 ^ Format.binary64.exponentBits := by
    change ¬-(k : Int) > 2048
    omega
  have hlow : ¬-(k : Int) < -((2 ^ Format.binary64.exponentBits : Int) + n.log2) := by
    change ¬-(k : Int) < -((2048 : Int) + n.log2)
    omega
  unfold UnpackedFloat.ofScientific
  rw [dif_neg (Nat.ne_of_gt hpos), if_neg hhigh, if_neg hlow]
  by_cases hzero : k = 0
  · subst hzero
    rw [if_pos (by decide)]
    exact mul_shifted hpos _ _
  · rw [if_neg (by omega)]
    have hexponent : (- -(k : Int)).toNat = k := by omega
    simp only [hexponent]
    exact div_finite (a := 0) (b := 0) hpos (hten k) (hten k) rfl rfl

/-- A decimal literal is the double nearest to its value. -/
lemma ofScientific_nearestTo {n k : Nat} (hpos : 0 < n) (hk : k ≤ 2048 + n.log2) :
    (if k = 0 then Float.ofScientific n false 0 else Float.ofScientific n true k) =
      .ofModel (.pack (nearestTo .positive n (10 ^ k))) := by
  by_cases hfast : n < 2 ^ 53 ∧ k ≤ 22
  · obtain ⟨hsmall, htable⟩ := hfast
    have hsize : k < Float.exactlyRepresentablePowersOfTen.size := Nat.lt_succ_of_le htable
    obtain ⟨hp, hn⟩ := unpack_toFloat hpos hsmall
    obtain ⟨mantissa, e, hp', a, b, hpower, he, hvalue⟩ := unpack_powerOfTen htable hsize
    have hlog : n.log2 ≤ 52 := Nat.lt_succ_iff.1 ((Nat.log2_lt (Nat.ne_of_gt hpos)).2 hsmall)
    have hten : 0 < 10 ^ k := Nat.pow_pos (by decide)
    split
    · rename_i hzero
      subst hzero
      have hbits : 2 ^ 52 ≤ n * 2 ^ (52 - n.log2) * mantissa := by
        calc 2 ^ 52 = 2 ^ n.log2 * 2 ^ (52 - n.log2) := by rw [← Nat.pow_add]; congr 1; omega
          _ ≤ n * 2 ^ (52 - n.log2) := Nat.mul_le_mul_right _ (two_pow_log2_le hpos)
          _ ≤ n * 2 ^ (52 - n.log2) * mantissa := Nat.le_mul_of_pos_right _ hp'
      unfold Float.ofScientific
      rw [dif_pos ⟨hsmall, htable⟩, if_neg Bool.false_ne_true]
      refine congrArg (fun f => Float.ofModel (.pack f)) ?_
      rw [hn, hpower]
      refine mul_finite (a := a) (b := b + (52 - n.log2)) hp hp' hbits hten (by omega) ?_
      calc n * 2 ^ (52 - n.log2) * mantissa * 10 ^ 0 * 2 ^ a
          = n * 2 ^ (52 - n.log2) * (mantissa * 2 ^ a) := by ring
        _ = n * 2 ^ (52 - n.log2) * (10 ^ 0 * 2 ^ b) := by rw [hvalue]
        _ = n * 2 ^ (b + (52 - n.log2)) := by ring
    · unfold Float.ofScientific
      rw [dif_pos ⟨hsmall, htable⟩, if_pos rfl]
      refine congrArg (fun f => Float.ofModel (.pack f)) ?_
      rw [hn, hpower]
      refine div_finite (a := b) (b := a + (52 - n.log2)) hp hp' hten (by omega) ?_
      calc n * 2 ^ (52 - n.log2) * 10 ^ k * 2 ^ b
          = n * 2 ^ (52 - n.log2) * (10 ^ k * 2 ^ b) := by ring
        _ = n * 2 ^ (52 - n.log2) * (mantissa * 2 ^ a) := by rw [hvalue]
        _ = n * mantissa * 2 ^ (a + (52 - n.log2)) := by ring
  · split
    · rename_i hzero
      subst hzero
      unfold Float.ofScientific
      rw [dif_neg hfast, if_neg Bool.false_ne_true]
      exact congrArg (fun f => Float.ofModel (.pack f)) (ofScientific_eq hpos hk)
    · rename_i hne
      have hneg : Int.negOfNat k = -(k : Int) := Int.negOfNat_eq
      unfold Float.ofScientific
      rw [dif_neg hfast, if_pos rfl, hneg]
      exact congrArg (fun f => Float.ofModel (.pack f)) (ofScientific_eq hpos hk)

lemma length_toDigits_mul_pow {n : Nat} (hpos : 0 < n) (j : Nat) :
    (Nat.toDigits 10 (n * 10 ^ j)).length = (Nat.toDigits 10 n).length + j := by
  induction j with
  | zero => simp
  | succ j ih =>
    have hnext : n * 10 ^ (j + 1) = 10 * (n * 10 ^ j) + 0 := by ring
    have hprefix : 0 < n * 10 ^ j := Nat.mul_pos hpos (Nat.pow_pos (by decide))
    rw [hnext, ← Nat.toDigits_append_toDigits (by decide) hprefix (by decide), List.length_append,
      ih]
    rfl

lemma length_toDigits_le_log2 (n : Nat) : (Nat.toDigits 10 n).length ≤ n.log2 + 1 := by
  rw [Nat.length_toDigits_le_iff (by decide) (Nat.succ_pos _)]
  calc n < 2 ^ (n.log2 + 1) := Nat.lt_log2_self
    _ ≤ 10 ^ (n.log2 + 1) := Nat.pow_le_pow_left (by decide) _

/-- Between the exponents that are cut off, a decimal is read as the double nearest to it. -/
lemma nearest_eq {n : Nat} (hpos : 0 < n) (k : Nat) :
    Decimal.nearest n (-(k : Int)) =
      if 310 + k < (Nat.toDigits 10 n).length then 1.0 / 0.0
      else if (Nat.toDigits 10 n).length + 330 < k then 0.0
      else .ofModel (.pack (nearestTo .positive n (10 ^ k))) := by
  unfold Decimal.nearest
  dsimp only
  rw [if_neg (Nat.ne_of_gt hpos)]
  by_cases hhigh : 310 + k < (Nat.toDigits 10 n).length
  · rw [if_pos (by omega), if_pos hhigh]
  rw [if_neg (by omega), if_neg hhigh]
  by_cases hlow : (Nat.toDigits 10 n).length + 330 < k
  · rw [if_pos (by omega), if_pos hlow]
  rw [if_neg (by omega), if_neg hlow]
  have hdigits := length_toDigits_le_log2 n
  rw [← ofScientific_nearestTo hpos (show k ≤ 2048 + n.log2 by omega)]
  by_cases hzero : k = 0
  · subst hzero
    rfl
  · rw [if_neg (by omega), if_neg hzero, Int.neg_neg, Int.toNat_natCast]

/-- Decimals of one value are read as one double. -/
lemma nearest_mul_pow (n j k : Nat) :
    Decimal.nearest (n * 10 ^ j) (-((j + k : Nat) : Int)) = Decimal.nearest n (-(k : Int)) := by
  rcases Nat.eq_zero_or_pos n with rfl | hpos
  · rw [Nat.zero_mul]
    rfl
  have hten : ∀ j, 0 < 10 ^ j := fun j => Nat.pow_pos (by decide)
  have hvalue : nearestTo .positive (n * 10 ^ j) (10 ^ (j + k)) = nearestTo .positive n (10 ^ k) :=
    nearestTo_cross (hten _) (hten _) (by ring) _
  rw [nearest_eq (Nat.mul_pos hpos (hten j)), nearest_eq hpos, length_toDigits_mul_pow hpos, hvalue]
  congr 1
  · simp only [eq_iff_iff]
    omega
  · congr 1
    simp only [eq_iff_iff]
    omega

lemma finite_ne_zero {mantissa : Nat} {e : Int} (h : Fits mantissa e) (hpos : 0 < mantissa)
    (sign : Sign) : (Float.ofModel (.pack (.finite sign mantissa e hpos)) == 0.0) = false := by
  change UnpackedFloat.beq (UnpackedFloat.unpack .binary64
    (UnpackedFloat.pack .binary64 (.finite sign mantissa e hpos))) (.zero .positive) = false
  rw [unpack_pack_finite h]
  cases sign <;> split <;> rfl

lemma neg_finite_ne_zero {mantissa : Nat} {e : Int} (h : Fits mantissa e) (hpos : 0 < mantissa) :
    (-Float.ofModel (.pack (.finite .positive mantissa e hpos)) == 0.0) = false := by
  have hneg : -Float.ofModel (.pack (.finite .positive mantissa e hpos)) =
      .ofModel (.pack (UnpackedFloat.unpack .binary64 (UnpackedFloat.pack .binary64
        (.finite .positive mantissa e hpos))).neg) := rfl
  rw [hneg, unpack_pack_finite h]
  split
  · rfl
  · exact finite_ne_zero h hpos .negative

/-- A decimal above half the least double is not read as zero. -/
lemma nearest_ne_zero {n k : Nat} (h : 10 ^ k < 2 * (leastInOne * n)) :
    (Decimal.nearest n (-(k : Int)) == 0.0) = false ∧
      (-Decimal.nearest n (-(k : Int)) == 0.0) = false := by
  have hpos : 0 < n := by
    rcases Nat.eq_zero_or_pos n with rfl | hpos
    · rw [Nat.mul_zero, Nat.mul_zero] at h
      exact absurd h (Nat.not_lt_zero _)
    · exact hpos
  rw [nearest_eq hpos]
  split
  · decide +kernel
  · split
    · rename_i hsmall
      exfalso
      have hplaces : 330 + (Nat.toDigits 10 n).length ≤ k := by omega
      have hdigits : n < 10 ^ (Nat.toDigits 10 n).length :=
        (Nat.length_toDigits_le_iff (by decide) Nat.length_toDigits_pos).1 (Nat.le_refl _)
      have hpower : 2 * leastInOne ≤ 10 ^ 330 := by decide +kernel
      have hlarge : 2 * (leastInOne * n) ≤ 10 ^ k := by
        calc 2 * (leastInOne * n) = 2 * leastInOne * n := (Nat.mul_assoc _ _ _).symm
          _ ≤ 10 ^ 330 * 10 ^ (Nat.toDigits 10 n).length :=
              Nat.mul_le_mul hpower (Nat.le_of_lt hdigits)
          _ = 10 ^ (330 + (Nat.toDigits 10 n).length) := by rw [Nat.pow_add]
          _ ≤ 10 ^ k := Nat.pow_le_pow_right (by decide) hplaces
      exact absurd h (Nat.not_lt.2 hlarge)
    · obtain ⟨mantissa, e, hp, hfits, hfinite⟩ :=
        nearestTo_fits (Nat.pow_pos (by decide)) h .positive
      rw [hfinite]
      exact ⟨finite_ne_zero hfits hp .positive, neg_finite_ne_zero hfits hp⟩

lemma isNumber_ofScientific (n : Nat) : IsNumber (Float.ofScientific n false 0) := by
  rcases Nat.eq_zero_or_pos n with rfl | hpos
  · have hzero : (Float.ofScientific 0 false 0).toModel.unpack = .zero .positive := rfl
    unfold IsNumber
    rw [hzero]
    nofun
  · have hwhole := ofScientific_nearestTo hpos (show 0 ≤ 2048 + n.log2 by omega)
    rw [if_pos rfl] at hwhole
    rw [hwhole]
    apply isNumber_pack
    unfold nearestTo rounded settled
    dsimp only
    split <;> nofun

end AtomicCss.Proofs
