import AtomicCss.Decimal.Binary
import Mathlib

/-!
# Doubles as bits

What a rounding leaves fits into the bits of a double and is read from them again. Whether a double
is a number can be seen on its bits and on its parts.
-/

namespace AtomicCss.Proofs

open Float.Model Float.Model.UnpackedFloat

/-- The mantissa has 53 bits, or fewer in the lowest place. -/
structure Fits (mantissa : Nat) (e : Int) : Prop where
  bits : mantissa.log2 ≤ 52
  low : -1074 ≤ e
  normal : mantissa.log2 = 52 ∨ e = -1074

lemma ofBitVec_toBitVec (sign : Sign) : Sign.ofBitVec sign.toBitVec = sign := by
  cases sign <;> rfl

lemma unpackSign_packComponents {format : Float.Model.Format} (sign : Sign)
    (e : BitVec format.exponentBits) (mantissa : BitVec format.mantissaBitsWithoutImplicit) :
    unpackSign (packComponents format sign e mantissa) = sign.toBitVec := by
  apply BitVec.eq_of_getLsbD_eq
  intro i hi
  obtain rfl : i = 0 := by omega
  simp [unpackSign, packComponents, BitVec.getLsbD_append, BitVec.getElem_append]

/-- The leading one is in front of the bits that are written. -/
lemma toNat_leading (mantissa : BitVec 52) : (1#1 ++ mantissa).toNat = 2 ^ 52 + mantissa.toNat := by
  rw [BitVec.toNat_append, ← Nat.shiftLeft_add_eq_or_of_lt mantissa.isLt]
  rfl

lemma unpack_components (sign : Sign) (e : BitVec 11) (mantissa : BitVec 52) :
    UnpackedFloat.unpack .binary64 (packComponents .binary64 sign e mantissa) =
      if e = -1#11 then if mantissa = 0#52 then .infinity sign else .notANumber
      else if e = 0#11 then
        if h : mantissa = 0#52 then .zero sign
        else .finite sign mantissa.toNat (-1074) (Nat.pos_of_ne_zero fun hzero => h (BitVec.eq_of_toNat_eq hzero))
      else .finite sign (2 ^ 52 + mantissa.toNat) ((e.toNat : Int) - 1075)
        (Nat.add_pos_left (by decide) _) := by
  unfold UnpackedFloat.unpack
  simp only [unpackMantissa_packComponents, unpackExponent_packComponents,
    unpackSign_packComponents, ofBitVec_toBitVec, toNat_leading]
  split
  · rfl
  · split
    · rename_i hzero
      subst hzero
      rfl
    · rfl

lemma log2_of_range {n k : Nat} (hlow : 2 ^ k ≤ n) (hhigh : n < 2 ^ (k + 1)) : n.log2 = k := by
  have hne : n ≠ 0 := by
    have := Nat.two_pow_pos k
    omega
  have hle := (Nat.le_log2 hne).2 hlow
  have hlt := (Nat.log2_lt hne).2 hhigh
  omega

/-- A double that fits is kept, unless it is too large. -/
lemma unpack_pack_finite {mantissa : Nat} {e : Int} (h : Fits mantissa e) (sign : Sign)
    (hpos : 0 < mantissa) :
    UnpackedFloat.unpack .binary64 (UnpackedFloat.pack .binary64 (.finite sign mantissa e hpos)) =
      if 972 ≤ e then .infinity sign else .finite sign mantissa e hpos := by
  have hbelow : mantissa < 2 ^ 53 := (Nat.log2_lt (Nat.ne_of_gt hpos)).1 (Nat.lt_succ_of_le h.bits)
  have hbiased : ((e + 1075).toNat : Int) = e + 1075 := Int.toNat_of_nonneg (by have := h.low; omega)
  have hpack : UnpackedFloat.pack .binary64 (.finite sign mantissa e hpos) =
      if 2048 ≤ (e + 1075).toNat + 1 then packComponents .binary64 sign (-1#11) 0#52
      else if mantissa.log2 + 1 = 53 then
        packComponents .binary64 sign (BitVec.ofNat 11 (e + 1075).toNat) (BitVec.ofNat 52 mantissa)
      else packComponents .binary64 sign 0#11 (BitVec.ofNat 52 mantissa) := by
    rw [UnpackedFloat.pack, show e + 1075 = e + (1023 : Nat) + (52 : Nat) by omega]
    rfl
  rw [hpack]
  by_cases hlarge : 972 ≤ e
  · rw [if_pos hlarge, if_pos (by omega), unpack_components]
    rfl
  rw [if_neg hlarge, if_neg (by omega)]
  by_cases hnormal : mantissa.log2 + 1 = 53
  · have hlow := h.low
    have hleading : 2 ^ 52 ≤ mantissa := (Nat.le_log2 (Nat.ne_of_gt hpos)).1 (by omega)
    have hexponent : (BitVec.ofNat 11 (e + 1075).toNat).toNat = (e + 1075).toNat := by
      rw [BitVec.toNat_ofNat, Nat.mod_eq_of_lt (by omega)]
    have hones : BitVec.ofNat 11 (e + 1075).toNat ≠ -1#11 := by
      intro heq
      have hnat := congrArg BitVec.toNat heq
      rw [hexponent] at hnat
      change _ = 2047 at hnat
      omega
    have hzero : BitVec.ofNat 11 (e + 1075).toNat ≠ 0#11 := by
      intro heq
      have hnat := congrArg BitVec.toNat heq
      rw [hexponent] at hnat
      change _ = 0 at hnat
      omega
    have hmantissa : 2 ^ 52 + (BitVec.ofNat 52 mantissa).toNat = mantissa := by
      rw [BitVec.toNat_ofNat]
      omega
    rw [if_pos hnormal, unpack_components, if_neg hones, if_neg hzero]
    congr 1
    omega
  · have hlog := h.bits
    have hshort : mantissa < 2 ^ 52 := (Nat.log2_lt (Nat.ne_of_gt hpos)).1 (by omega)
    have hmantissa : (BitVec.ofNat 52 mantissa).toNat = mantissa := by
      rw [BitVec.toNat_ofNat, Nat.mod_eq_of_lt hshort]
    have hzero : BitVec.ofNat 52 mantissa ≠ 0#52 := by
      intro heq
      have hnat := congrArg BitVec.toNat heq
      rw [hmantissa] at hnat
      exact Nat.ne_of_gt hpos hnat
    rw [if_neg hnormal, unpack_components, if_neg (by decide), if_pos rfl, dif_neg hzero]
    have he : e = -1074 := h.normal.resolve_left (by omega)
    subst he
    congr 1

lemma ones_ne_of_lt {k : Nat} (h : k + 1 < 2048) : BitVec.ofNat 11 k ≠ -1#11 := by
  intro heq
  have hnat := congrArg BitVec.toNat heq
  rw [BitVec.toNat_ofNat, Nat.mod_eq_of_lt (by omega)] at hnat
  change _ = 2047 at hnat
  omega

/-- The double is finite or infinite. -/
def IsNumber (x : Float) : Prop :=
  x.toModel.unpack ≠ .notANumber

lemma unpack_components_ne {sign : Sign} {e : BitVec 11} {mantissa : BitVec 52}
    (h : e = -1#11 → mantissa = 0#52) :
    UnpackedFloat.unpack .binary64 (packComponents .binary64 sign e mantissa) ≠ .notANumber := by
  rw [unpack_components]
  split
  · rename_i hones
    rw [if_pos (h hones)]
    nofun
  · split
    · split <;> nofun
    · nofun

lemma isNumber_pack {f : UnpackedFloat} (h : f ≠ .notANumber) :
    IsNumber (.ofModel (.pack f)) := by
  change UnpackedFloat.unpack .binary64 (UnpackedFloat.pack .binary64 f) ≠ .notANumber
  cases f with
  | notANumber => exact (h rfl).elim
  | infinity sign => exact unpack_components_ne fun _ => rfl
  | zero sign => exact unpack_components_ne fun _ => rfl
  | finite sign mantissa e hpos =>
    rw [UnpackedFloat.pack]
    dsimp only
    split
    · exact unpack_components_ne fun _ => rfl
    · rename_i hsmall
      split
      · exact unpack_components_ne fun hones => (ones_ne_of_lt (by omega) hones).elim
      · exact unpack_components_ne fun hones => absurd hones (by decide)

lemma roundWithAccuracy_ne (sign : Sign) (mantissa : Nat) (e : Int) (accuracy : Accuracy) :
    roundWithAccuracy .binary64 sign mantissa e accuracy ≠ .notANumber := by
  unfold roundWithAccuracy
  dsimp only
  split <;> nofun

section

variable {x y : Float} (hx : IsNumber x)

include hx

lemma IsNumber.neg : IsNumber (-x) := by
  refine isNumber_pack fun hneg => hx ?_
  generalize x.toModel.unpack = f at hneg
  cases f <;> first | rfl | cases hneg

/-- The divisor is positive and finite. -/
lemma IsNumber.div {mantissa : Nat} {e : Int} {hpos : 0 < mantissa}
    (hy : y.toModel.unpack = .finite .positive mantissa e hpos) : IsNumber (x / y) := by
  apply isNumber_pack
  rw [hy]
  unfold IsNumber at hx
  cases hf : x.toModel.unpack with
  | notANumber => exact (hx hf).elim
  | infinity sign => nofun
  | zero sign => nofun
  | finite sign mantissa' e' hpos' => exact roundWithAccuracy_ne _ _ _ _

/-- The factor is positive and finite. -/
lemma IsNumber.mul {mantissa : Nat} {e : Int} {hpos : 0 < mantissa}
    (hy : y.toModel.unpack = .finite .positive mantissa e hpos) : IsNumber (x * y) := by
  apply isNumber_pack
  rw [hy]
  unfold IsNumber at hx
  cases hf : x.toModel.unpack with
  | notANumber => exact (hx hf).elim
  | infinity sign => nofun
  | zero sign => nofun
  | finite sign mantissa' e' hpos' => exact roundWithAccuracy_ne _ _ _ _

end

/-- Nothing but a number can be compared. -/
lemma isNumber_of_le {x y : Float} (h : x ≤ y) : IsNumber x ∧ IsNumber y := by
  have hle : x.toModel.unpack.le y.toModel.unpack = true := of_decide_eq_true h
  have hright : ∀ f, UnpackedFloat.compare f .notANumber = none := fun f => by
    cases f <;> rfl
  constructor
  · intro hx
    rw [hx] at hle
    cases hle
  · intro hy
    rw [hy, UnpackedFloat.le, hright] at hle
    cases hle

open Decimal in
/-- The bits of a number are read as one. -/
lemma reading_of_isNumber {x : Float} (h : IsNumber x) : Reading.ofFloat x ≠ .undefined := by
  intro hundefined
  apply h
  let bits := x.toBits.toBitVec
  have hexponent : (@unpackExponent .binary64 bits).toNat =
      x.toBits.toNat / leadingOne % 2048 := by
    simp [unpackExponent, BitVec.extractLsb_toNat, Nat.shiftRight_eq_div_pow, leadingOne, bits]
  have hmantissa : (@unpackMantissa .binary64 bits).toNat =
      x.toBits.toNat % leadingOne := by
    simp [unpackMantissa, BitVec.extractLsb_toNat, leadingOne, bits]
  have hones : @unpackExponent .binary64 bits = -1#11 := by
    apply BitVec.eq_of_toNat_eq
    rw [hexponent]
    change _ = 2047
    by_contra hne
    unfold Reading.ofFloat Reading.ofBits at hundefined
    dsimp only at hundefined
    rw [if_neg hne] at hundefined
    split at hundefined <;> cases hundefined
  have hfraction : @unpackMantissa .binary64 bits ≠ 0#52 := by
    intro hzero
    have hnat := congrArg BitVec.toNat hzero
    rw [hmantissa] at hnat
    unfold Reading.ofFloat Reading.ofBits at hundefined
    dsimp only at hundefined
    rw [if_pos (show x.toBits.toNat % leadingOne = 0 from hnat)] at hundefined
    split at hundefined
    · cases hundefined
    · split at hundefined <;> cases hundefined
  change UnpackedFloat.unpack .binary64 bits = _
  unfold UnpackedFloat.unpack
  dsimp only
  rw [if_pos hones, if_neg hfraction]

end AtomicCss.Proofs
