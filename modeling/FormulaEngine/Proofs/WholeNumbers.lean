import FormulaEngine.Binary64
import Mathlib

/-!
# Whole numbers as binary64 numbers

Every natural number below `2 ^ 53` is a binary64 number, and reading that number as a whole one
gives it back.

- `normalize_natCast`: the number is not rounded, but moved up until its mantissa has 53 bits;
- `unpack_pack_wide`: a mantissa of 53 bits and its exponent can be read off the stored bits;
- `roundToInt_shifted`: reading the whole number moves the mantissa down again;
- `toUInt64_toFloat`: so a natural number comes back from its binary64 number.
-/

namespace FormulaEngine

open Float.Model Float.Model.UnpackedFloat

/-! ## Mantissas of 53 bits -/

/-- A mantissa of 53 bits is the one that goes with its exponent, unless the exponent is too
small. -/
theorem targetExponent_wide {mantissa : Nat} (hlow : 2 ^ 52 ≤ mantissa) (hhigh : mantissa < 2 ^ 53)
    {exponent : Int} (hexponent : -1074 ≤ exponent) :
    Format.binary64.targetExponent (totalExponent mantissa exponent) = exponent := by
  have hlog : mantissa.log2 = 52 := (Nat.log2_eq_iff (by omega)).mpr ⟨hlow, hhigh⟩
  rw [totalExponent, hlog]
  show max ((52 : Nat) + 1 + exponent - (53 : Nat)) (-1074) = exponent
  omega

/-- A number whose mantissa goes with its exponent is not rounded. -/
theorem roundWithAccuracy_exact {mantissa : Nat} (hpos : 0 < mantissa) {exponent : Int}
    (htarget : Format.binary64.targetExponent (totalExponent mantissa exponent) = exponent) :
    roundWithAccuracy Format.binary64 .positive mantissa exponent .exact =
      .finite .positive mantissa exponent hpos := by
  have hshift : shiftToTargetExponent Format.binary64 mantissa exponent .exact =
      (⟨mantissa, false, false⟩, exponent) := by
    rw [shiftToTargetExponent, htarget, shiftToExponent, Int.sub_self]
    exact Prod.ext rfl (Int.add_zero exponent)
  have hrounded : ExtendedMantissa.roundedMantissa ⟨mantissa, false, false⟩ = mantissa := rfl
  unfold roundWithAccuracy
  simp only [hshift, hrounded]
  exact dif_neg (Nat.ne_of_gt hpos)

/-- Moved up by the places that it has too few, a natural number has 53 bits. -/
theorem wide_of_log2 {n places : Nat} (hn : n ≠ 0) (hlog : n.log2 + places = 52) :
    2 ^ 52 ≤ n * 2 ^ places ∧ n * 2 ^ places < 2 ^ 53 := by
  have hplaces := Nat.two_pow_pos places
  constructor
  · calc 2 ^ 52 = 2 ^ n.log2 * 2 ^ places := by rw [← Nat.pow_add, hlog]
      _ ≤ n * 2 ^ places := Nat.mul_le_mul_right _ (Nat.log2_self_le hn)
  · calc n * 2 ^ places < 2 ^ (n.log2 + 1) * 2 ^ places :=
          Nat.mul_lt_mul_of_pos_right Nat.lt_log2_self hplaces
      _ = 2 ^ 53 := by rw [← Nat.pow_add, Nat.add_right_comm, hlog]

/-- A natural number of at most 53 bits is moved up and not rounded. -/
theorem normalize_natCast {n places : Nat} (hn : n ≠ 0) (hlog : n.log2 + places = 52)
    (hpos : 0 < n * 2 ^ places) :
    UnpackedFloat.normalize Format.binary64 n 0 .positive =
      .finite .positive (n * 2 ^ places) (-places) hpos := by
  obtain ⟨hlow, hhigh⟩ := wide_of_log2 hn hlog
  have hcompare : compare (n : Int) 0 = .gt := Int.compare_eq_gt.mpr (by omega)
  have htarget : Format.binary64.targetExponent (totalExponent n 0) = -places := by
    show max ((n.log2 : Int) + 1 + 0 - (53 : Nat)) (-1074) = -places
    omega
  have hup : (0 - -(places : Int)).toNat = places := by omega
  have hdown : (0 : Int) - places = -places := by omega
  rw [UnpackedFloat.normalize, hcompare]
  simp only [UnpackedFloat.round, Int.toNat_natCast, htarget, decreaseExponent, hup, hdown,
    Nat.shiftLeft_eq]
  exact roundWithAccuracy_exact _ (targetExponent_wide hlow hhigh (by omega))

/-! ## Bits -/

/-- The bit in front of a mantissa of 53 bits is not stored, and comes back. -/
theorem toNat_withLeadingBit {mantissa : Nat} (hlow : 2 ^ 52 ≤ mantissa)
    (hhigh : mantissa < 2 ^ 53) : (1#1 ++ BitVec.ofNat 52 mantissa).toNat = mantissa := by
  rw [BitVec.toNat_append, BitVec.toNat_ofNat, Nat.or_comm]
  show mantissa % 2 ^ 52 ||| 2 ^ 52 = mantissa
  rw [Nat.or_two_pow_eq_add_of_lt (Nat.mod_lt _ (by decide))]
  omega

/-- The exponent of a number whose mantissa has 53 bits, as it is stored. -/
def storedExponent (exponent : Int) : BitVec 11 := BitVec.ofNat 11 (exponent + 1075).toNat

theorem toNat_storedExponent {exponent : Int} (h : exponent ≤ 971) :
    (storedExponent exponent).toNat = (exponent + 1075).toNat := by
  rw [storedExponent, BitVec.toNat_ofNat]
  omega

/-- The least exponent is stored as one, since zero stands for numbers with shorter mantissas. -/
theorem storedExponent_ne_zero {exponent : Int} (hleast : -1074 ≤ exponent)
    (hgreatest : exponent ≤ 971) : storedExponent exponent ≠ 0#11 := by
  intro h
  have hstored := toNat_storedExponent hgreatest
  rw [h, BitVec.toNat_zero] at hstored
  omega

/-- What is stored for infinity and NaN is beyond the greatest exponent. -/
theorem storedExponent_ne_allOnes {exponent : Int} (h : exponent ≤ 971) :
    storedExponent exponent ≠ -1#11 := by
  intro hall
  have hstored := toNat_storedExponent h
  rw [hall] at hstored
  change 2047 = _ at hstored
  omega

theorem pack_wide {mantissa : Nat} (hlow : 2 ^ 52 ≤ mantissa) (hhigh : mantissa < 2 ^ 53)
    (hpos : 0 < mantissa) {exponent : Int} (hgreatest : exponent ≤ 971) :
    UnpackedFloat.pack Format.binary64 (.finite .positive mantissa exponent hpos) =
      packComponents Format.binary64 .positive (storedExponent exponent)
        (BitVec.ofNat 52 mantissa) := by
  have hlog : mantissa.log2 = 52 := (Nat.log2_eq_iff (by omega)).mpr ⟨hlow, hhigh⟩
  have hbits : 52 + 1 = Format.binary64.mantissaBits := rfl
  have hbias : exponent + (Format.binary64.exponentBias : Int) +
      (Format.binary64.mantissaBitsWithoutImplicit : Int) = exponent + 1075 := by
    show exponent + 1023 + 52 = exponent + 1075
    omega
  have hfits : ¬ 2 ^ Format.binary64.exponentBits ≤ (exponent + 1075).toNat + 1 := by
    show ¬ 2 ^ 11 ≤ (exponent + 1075).toNat + 1
    omega
  simp only [UnpackedFloat.pack, hbias, hlog, if_neg hfits, if_pos hbits]
  rfl

/-- The bits of a number with a mantissa of 53 bits stand for that mantissa and its exponent. -/
theorem unpack_pack_wide {mantissa : Nat} (hlow : 2 ^ 52 ≤ mantissa) (hhigh : mantissa < 2 ^ 53)
    (hpos : 0 < mantissa) {exponent : Int} (hleast : -1074 ≤ exponent) (hgreatest : exponent ≤ 971) :
    (Float.Model.pack (.finite .positive mantissa exponent hpos)).unpack =
      .finite .positive mantissa exponent hpos := by
  have hunbiased : ((exponent + 1075).toNat : Int) -
      (Format.binary64.exponentBias + (52 : Nat)) = exponent := by
    show ((exponent + 1075).toNat : Int) - (1023 + 52) = exponent
    omega
  show UnpackedFloat.unpack Format.binary64 (UnpackedFloat.pack Format.binary64 _) = _
  rw [pack_wide hlow hhigh hpos hgreatest]
  simp only [UnpackedFloat.unpack, unpackExponent_packComponents, unpackMantissa_packComponents,
    unpackSign_packComponents, if_neg (storedExponent_ne_allOnes hgreatest),
    if_neg (storedExponent_ne_zero hleast hgreatest), toNat_storedExponent hgreatest,
    toNat_withLeadingBit hlow hhigh, hunbiased]
  rfl

/-! ## Reading whole numbers -/

/-- Every place that a mantissa is moved down by halves it. -/
theorem mantissa_shiftRight (em : ExtendedMantissa) (places : Nat) :
    (em >>> places).mantissa = em.mantissa / 2 ^ places := by
  induction places with
  | zero => exact (Nat.div_one _).symm
  | succ places ih =>
    show (em >>> places).mantissa / 2 = _
    rw [ih, Nat.div_div_eq_div_mul, Nat.pow_succ]

/-- A natural number that has been moved up is moved down again. -/
theorem roundToInt_shifted (n places : Nat) :
    roundToInt .positive (n * 2 ^ places) (-places) = n := by
  have hup : (-(places : Int) - 0).toNat = 0 := by omega
  have hdown : (0 - (-(places : Int) - (0 : Nat))).toNat = places := by omega
  unfold roundToInt
  simp only [decreaseExponent, hup, Nat.shiftLeft_zero, shiftToExponent, hdown, mantissa_shiftRight]
  show ((n * 2 ^ places / 2 ^ places : Nat) : Int) = n
  rw [Nat.mul_div_cancel n (Nat.two_pow_pos places)]

/-- A natural number below `2 ^ 53` comes back from its binary64 number. -/
theorem toUInt64_toFloat {n : UInt64} (h : n.toNat < 2 ^ 53) : n.toFloat.toUInt64 = n := by
  by_cases hn : n.toNat = 0
  · obtain rfl : n = 0 := UInt64.toNat_inj.mp hn
    rfl
  · have hlog : n.toNat.log2 < 53 := (Nat.log2_lt hn).mpr h
    obtain ⟨places, hplaces⟩ : ∃ places, n.toNat.log2 + places = 52 :=
      ⟨52 - n.toNat.log2, by omega⟩
    obtain ⟨hlow, hhigh⟩ := wide_of_log2 hn hplaces
    have hpos : 0 < n.toNat * 2 ^ places := Nat.lt_of_lt_of_le (by decide) hlow
    have hunpack : n.toFloat.toModel.unpack =
        .finite .positive (n.toNat * 2 ^ places) (-places) hpos := by
      show (Float.Model.pack (UnpackedFloat.normalize Format.binary64 n.toNat 0 .positive)).unpack =
        _
      rw [normalize_natCast hn hplaces hpos, unpack_pack_wide hlow hhigh hpos (by omega) (by omega)]
    show UInt64.ofNatClamp (n.toFloat.toModel.unpack.toInt 0 _).toNat = n
    rw [hunpack]
    show UInt64.ofNatClamp (roundToInt .positive (n.toNat * 2 ^ places) (-places)).toNat = n
    rw [roundToInt_shifted, Int.toNat_natCast]
    exact UInt64.toNat_inj.mp (UInt64.toNat_ofNatClamp_of_lt n.toNat_lt)

end FormulaEngine
