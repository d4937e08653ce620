import Mathlib
import SmallScheme.Word

namespace SmallScheme

/-!
# Reals that compare equal

Main results.  A whole number that is widened to a real compares equal to zero only if it is zero:
rounding leaves it a first digit.  Two reals compare equal exactly if they are compared as the same
real, where the zeros count as one and not-a-number as nothing.
-/

open Float.Model (Format UnpackedFloat totalExponent)
open Float.Model.UnpackedFloat

/-! Rounding a whole number to the digits that fit. -/

theorem mantissa_shiftRight
    (mantissa : ExtendedMantissa)
    (places : Nat) :
    (mantissa >>> places).mantissa = mantissa.mantissa / 2 ^ places := by
  change (places.repeat ExtendedMantissa.shiftRightOne mantissa).mantissa = _
  induction places with
  | zero => exact (Nat.div_one _).symm
  | succ places inductionHypothesis =>
      rw [Nat.repeat, Nat.pow_succ, ← Nat.div_div_eq_div_mul, ← inductionHypothesis]
      rfl

theorem roundedMantissa_cases
    (mantissa : ExtendedMantissa) :
    mantissa.roundedMantissa = mantissa.mantissa ∨
      mantissa.roundedMantissa = mantissa.mantissa + 1 := by
  obtain ⟨kept, half, more⟩ := mantissa
  cases half with
  | false => cases more <;> exact .inl rfl
  | true =>
      cases more with
      | false =>
          change kept + kept % 2 = kept ∨ kept + kept % 2 = kept + 1
          omega
      | true => exact .inr rfl

/-- The mantissa has all the digits that fit, and the exponent is that of a whole number. -/
structure Settled (mantissa : Nat) (exponent : Int) : Prop where
  least : 2 ^ 52 ≤ mantissa
  most : mantissa < 2 ^ 53
  fromBelow : -52 ≤ exponent
  fromAbove : exponent ≤ 12

theorem Settled.log2_eq
    {mantissa : Nat}
    {exponent : Int}
    (settled : Settled mantissa exponent) :
    mantissa.log2 = 52 := by
  have least := settled.least
  have fromBelow := (Nat.le_log2 (by omega)).mpr settled.least
  have fromAbove := (Nat.log2_lt (by omega)).mpr settled.most
  omega

/-- A number with these parts is none of the two zeros. -/
theorem Settled.unpack_pack_ne_zero
    {mantissa : Nat}
    {exponent : Int}
    {sign other : Sign}
    (settled : Settled mantissa exponent)
    (positive : 0 < mantissa) :
    (Float.Model.pack (.finite sign mantissa exponent positive)).unpack ≠ .zero other := by
  have digits : mantissa.log2 + 1 = Format.binary64.mantissaBits := by
    rw [settled.log2_eq]
    rfl
  have fromBelow := settled.fromBelow
  have fromAbove := settled.fromAbove
  obtain ⟨biased, isBiased⟩ :
      ∃ biased : Nat, (biased : Int) = exponent + 1075 :=
    ⟨(exponent + 1075).toNat, by omega⟩
  have biased_eq :
      (exponent + Format.binary64.exponentBias + Format.binary64.mantissaBitsWithoutImplicit).toNat
        = biased := by
    change (exponent + 1023 + 52).toNat = _
    omega
  have packed :
      UnpackedFloat.pack Format.binary64 (.finite sign mantissa exponent positive) =
        packComponents Format.binary64 sign (BitVec.ofNat 11 biased)
          (BitVec.ofNat 52 mantissa) := by
    simp only [UnpackedFloat.pack, biased_eq]
    rw [if_neg (by change ¬2048 ≤ biased + 1; omega), if_pos digits]
  have isNormal : BitVec.ofNat 11 biased ≠ 0#11 := by
    intro same
    have := congrArg BitVec.toNat same
    simp only [BitVec.toNat_ofNat] at this
    omega
  change UnpackedFloat.unpack Format.binary64 (UnpackedFloat.pack _ _) ≠ _
  rw [packed]
  simp only [UnpackedFloat.unpack, unpackExponent_packComponents]
  split
  · split <;> exact nofun
  · exact nofun

/-- Rounding the mantissa may carry into one more digit, and then it is shifted once more. -/
theorem settled_of_rounded
    {rounded : Nat}
    {exponent : Int}
    (least : 2 ^ 52 ≤ rounded)
    (most : rounded ≤ 2 ^ 53)
    (fromBelow : -52 ≤ exponent)
    (fromAbove : exponent ≤ 11) :
    Settled (shiftToTargetExponent Format.binary64 rounded exponent .exact).1.mantissa
      (shiftToTargetExponent Format.binary64 rounded exponent .exact).2 := by
  have target :
      Format.binary64.targetExponent (totalExponent rounded exponent) =
        rounded.log2 - 52 + exponent := by
    change max ((rounded.log2 + 1 + exponent : Int) - 53) (3 - 1024 - 53) = _
    have := (Nat.le_log2 (by omega)).mpr least
    omega
  simp only [shiftToTargetExponent, shiftToExponent, target, mantissa_shiftRight,
    ExtendedMantissa.ofMantissaAndAccuracy]
  have fromLeast := (Nat.le_log2 (by omega)).mpr least
  rcases Nat.lt_or_eq_of_le most with below | rfl
  · have := (Nat.log2_lt (by omega)).mpr below
    have log : rounded.log2 = 52 := by omega
    rw [log]
    have : ((52 : Nat) - 52 + exponent - exponent : Int).toNat = 0 := by omega
    rw [this]
    exact ⟨by omega, by omega, by omega, by omega⟩
  · rw [Nat.log2_two_pow]
    have : ((53 : Nat) - 52 + exponent - exponent : Int).toNat = 1 := by omega
    rw [this]
    exact ⟨by omega, by omega, by omega, by omega⟩

/--
A number is shifted up until it has all the digits, or else down until it has no more; either way
its first digit ends up in the place of the first digit that fits.
-/
theorem exists_shifted
    {number : Nat}
    (positive : 0 < number) :
    ∃ shifted : ExtendedMantissa,
      2 ^ 52 ≤ shifted.mantissa ∧ shifted.mantissa < 2 ^ 53 ∧
        shiftToTargetExponent Format.binary64 (number <<< (52 - number.log2))
            (0 - (52 - number.log2 : Nat)) .exact =
          (shifted, (number.log2 - 52 : Int)) := by
  have nonzero : number ≠ 0 := Nat.ne_of_gt positive
  have fromLeast := (Nat.le_log2 nonzero).mp (Nat.le_refl number.log2)
  have toMost := (Nat.log2_lt nonzero).mp (Nat.lt_succ_self number.log2)
  generalize isUp : 52 - number.log2 = up
  let down := number.log2 - 52
  have nonzeroUp : number <<< up ≠ 0 := by
    rw [Nat.shiftLeft_eq]
    exact Nat.ne_of_gt (Nat.mul_pos positive (Nat.two_pow_pos _))
  have digits : (number <<< up).log2 = 52 + down := by
    rw [Nat.log2_eq_iff nonzeroUp, Nat.shiftLeft_eq]
    have same : 52 + down = number.log2 + up := by omega
    rw [same, Nat.add_right_comm, Nat.pow_add, Nat.pow_add]
    exact ⟨Nat.mul_le_mul_right _ fromLeast, Nat.mul_lt_mul_of_pos_right toMost (Nat.two_pow_pos _)⟩
  have target :
      Format.binary64.targetExponent (totalExponent (number <<< up) (0 - up)) =
        (number.log2 : Int) - 52 := by
    change max (((number <<< up).log2 + 1 + (0 - up) : Int) - 53) (3 - 1024 - 53) = _
    omega
  have isDown : ((number.log2 : Int) - 52 - (0 - up)).toNat = down := by omega
  have ends : (0 : Int) - up + down = number.log2 - 52 := by omega
  have bounds := (Nat.log2_eq_iff nonzeroUp).mp digits
  refine ⟨ExtendedMantissa.ofMantissaAndAccuracy (number <<< up) .exact >>> down, ?_, ?_, ?_⟩
  · rw [mantissa_shiftRight]
    refine (Nat.le_div_iff_mul_le (Nat.two_pow_pos _)).mpr ?_
    exact Nat.pow_add 2 52 down ▸ bounds.1
  · rw [mantissa_shiftRight]
    refine (Nat.div_lt_iff_lt_mul (Nat.two_pow_pos _)).mpr ?_
    rw [← Nat.pow_add, Nat.add_right_comm 52 1 down]
    exact bounds.2
  · simp only [shiftToTargetExponent, target, shiftToExponent, isDown, ends]

/-- Every whole number but zero that is the size of a word is rounded to such parts. -/
theorem exists_round_eq
    (sign : Sign)
    {number : Nat}
    (positive : 0 < number)
    (small : number < 2 ^ 64) :
    ∃ mantissa exponent, ∃ isPositive : 0 < mantissa,
      Settled mantissa exponent ∧
        UnpackedFloat.round Format.binary64 sign number 0 =
          .finite sign mantissa exponent isPositive := by
  obtain ⟨shifted, least, most, isShifted⟩ := exists_shifted positive
  have log := (Nat.log2_lt (Nat.ne_of_gt positive)).mpr small
  have target :
      Format.binary64.targetExponent (totalExponent number 0) = (number.log2 : Int) - 52 := by
    change max ((number.log2 + 1 + 0 : Int) - 53) (3 - 1024 - 53) = _
    omega
  have isUp : ((0 : Int) - (number.log2 - 52)).toNat = 52 - number.log2 := by omega
  have rounded := roundedMantissa_cases shifted
  have settled :
      Settled
        (shiftToTargetExponent Format.binary64 shifted.roundedMantissa (number.log2 - 52)
          .exact).1.mantissa
        (shiftToTargetExponent Format.binary64 shifted.roundedMantissa (number.log2 - 52)
          .exact).2 :=
    settled_of_rounded (by omega) (by omega) (by omega) (by omega)
  have isPositive := Nat.lt_of_lt_of_le (Nat.two_pow_pos 52) settled.least
  refine ⟨_, _, isPositive, settled, ?_⟩
  rw [UnpackedFloat.round, target]
  simp only [decreaseExponent, isUp, roundWithAccuracy, isShifted]
  exact dif_neg (Nat.ne_of_gt isPositive)

/-! Whole numbers that are zero as reals. -/

theorem exists_zero_of_beq_zero
    {real : Float}
    (isZero : (real == 0) = true) :
    ∃ sign, real.toModel.unpack = .zero sign := by
  rcases (Float.beq_iff_ne_nan_and_eq.mp isZero).2.2 with rfl | ⟨rfl, _⟩ | ⟨rfl, _⟩
  · exact ⟨.positive, rfl⟩
  · exact ⟨.positive, rfl⟩
  · exact ⟨.negative, rfl⟩

/-- A word but zero is widened by rounding its size, with the sign of the word. -/
theorem exists_ofInt64_eq
    {word : Int64}
    (nonzero : word ≠ 0) :
    ∃ sign,
      Float.Model.ofInt64 word =
        .pack (UnpackedFloat.round Format.binary64 sign word.toInt.natAbs 0) := by
  rcases Int.lt_trichotomy word.toInt 0 with negative | same | positive
  · refine ⟨.negative, ?_⟩
    have size : (-word.toInt).toNat = word.toInt.natAbs := by omega
    rw [← size]
    simp only [Float.Model.ofInt64, UnpackedFloat.ofInt64, UnpackedFloat.ofInt,
      UnpackedFloat.normalize, Int.compare_eq_lt.mpr negative]
  · exact (nonzero (Int64.toInt_inj.mp same)).elim
  · refine ⟨.positive, ?_⟩
    have size : word.toInt.toNat = word.toInt.natAbs := by omega
    rw [← size]
    simp only [Float.Model.ofInt64, UnpackedFloat.ofInt64, UnpackedFloat.ofInt,
      UnpackedFloat.normalize, Int.compare_eq_gt.mpr positive]

theorem realOfWord_beq_zero
    (word : Int64) :
    (realOfWord word == 0) = decide (word = 0) := by
  by_cases isZero : word = 0
  · subst isZero
    rfl
  · rw [decide_eq_false isZero, Bool.eq_false_iff]
    intro equal
    obtain ⟨other, unpacked⟩ := exists_zero_of_beq_zero equal
    obtain ⟨sign, rounded⟩ := exists_ofInt64_eq isZero
    have nonzero : word.toInt ≠ 0 := fun same => isZero (Int64.toInt_inj.mp same)
    have fromBelow := Int64.le_toInt word
    have fromAbove := Int64.toInt_lt word
    obtain ⟨mantissa, exponent, isPositive, settled, round_eq⟩ :=
      @exists_round_eq sign word.toInt.natAbs (by omega) (by omega)
    change (Float.Model.ofInt64 word).unpack = _ at unpacked
    rw [rounded, round_eq] at unpacked
    exact settled.unpack_pack_ne_zero isPositive unpacked

/-! What reals are compared as. -/

/-- What a real is when it is compared: both zeros are one, and not-a-number is nothing. -/
def comparedAs? (real : Float) : Option Float :=
  if real = Float.nan then none else if real = -0 then some 0 else some real

/-- Reals compare equal exactly if they are compared as the same thing. -/
theorem beq_iff_comparedAs?
    (first second : Float) :
    (first == second) = true ↔
      ∃ common, comparedAs? first = some common ∧ comparedAs? second = some common := by
  rw [Float.beq_iff_ne_nan_and_eq]
  unfold comparedAs?
  -- Each of the two is not-a-number, the negative zero or another real.
  split_ifs <;> simp_all <;> grind

theorem comparedAs?_eq_none_iff
    (real : Float) :
    comparedAs? real = none ↔ real.isNaN = true := by
  unfold comparedAs?
  split_ifs <;> simp_all

end SmallScheme
