import Mathlib.Algebra.GroupWithZero.Nat
import RobotPuzzle.Json.Basic

/-!
A number read from an integer of a value is finite: its exponent stays far below the largest that a
double can have.
-/

namespace RobotPuzzle.Json

open Float.Model (Format)
open Float.Model.UnpackedFloat hiding isFinite neg

def Fits : Float.Model.UnpackedFloat → Prop
  | .zero _ => True
  | .finite _ _ exponent _ => exponent ≤ 971
  | _ => False

variable {mantissa : Nat} {exponent : Int}

theorem isFinite_unpack_iff (bits : BitVec Format.binary64.numBits) :
    (unpack .binary64 bits).isFinite = true ↔ unpackExponent bits ≠ -1#11 := by
  -- `simp` and `split` would open this function by equations that the library has already.
  delta unpack
  dsimp only
  by_cases top : unpackExponent bits = -1#(Format.binary64.exponentBits)
  · rw [if_pos top]
    constructor
    · intro finite
      split at finite <;> contradiction
    · intro other
      exact (other top).elim
  · rw [if_neg top]
    refine iff_of_true ?_ top
    by_cases least : unpackExponent bits = 0#(Format.binary64.exponentBits)
    · rw [if_pos least]
      by_cases none : unpackMantissa bits = 0#(Format.binary64.mantissaBitsWithoutImplicit)
      · rw [dif_pos none]
        rfl
      · rw [dif_neg none]
        rfl
    · rw [if_neg least]
      rfl

theorem fits_unpack {model : Float.Model} (finite : model.isFinite = true) :
    Fits model.unpack := by
  have belowTop := (isFinite_unpack_iff model.toBits.toBitVec).1 finite
  have small : (@unpackExponent .binary64 model.toBits.toBitVec).toNat ≤ 2046 := by
    have range : (@unpackExponent .binary64 model.toBits.toBitVec).toNat < 2048 := BitVec.isLt _
    have top : (-1#11).toNat = 2047 := rfl
    have different : (@unpackExponent .binary64 model.toBits.toBitVec).toNat ≠ (-1#11).toNat :=
      fun same => belowTop (BitVec.eq_of_toNat_eq same)
    omega
  have bias : Format.binary64.exponentBias = 1023 := rfl
  have width : Format.binary64.mantissaBitsWithoutImplicit = 52 := rfl
  delta Float.Model.unpack unpack
  dsimp only
  rw [if_neg belowTop]
  by_cases least : @unpackExponent .binary64 model.toBits.toBitVec = 0#(Format.binary64.exponentBits)
  · have value : (@unpackExponent .binary64 model.toBits.toBitVec).toNat = 0 :=
      congrArg BitVec.toNat least
    rw [if_pos least]
    by_cases none : @unpackMantissa .binary64 model.toBits.toBitVec =
        0#(Format.binary64.mantissaBitsWithoutImplicit)
    · rw [dif_pos none]
      trivial
    · rw [dif_neg none]
      change _ ≤ (971 : Int)
      omega
  · rw [if_neg least]
    change _ ≤ (971 : Int)
    omega

theorem isFinite_pack {number : Float.Model.UnpackedFloat} (fits : Fits number) :
    (Float.Model.pack number).isFinite = true := by
  refine (isFinite_unpack_iff (pack .binary64 number)).2 ?_
  cases number with
  | notANumber => exact fits.elim
  | infinity sign => exact fits.elim
  | zero sign =>
      have bits : unpackExponent (pack .binary64 (.zero sign)) = 0#11 :=
        unpackExponent_packComponents
      rw [bits]
      decide
  | finite sign mantissa exponent positive =>
      have bias : Format.binary64.exponentBias = 1023 := rfl
      have width : Format.binary64.mantissaBitsWithoutImplicit = 52 := rfl
      have powers : 2 ^ Format.binary64.exponentBits = 2048 := rfl
      have small : exponent ≤ 971 := fits
      delta pack
      dsimp only
      rw [if_neg (by omega)]
      split
      · rw [unpackExponent_packComponents]
        intro top
        have values := congrArg BitVec.toNat top
        rw [BitVec.toNat_ofNat, powers, Nat.mod_eq_of_lt (by omega)] at values
        have most : (-1#11).toNat = 2047 := rfl
        omega
      · rw [unpackExponent_packComponents]
        decide

theorem isFinite_neg {value : Float} (finite : value.isFinite = true) :
    (-value).isFinite = true := by
  have fits : Fits value.toModel.unpack.neg := by
    have before := fits_unpack finite
    generalize value.toModel.unpack = number at before
    cases number <;> exact before
  exact isFinite_pack fits

theorem mantissa_shiftRight (extended : ExtendedMantissa) (count : Nat) :
    (extended >>> count).mantissa ≤ extended.mantissa := by
  induction count with
  | zero => exact Nat.le_refl _
  | succ count ih =>
      have halved : (extended >>> (count + 1)).mantissa = (extended >>> count).mantissa / 2 := rfl
      omega

theorem roundedMantissa_le (extended : ExtendedMantissa) :
    extended.roundedMantissa ≤ extended.mantissa + 1 := by
  rw [ExtendedMantissa.roundedMantissa]
  cases extended.accuracy with
  | exact => exact Nat.le_succ _
  | inexact order => cases order <;> simp only [Accuracy.roundToNearestEven] <;> omega

theorem targetExponent_le {size : Nat} {limit : Int} (small : mantissa < 2 ^ (size + 1))
    (low : -1074 ≤ limit) (fits : size + exponent ≤ limit + 52) :
    Format.binary64.targetExponent (Float.Model.totalExponent mantissa exponent) ≤ limit := by
  have minimum : Format.binary64.minExponent = -1074 := rfl
  have width : Format.binary64.mantissaBits = 53 := rfl
  have log : mantissa.log2 ≤ size := by
    by_cases none : mantissa = 0
    · simp [none]
    · exact Nat.le_of_lt_succ ((Nat.log2_lt none).2 small)
  simp only [Format.targetExponent, Float.Model.totalExponent]
  omega

theorem shiftToTargetExponent_le {size : Nat} {limit : Int} (small : mantissa < 2 ^ (size + 1))
    (low : -1074 ≤ limit) (first : exponent ≤ limit) (second : size + exponent ≤ limit + 52) :
    (shiftToTargetExponent .binary64 mantissa exponent .exact).1.mantissa ≤ mantissa ∧
      (shiftToTargetExponent .binary64 mantissa exponent .exact).2 ≤ limit := by
  refine ⟨mantissa_shiftRight _ _, ?_⟩
  have target := targetExponent_le small low second
  simp only [shiftToTargetExponent, shiftToExponent]
  omega

theorem fits_roundWithAccuracy (sign : Sign) (small : mantissa < 2 ^ 116) (low : exponent ≤ 0) :
    Fits (roundWithAccuracy .binary64 sign mantissa exponent .exact) := by
  obtain ⟨shrunk, early⟩ :=
    @shiftToTargetExponent_le mantissa exponent 115 63 small (by decide) (by omega) (by omega)
  delta roundWithAccuracy
  dsimp only
  generalize shiftToTargetExponent .binary64 mantissa exponent .exact = first at *
  have rounded := roundedMantissa_le first.1
  have bound : first.1.roundedMantissa < 2 ^ 117 := by omega
  obtain ⟨-, late⟩ :=
    @shiftToTargetExponent_le _ first.2 116 127 bound (by decide) (by omega) (by omega)
  by_cases none :
      (shiftToTargetExponent .binary64 first.1.roundedMantissa first.2 .exact).1.mantissa = 0
  · rw [dif_pos none]
    trivial
  · rw [dif_neg none]
    exact Int.le_trans late (by decide)

theorem fits_round (sign : Sign) (small : mantissa < 2 ^ 64) :
    Fits (Float.Model.UnpackedFloat.round .binary64 sign mantissa 0) := by
  have minimum : Format.binary64.minExponent = -1074 := rfl
  have width : Format.binary64.mantissaBits = 53 := rfl
  simp only [Float.Model.UnpackedFloat.round, decreaseExponent]
  refine fits_roundWithAccuracy sign ?_ (by omega)
  have shift : (0 - Format.binary64.targetExponent
      (Float.Model.totalExponent mantissa 0)).toNat ≤ 52 := by
    simp only [Format.targetExponent, Float.Model.totalExponent]
    omega
  rw [Nat.shiftLeft_eq]
  calc mantissa * 2 ^ _
    _ ≤ mantissa * 2 ^ 52 := Nat.mul_le_mul_left _ (Nat.pow_le_pow_right (by decide) shift)
    _ < 2 ^ 116 := by omega

theorem isFinite_toFloat (number : UInt64) : number.toFloat.isFinite = true := by
  refine isFinite_pack ?_
  have small : number.toNat < 2 ^ 64 := number.toNat_lt
  simp only [ofUInt64, Float.Model.UnpackedFloat.ofNat, Float.Model.UnpackedFloat.ofInt,
    Float.Model.UnpackedFloat.normalize]
  split
  · exact fits_round _ (by omega)
  · trivial
  · exact fits_round _ (by omega)

theorem isFinite_floatOfInt (value : Int) : (floatOfInt value).isFinite = true := by
  rw [floatOfInt]
  split
  · exact isFinite_neg (isFinite_toFloat _)
  · exact isFinite_toFloat _

end RobotPuzzle.Json
