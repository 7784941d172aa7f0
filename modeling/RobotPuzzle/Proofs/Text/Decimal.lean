import Mathlib.Algebra.GroupWithZero.Nat
import RobotPuzzle.Proofs.Text.Numeral

/-! The decimal digits of a number: they denote it, and there is no shorter way to write it. -/

namespace RobotPuzzle.Text

variable {value bound : Nat} {digits : List Char}

theorem decimalFrom_eq_ofDigitChars (value : Nat) (digits : List Char) :
    decimalFrom value digits = Nat.ofDigitChars 10 digits value := by
  rw [Nat.ofDigitChars_eq_foldl]
  simp only [decimalFrom, digitValue, Nat.mul_comm]

theorem decimalFrom_append (value : Nat) (first second : List Char) :
    decimalFrom value (first ++ second) = decimalFrom (decimalFrom value first) second :=
  List.foldl_append

theorem digitValue_le {c : Char} (inside : IsDigit c) : digitValue c ≤ 9 := by
  have upper : c.toNat ≤ '9'.toNat := inside.2
  have nine : '9'.toNat - '0'.toNat = 9 := rfl
  simp only [digitValue]
  omega

theorem decimalFrom_lt (inside : ∀ c ∈ digits, IsDigit c) :
    decimalFrom 0 digits < 10 ^ digits.length := by
  induction digits using List.reverseRecOn with
  | nil => exact Nat.one_pos
  | append_singleton front last ih =>
      have before := ih fun c member => inside c (List.mem_append_left _ member)
      have nine := digitValue_le (inside last (by simp))
      rw [decimalFrom_concat, List.length_append, List.length_singleton, Nat.pow_succ]
      omega

theorem denotes_toDigits (below : value < bound) :
    Denotes bound (Nat.toDigits 10 value) value where
  nonempty := Nat.toDigits_ne_nil
  inside c member := by
    have digit := Nat.isDigit_of_mem_toDigits (by decide) (by decide) member
    simp only [Char.isDigit, Bool.and_eq_true, decide_eq_true_eq] at digit
    exact digit
  value := by rw [decimalFrom_eq_ofDigitChars, Nat.ofDigitChars_ten_toDigits]
  below := below

theorem Denotes.zeros (denotes : Denotes bound digits value) (count : Nat) :
    Denotes bound (List.replicate count '0' ++ digits) value where
  nonempty := by simp [denotes.nonempty]
  inside c member := by
    rcases List.mem_append.1 member with isZero | inDigits
    · rw [List.eq_of_mem_replicate isZero]
      decide
    · exact denotes.inside c inDigits
  value := by rw [decimalFrom_append, decimalFrom_zeros, denotes.value]
  below := denotes.below

theorem toDigits_ne_zero_cons (value : Nat) (rest : List Char) (nonempty : rest ≠ []) :
    Nat.toDigits 10 value ≠ '0' :: rest := by
  intro leading
  have denotes := denotes_toDigits (Nat.lt_succ_self value)
  rw [leading] at denotes
  have inside : ∀ c ∈ rest, IsDigit c := fun c member =>
    denotes.inside c (List.mem_cons_of_mem _ member)
  have small : value < 10 ^ rest.length := by
    rw [← denotes.value]
    exact decimalFrom_lt inside
  have short := (Nat.length_toDigits_le_iff (by decide) (List.length_pos_iff.2 nonempty)).2 small
  rw [leading, List.length_cons] at short
  omega

end RobotPuzzle.Text
