import Mathlib.Data.List.Induction
import RobotPuzzle.Text.Numeral

/-! The texts that are numerals, and the numbers that they denote. -/

namespace RobotPuzzle.Text

def IsDigit (c : Char) : Prop := '0' ≤ c ∧ c ≤ '9'

instance : DecidablePred IsDigit := fun c => inferInstanceAs (Decidable ('0' ≤ c ∧ c ≤ '9'))

def digitValue (c : Char) : Nat := c.toNat - '0'.toNat

def decimalFrom (value : Nat) (digits : List Char) : Nat :=
  digits.foldl (fun value c => value * 10 + digitValue c) value

structure Denotes (bound : Nat) (digits : List Char) (number : Nat) : Prop where
  nonempty : digits ≠ []
  inside : ∀ c ∈ digits, IsDigit c
  value : decimalFrom 0 digits = number
  below : number < bound

def signs : List (List Char) := [[], ['+']]

variable {bound value result : Nat} {c : Char} {text digits : List Char}

theorem digit?_eq_some_iff {digit : Nat} :
    digit? c = some digit ↔ IsDigit c ∧ digitValue c = digit := by
  simp only [digit?, IsDigit]
  split
  next inside => simp [inside, digitValue]
  next outside => simp [outside]

theorem le_decimalFrom (value : Nat) (digits : List Char) : value ≤ decimalFrom value digits := by
  induction digits generalizing value with
  | nil => exact Nat.le_refl value
  | cons c rest ih =>
      have further := ih (value * 10 + digitValue c)
      simp only [decimalFrom, List.foldl_cons] at further ⊢
      omega

theorem decimalFrom_concat (value : Nat) (digits : List Char) (c : Char) :
    decimalFrom value (digits ++ [c]) = decimalFrom value digits * 10 + digitValue c := by
  simp [decimalFrom]

/-- The bound is tested after every digit, and what is read never becomes less. -/
theorem digitsFrom_eq_ok_iff (started : digits = [] → value < bound) :
    digitsFrom bound value digits = .ok result ↔
      (∀ c ∈ digits, IsDigit c) ∧ decimalFrom value digits = result ∧ result < bound := by
  induction digits generalizing value with
  | nil =>
      have below := started rfl
      simp only [digitsFrom, decimalFrom, List.foldl_nil, Except.ok.injEq]
      constructor
      · rintro rfl
        exact ⟨by simp, rfl, below⟩
      · exact fun denoted => denoted.2.1
  | cons c rest ih =>
      rw [List.forall_mem_cons]
      simp only [digitsFrom]
      split
      next noDigit =>
        have outside : ¬IsDigit c := fun inside => by
          rw [digit?_eq_some_iff.2 ⟨inside, rfl⟩] at noDigit
          contradiction
        simp [outside]
      next digit found =>
        obtain ⟨inside, rfl⟩ := digit?_eq_some_iff.1 found
        have further := le_decimalFrom (value * 10 + digitValue c) rest
        have same : decimalFrom value (c :: rest) =
            decimalFrom (value * 10 + digitValue c) rest := rfl
        rw [same]
        split
        next below =>
          rw [ih fun _ => below]
          simp [inside]
        next above =>
          simp only [reduceCtorEq, false_iff]
          rintro ⟨-, rfl, below⟩
          omega

theorem digitsFrom_eq_ok_iff_denotes (nonempty : digits ≠ []) :
    digitsFrom bound 0 digits = .ok result ↔ Denotes bound digits result := by
  rw [digitsFrom_eq_ok_iff fun none => absurd none nonempty]
  exact ⟨fun ⟨inside, value, below⟩ => ⟨nonempty, inside, value, below⟩,
    fun ⟨_, inside, value, below⟩ => ⟨inside, value, below⟩⟩

theorem not_denotes_plus (rest : List Char) : ¬Denotes bound ('+' :: rest) result := by
  intro denotes
  have plus : IsDigit '+' := denotes.inside '+' List.mem_cons_self
  exact absurd plus (by decide)

/-- A numeral is made of digits, with a plus sign before them or without. -/
theorem numeral?_eq_some_iff : numeral? bound text = some result ↔
    ∃ sign ∈ signs, ∃ digits, text = sign ++ digits ∧ Denotes bound digits result := by
  have toOption : numeral? bound text = some result ↔ numeral bound text = .ok result := by
    simp only [numeral?]
    cases numeral bound text <;> simp [Except.toOption]
  have either : (∃ sign ∈ signs, ∃ digits, text = sign ++ digits ∧ Denotes bound digits result) ↔
      Denotes bound text result ∨ ∃ digits, text = '+' :: digits ∧ Denotes bound digits result := by
    simp [signs]
  rw [toOption, either]
  simp only [numeral]
  split
  next => simpa using fun denotes : Denotes bound [] result => denotes.nonempty rfl
  next =>
    have bare : ¬Denotes bound [] result := fun denotes => denotes.nonempty rfl
    simp [not_denotes_plus, bare]
  next digits nonempty =>
    rw [digitsFrom_eq_ok_iff_denotes nonempty]
    simp [not_denotes_plus]
  next nonempty _ noPlus =>
    rw [digitsFrom_eq_ok_iff_denotes nonempty]
    constructor
    · exact .inl
    · rintro (denotes | ⟨digits, rfl, -⟩)
      · exact denotes
      · exact (noPlus digits rfl).elim

/-! Numbers of one digit. -/

theorem IsDigit.eq_of_value {other : Char} (inside : IsDigit c) (otherInside : IsDigit other)
    (same : digitValue c = digitValue other) : c = other := by
  have lower : '0'.toNat ≤ c.toNat := inside.1
  have otherLower : '0'.toNat ≤ other.toNat := otherInside.1
  simp only [digitValue] at same
  rw [← Char.toNat_inj]
  omega

theorem decimalFrom_zeros (count : Nat) : decimalFrom 0 (List.replicate count '0') = 0 := by
  induction count with
  | zero => rfl
  | succ count ih =>
      rw [List.replicate_succ', decimalFrom_concat, ih]
      rfl

theorem eq_zeros_of_decimalFrom (inside : ∀ c ∈ digits, IsDigit c)
    (zero : decimalFrom 0 digits = 0) : ∃ count, digits = List.replicate count '0' := by
  induction digits using List.reverseRecOn with
  | nil => exact ⟨0, rfl⟩
  | append_singleton digits c ih =>
      rw [decimalFrom_concat] at zero
      have last : IsDigit c := inside c (by simp)
      have none : digitValue c = digitValue '0' := by
        have isZero : digitValue '0' = 0 := rfl
        omega
      have before : ∀ c ∈ digits, IsDigit c := fun c member =>
        inside c (List.mem_append_left _ member)
      obtain ⟨count, rfl⟩ := ih before (by omega)
      obtain rfl := last.eq_of_value (by decide) none
      exact ⟨count + 1, List.replicate_succ'.symm⟩

theorem denotes_iff_of_lt_ten (small : result < 10) : Denotes bound digits result ↔
    result < bound ∧ ∃ zeros last, digits = List.replicate zeros '0' ++ [last] ∧ IsDigit last ∧
      digitValue last = result := by
  constructor
  · intro denotes
    refine ⟨denotes.below, ?_⟩
    obtain ⟨front, last, rfl⟩ : ∃ front last, digits = front ++ [last] :=
      ⟨_, _, (List.dropLast_concat_getLast denotes.nonempty).symm⟩
    have value := denotes.value
    rw [decimalFrom_concat] at value
    have before : ∀ c ∈ front, IsDigit c := fun c member =>
      denotes.inside c (List.mem_append_left _ member)
    obtain ⟨zeros, rfl⟩ := eq_zeros_of_decimalFrom before (by omega)
    rw [decimalFrom_zeros] at value
    exact ⟨zeros, last, rfl, denotes.inside last (by simp), by omega⟩
  · rintro ⟨below, zeros, last, rfl, inside, value⟩
    refine ⟨by simp, ?_, ?_, below⟩
    · intro c member
      rcases List.mem_append.1 member with isZero | isLast
      · obtain rfl := List.eq_of_mem_replicate isZero
        simp [IsDigit]
      · exact List.mem_singleton.1 isLast ▸ inside
    · rw [decimalFrom_concat, decimalFrom_zeros]
      omega

end RobotPuzzle.Text
