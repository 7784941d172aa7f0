import Mathlib.Data.List.TakeWhile
import RobotPuzzle.Text.Blank

/-! What trimming leaves of a text, without the order in which the two ends are cut. -/

namespace RobotPuzzle.Text

variable {text core before rest : List Char}

/-- The text is the core with white space before and after it, and the core neither begins nor ends
with white space. -/
def Strips (text core : List Char) : Prop :=
  ∃ before after, text = before ++ core ++ after ∧
    (∀ c ∈ before, isBlank c = true) ∧ (∀ c ∈ after, isBlank c = true) ∧
    (∀ c ∈ core.head?, isBlank c = false) ∧ (∀ c ∈ core.getLast?, isBlank c = false)

theorem exists_append_trimStart (text : List Char) :
    ∃ before, text = before ++ trimStart text ∧ ∀ c ∈ before, isBlank c = true :=
  ⟨text.takeWhile isBlank, (List.takeWhile_append_dropWhile).symm,
    fun _ member => List.mem_takeWhile_imp member⟩

theorem isBlank_of_mem_head?_trimStart {c : Char} (first : c ∈ (trimStart text).head?) :
    isBlank c = false := by
  have kept := List.head?_dropWhile_not isBlank text
  rw [trimStart, Option.mem_def] at first
  simpa [first] using kept

theorem trimStart_append (blank : ∀ c ∈ before, isBlank c = true) :
    trimStart (before ++ rest) = trimStart rest :=
  List.dropWhile_append_of_pos blank

theorem trimStart_eq_self (first : ∀ c ∈ text.head?, isBlank c = false) :
    trimStart text = text := by
  cases text with
  | nil => rfl
  | cons c rest => exact List.dropWhile_cons_of_neg (by simp [first c rfl])

theorem trimStart_eq_nil (blank : ∀ c ∈ text, isBlank c = true) : trimStart text = [] :=
  List.dropWhile_eq_nil_iff.2 blank

theorem trim_of_strips (strips : Strips text core) : trim text = core := by
  obtain ⟨before, after, rfl, blankBefore, blankAfter, first, last⟩ := strips
  by_cases empty : core = []
  · subst empty
    have blank : ∀ c ∈ before ++ [] ++ after, isBlank c = true := by
      simpa [or_imp, forall_and] using ⟨blankBefore, blankAfter⟩
    rw [trim, trimStart_eq_nil blank]
    rfl
  · have firstToo : ∀ c ∈ (core ++ after).head?, isBlank c = false := by
      simpa [List.head?_append, List.head?_eq_some_head empty] using first
    have lastToo : ∀ c ∈ core.reverse.head?, isBlank c = false := by
      rwa [List.head?_reverse]
    have blankReversed : ∀ c ∈ after.reverse, isBlank c = true := by
      simpa using blankAfter
    rw [trim, List.append_assoc, trimStart_append blankBefore, trimStart_eq_self firstToo,
      List.reverse_append, trimStart_append blankReversed, trimStart_eq_self lastToo,
      List.reverse_reverse]

theorem strips_trim (text : List Char) : Strips text (trim text) := by
  obtain ⟨before, split, blankBefore⟩ := exists_append_trimStart text
  obtain ⟨after, splitBack, blankAfter⟩ := exists_append_trimStart (trimStart text).reverse
  have inner : trimStart text = trim text ++ after.reverse := by
    rw [trim, ← List.reverse_append, ← splitBack, List.reverse_reverse]
  refine ⟨before, after.reverse, ?_, blankBefore, by simpa using blankAfter, ?_, ?_⟩
  · rw [List.append_assoc, ← inner]
    exact split
  · intro c first
    have firstToo : c ∈ (trimStart text).head? := by
      rw [inner, List.head?_append, Option.mem_def.1 first]
      rfl
    exact isBlank_of_mem_head?_trimStart firstToo
  · intro c last
    rw [trim, List.getLast?_reverse] at last
    exact isBlank_of_mem_head?_trimStart last

theorem trim_eq_iff : trim text = core ↔ Strips text core := by
  constructor
  · rintro rfl
    exact strips_trim text
  · exact trim_of_strips

end RobotPuzzle.Text
