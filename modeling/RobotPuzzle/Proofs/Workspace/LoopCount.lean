import RobotPuzzle.Proofs.Text.Blank
import RobotPuzzle.Proofs.Text.Numeral
import RobotPuzzle.Workspace.Compile

/-! Which number of rounds a loop block asks for, for every text of its field. -/

namespace RobotPuzzle

/-- Between white space the text has one or more digits, after a plus sign or none, and they denote
the number, which fits into 32 bits. -/
def Text.WritesCount (text : List Char) (number : Nat) : Prop :=
  ∃ core, Strips text core ∧
    ∃ sign ∈ signs, ∃ digits, core = sign ++ digits ∧ Denotes UInt32.size digits number

theorem Text.numeral?_trim_eq_some_iff {text : List Char} {number : Nat} :
    numeral? UInt32.size (trim text) = some number ↔ WritesCount text number := by
  rw [numeral?_eq_some_iff]
  constructor
  · exact fun written => ⟨trim text, trim_eq_iff.1 rfl, written⟩
  · rintro ⟨core, strips, written⟩
    rwa [trim_eq_iff.2 strips]

theorem Text.WritesCount.lt {text : List Char} {number : Nat} (written : WritesCount text number) :
    number < UInt32.size := by
  obtain ⟨_, _, _, _, _, _, denotes⟩ := written
  exact denotes.below

namespace Block

variable {block : Block} {number : Nat}

def WritesCount (block : Block) (number : Nat) : Prop :=
  ∃ text, block.fields.get? timesField = some text ∧ Text.WritesCount text.toList number

theorem loopCount_of_written (written : block.WritesCount number) :
    block.loopCount.toNat = number := by
  obtain ⟨text, field, written⟩ := written
  rw [loopCount, field]
  simp only [Text.numeral?_trim_eq_some_iff.2 written, Option.getD_some]
  exact UInt32.toNat_ofNat_of_lt written.lt

theorem loopCount_of_unwritten (unwritten : ∀ number, ¬block.WritesCount number) :
    block.loopCount = 0 := by
  rw [loopCount]
  cases field : block.fields.get? timesField with
  | none => rfl
  | some text =>
      have unread : Text.numeral? UInt32.size (Text.trim text.toList) = none := by
        refine Option.eq_none_iff_forall_ne_some.2 fun number read => ?_
        exact unwritten number ⟨text, field, Text.numeral?_trim_eq_some_iff.1 read⟩
      simp only [unread, Option.getD_none]
      rfl

/-- A block runs its body as often as its field says, and not at all if the field is missing or its
text writes no number below `2 ^ 32`. -/
theorem loopCount_eq_iff_written (block : Block) (count : UInt32) : block.loopCount = count ↔
    block.WritesCount count.toNat ∨ (count = 0 ∧ ∀ number, ¬block.WritesCount number) := by
  by_cases written : ∃ number, block.WritesCount number
  · obtain ⟨number, written⟩ := written
    have value := loopCount_of_written written
    constructor
    · rintro rfl
      exact .inl (value ▸ written)
    · rintro (writes | ⟨-, unwritten⟩)
      · exact UInt32.toNat_inj.1 (loopCount_of_written writes)
      · exact absurd written (unwritten number)
  · have unwritten : ∀ number, ¬block.WritesCount number := not_exists.1 written
    rw [loopCount_of_unwritten unwritten]
    constructor
    · rintro rfl
      exact .inr ⟨rfl, unwritten⟩
    · rintro (writes | ⟨rfl, -⟩)
      · exact absurd writes (unwritten _)
      · rfl

example : [" +007 ", "4294967295", "4294967296", "+", "-0", "1 2", ""].map (fun text =>
    (Block.mk "r" "repeat" ∅ (SortedMap.insert ∅ timesField text) none true false).loopCount) =
      [7, 4294967295, 0, 0, 0, 0, 0] := by decide

end Block

end RobotPuzzle
