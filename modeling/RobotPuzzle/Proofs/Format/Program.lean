import RobotPuzzle.Format.Script
import RobotPuzzle.Proofs.Format.Record
import RobotPuzzle.Script.Run

/-!
The JSON forms of programs and of exercises lose nothing. The operation of an instruction stands
beside its block in one object, and a loop adds its count and its body to them.
-/

namespace RobotPuzzle

open Json

namespace Script

theorem operation_read (operation : Option Action) :
    nameOrPlace? operations operationName (.str (operationName operation)) = some operation := by
  cases operation with
  | none => rfl
  | some action =>
      cases action with
      | move move => cases move <;> rfl
      | pick => rfl
      | putDown => rfl

variable {body : Json → Option Script}

theorem instructionOfJson?_act (body : Json → Option Script) (action : Action) (block : String) :
    instructionOfJson? body (instructionToJson (.act action block)) = some (.act action block) := by
  have operation : nameOrPlace? operations operationName (.str (actionName action)) =
      some (some action) := operation_read (some action)
  rw [instructionOfJson?, instructionToJson, object?_obj (by simp)]
  simp [operation]

theorem instructionOfJson?_of_members {json : Json} {members : Members} {block : String}
    {count : UInt32} {script : Script}
    (record : json.object? ["blockId", "op"] = some members)
    (blockRead : members.required "blockId" str? = some block)
    (isLoop : members.required "op" (nameOrPlace? operations operationName) = some none)
    (whole : members.unrepeated? ["count", "body"] = some members)
    (countRead : members.required "count" uint32? = some count)
    (bodyRead : members.required "body" body = some script) :
    instructionOfJson? body json = some (.loop count script block) := by
  simp only [instructionOfJson?, record, blockRead, isLoop, whole, countRead, bodyRead, some_bind]
  rfl

theorem instructionOfJson?_loop {script : Script} (inner : body script.toJson = some script)
    (count : UInt32) (block : String) :
    instructionOfJson? body (instructionToJson (.loop count script block)) =
      some (.loop count script block) := by
  have distinct : ([("blockId", Json.str block), ("op", .str loopName),
      ("count", .ofNat count.toNat), ("body", .arr (instructionsToJson script))].map
        (·.1)).Nodup := by simp
  have operation : nameOrPlace? operations operationName (.str loopName) = some none :=
    operation_read none
  rw [toJson] at inner
  rw [instructionToJson]
  refine instructionOfJson?_of_members (object?_obj distinct) ?_ ?_
    (unrepeated?_eq_self distinct) ?_ ?_
  · simp
  · simp [operation]
  · simp
  · simp [inner]

/-! The body of a loop stands two levels below the array that its loop is in. So a bound for the
nesting of the items of an array is bound enough for the reader of their bodies. -/

mutual

theorem instruction_read (instruction : Instruction) {depth : Nat}
    (deep : (instructionToJson instruction).nesting ≤ depth) :
    instructionOfJson? (ofJsonWithin? depth) (instructionToJson instruction) =
      some instruction := by
  cases instruction with
  | act action block => exact instructionOfJson?_act _ action block
  | loop count body block =>
      refine instructionOfJson?_loop ?_ count block
      have last : ("body", Json.arr (instructionsToJson body)) ∈
          [("blockId", .str block), ("op", .str loopName), ("count", .ofNat count.toNat),
            ("body", .arr (instructionsToJson body))] := by simp
      have inside := nesting_lt_of_mem_members last
      rw [instructionToJson] at deep
      obtain ⟨depth, rfl⟩ : ∃ before, depth = before + 1 := ⟨depth - 1, by omega⟩
      refine instructions_read body fun item member => ?_
      have nested := nesting_lt_of_mem_items member
      omega

theorem instructions_read (script : List Instruction) {depth : Nat}
    (deep : ∀ item ∈ instructionsToJson script, item.nesting ≤ depth) :
    (instructionsToJson script).mapM (instructionOfJson? (ofJsonWithin? depth)) = some script := by
  cases script with
  | nil => rfl
  | cons instruction rest =>
      rw [instructionsToJson, List.forall_mem_cons] at deep
      rw [instructionsToJson, List.mapM_cons, instruction_read instruction deep.1,
        instructions_read rest deep.2]
      rfl

end

theorem ofJson?_toJson (script : Script) : ofJson? script.toJson = some script := by
  rw [ofJson?, toJson, nesting]
  refine instructions_read script fun item member => ?_
  have nested := nesting_lt_of_mem_items member
  rw [nesting] at nested
  omega

end Script

theorem BlockSpec.toJson_ne_null (spec : BlockSpec) : spec.toJson ≠ .null := by
  cases spec
  simp [toJson]

def Exercise.Writable (exercise : Exercise) : Prop :=
  ∀ program ∈ exercise.defaultProgram, program.Writable

theorem Exercise.lossless : Lossless Exercise.Writable Exercise.toJson Exercise.ofJson? where
  read_write exercise writable := by
    have instructions := lossless_str.list.read_write exercise.instructions (by simp)
    have map := lossless_str.list.list.read_write exercise.map (by simp)
    have program :=
      (BlockSpec.lossless.nullable BlockSpec.toJson_ne_null).read_write _ writable
    rw [ofJson?, toJson, record?_obj _ (by simp)]
    simp [instructions, map, program]
  sound json exercise finite found := by
    simp only [ofJson?, bind_eq_some_iff, pure_eq_some_iff] at found
    obtain ⟨members, record, _, -, _, -, _, -, _, -, _, -, program, programRead, rfl⟩ := found
    exact BlockSpec.lossless.sound.optional (finite_of_record? finite record) programRead

/-- Programs, exercises, trees of blocks and shapes are read back as they were, if every slot in
them is one that some name stands for; and a program that is read back does what it did. -/
theorem programs_and_exercises_lossless :
    (∀ script : Script, Script.ofJson? script.toJson = some script ∧
      ∀ limit world, (Script.ofJson? script.toJson).map (Attempt.ofScript limit · world) =
        some (Attempt.ofScript limit script world)) ∧
    (∀ exercise : Exercise, exercise.Writable →
      Exercise.ofJson? exercise.toJson = some exercise) ∧
    (∀ spec : BlockSpec, spec.Writable → BlockSpec.ofJson? spec.toJson = some spec) ∧
    (∀ shape : Shape, shape.Writable → Shape.ofJson? shape.toJson = some shape) ∧
    ∀ program : ProgramShape, program.Writable →
      ProgramShape.ofJson? program.toJson = some program := by
  refine ⟨fun script => ⟨script.ofJson?_toJson, fun limit world => ?_⟩,
    Exercise.lossless.read_write, BlockSpec.lossless.read_write, Shape.lossless.read_write,
    ProgramShape.lossless.read_write⟩
  rw [script.ofJson?_toJson, Option.map_some]

/-! Loops in loops, as a program and as the blocks that an exercise starts with. -/

def nestedLoops : Script :=
  [.loop 4294967295 [.act (.move .jumpForward) "j", .loop 0 [.act .putDown "d"] "inner"] "outer",
    .act .pick "p"]

def nestedLoopBlocks : BlockSpec :=
  ⟨"s", "start", ∅, [(.next, ⟨"outer", "repeat", .ofList [("TIMES", "4294967295")],
    [(.doBody, .leaf "j" "jump_forward"), (.named "EXTRA", .leaf "d" "put_down")]⟩)]⟩

theorem nestedLoopBlocks_writable : nestedLoopBlocks.Writable := by
  have leaf : ∀ id type, (BlockSpec.leaf id type).Writable := fun _ _ =>
    .intro _ (by simp [BlockSpec.leaf]) (by simp [BlockSpec.leaf])
  refine .intro _ ?_ ?_
  · simp [nestedLoopBlocks, Slot.writable_iff]
  · simp only [nestedLoopBlocks, List.forall_mem_singleton]
    refine .intro _ ?_ ?_
    · simp [Slot.writable_iff]
    · simp [leaf]

def loopExercise : Exercise :=
  ⟨"loops", ["repeat"], [["4", "1"], []], none, 4294967295, some nestedLoopBlocks⟩

theorem programs_and_exercises_lossless_loop :
    Script.ofJson? nestedLoops.toJson = some nestedLoops ∧
    (loopExercise.Writable ∧ Exercise.ofJson? loopExercise.toJson = some loopExercise) ∧
    (nestedLoopBlocks.Writable ∧
      BlockSpec.ofJson? nestedLoopBlocks.toJson = some nestedLoopBlocks) ∧
    (loopShape.Writable ∧ Shape.ofJson? loopShape.toJson = some loopShape) ∧
    ProgramShape.Writable ⟨some loopShape, [loopShape]⟩ ∧
      ProgramShape.ofJson? (ProgramShape.toJson ⟨some loopShape, [loopShape]⟩) =
        some ⟨some loopShape, [loopShape]⟩ := by
  obtain ⟨scripts, exercises, specs, shapes, programs⟩ := programs_and_exercises_lossless
  have exercise : loopExercise.Writable := by
    simp [Exercise.Writable, loopExercise, nestedLoopBlocks_writable]
  have program : ProgramShape.Writable ⟨some loopShape, [loopShape]⟩ :=
    ⟨by simp [loopShape_writable], by simp [loopShape_writable]⟩
  exact ⟨(scripts nestedLoops).1, ⟨exercise, exercises loopExercise exercise⟩,
    ⟨nestedLoopBlocks_writable, specs nestedLoopBlocks nestedLoopBlocks_writable⟩,
    ⟨loopShape_writable, shapes loopShape loopShape_writable⟩, program, programs _ program⟩

end RobotPuzzle
