import RobotPuzzle.Proofs.Session.Attempts

/-!
When execution begins in the record: at the first click or workspace event, unless the toolbox
reports a field change or a drag before it. Later calls leave the time as it is.
-/

namespace RobotPuzzle.Recorder

/-- The time of a click on execute, or of a create, a field change or a drag in the workspace. -/
def Call.interaction? : Call → Option Instant
  | .beginExecution time => some time
  | .handle (.create _ _ _ .workspace) time => some time
  | .handle (.fieldChange _ _ _ _ _ .workspace) time => some time
  | .handle (.drag _ _ _ _ _ _ .workspace) time => some time
  | _ => none

def Call.stray? : Call → Option Instant
  | .handle (.fieldChange _ _ _ _ _ .toolbox) time => some time
  | .handle (.drag _ _ _ _ _ _ .toolbox) time => some time
  | _ => none

/-- The first field change or drag in the toolbox, if nothing before it counts as interaction. -/
def strayBefore? (calls : List Call) : Option Instant :=
  (calls.takeWhile (·.interaction?.isNone)).findSome? Call.stray?

variable {recorder : Recorder}

theorem executionStart_create (recorder : Recorder) (block : BlockSpec)
    (place : Option (String × Slot)) (time : Instant) :
    (recorder.create block place time).record.executionStart = recorder.record.executionStart := by
  simp only [create]
  split <;> rfl

theorem executionStart_closeDrag (recorder : Recorder) (id : String) (finish : SurfacePoint)
    (parent : Option String) (slot : Option Slot) (time : Instant) :
    (recorder.closeDrag id finish parent slot time).record.executionStart =
      recorder.record.executionStart := by
  simp only [closeDrag]
  split
  · rfl
  · split <;> rfl

theorem executionStart_delete (recorder : Recorder) (id : String) (type : Option String)
    (position : SurfacePoint) (groupSize : UInt64) (time : Instant) :
    (recorder.delete id type position groupSize time).record.executionStart =
      recorder.record.executionStart := by
  simp only [delete]
  split <;> rfl

theorem executionStart_handle (recorder : Recorder) (event : Event) (time : Instant) :
    (recorder.handle event time).record.executionStart = recorder.record.executionStart.or
      ((Call.handle event time).interaction?.or (Call.handle event time).stray?) := by
  cases event with
  | create block parent slot source =>
      cases source with
      | workspace => exact executionStart_create _ _ _ _
      | toolbox => exact Option.or_none.symm
  | fieldChange block type name oldValue newValue source => cases source <;> rfl
  | drag block isStart position groupSize parent slot source =>
      have marked : (recorder.handle (.drag block isStart position groupSize parent slot source)
          time).record.executionStart = recorder.record.executionStart.or (some time) := by
        cases isStart with
        | true => rfl
        | false => exact executionStart_closeDrag _ _ _ _ _ _
      cases source <;> exact marked
  | delete block type position groupSize =>
      exact (executionStart_delete _ _ _ _ _ _).trans Option.or_none.symm
  | move block oldParent oldSlot newParent newSlot source =>
      cases source <;> exact Option.or_none.symm
  | loadFinished => exact Option.or_none.symm

theorem executionStart_perform (recorder : Recorder) (call : Call) :
    (recorder.perform call).record.executionStart =
      recorder.record.executionStart.or (call.interaction?.or call.stray?) := by
  cases call with
  | handle event time => exact recorder.executionStart_handle event time
  | beginExecution time => rfl
  | seed | beginPlanning | finish | book => exact Option.or_none.symm

theorem strayBefore?_cons_of_interaction {call : Call} {time : Instant}
    (counted : call.interaction? = some time) (rest : List Call) :
    strayBefore? (call :: rest) = none := by
  simp [strayBefore?, counted]

theorem strayBefore?_cons_of_other {call : Call} (other : call.interaction? = none)
    (rest : List Call) : strayBefore? (call :: rest) = call.stray?.or (strayBefore? rest) := by
  simp only [strayBefore?, List.takeWhile_cons, other, Option.isNone_none, ↓reduceIte,
    List.findSome?_cons]
  cases call.stray? <;> rfl

theorem executionStart_performAll (recorder : Recorder) (calls : List Call) :
    (recorder.performAll calls).record.executionStart = recorder.record.executionStart.or
      ((strayBefore? calls).or (calls.findSome? Call.interaction?)) := by
  induction calls generalizing recorder with
  | nil => exact Option.or_none.symm
  | cons call rest ih =>
      have later := ih (recorder.perform call)
      rw [executionStart_perform, Option.or_assoc] at later
      refine later.trans (congrArg _ ?_)
      rw [List.findSome?_cons]
      cases counted : call.interaction? with
      | some time => simp [strayBefore?_cons_of_interaction counted]
      | none => simp [strayBefore?_cons_of_other counted, Option.or_assoc]

/-- After any calls on a new recorder execution began at the first interaction, or at a field change
or drag in the toolbox before it. So it began at the first interaction if and only if there was no
such event before or it came at the same instant. The time never changes once it is set. -/
theorem clock_starts_once (idealBlocks : UInt32) (calls : List Call) :
    ((start idealBlocks).performAll calls).record.executionStart =
        (strayBefore? calls).or (calls.findSome? Call.interaction?) ∧
      (((start idealBlocks).performAll calls).record.executionStart =
          calls.findSome? Call.interaction? ↔
        strayBefore? calls = none ∨ strayBefore? calls = calls.findSome? Call.interaction?) ∧
      ∀ time, ((start idealBlocks).performAll calls).record.executionStart = some time →
        ∀ more, ((start idealBlocks).performAll (calls ++ more)).record.executionStart =
          some time := by
  have began := (start idealBlocks).executionStart_performAll calls
  have fresh : (start idealBlocks).record.executionStart = none := rfl
  rw [fresh, Option.none_or] at began
  refine ⟨began, ?_, ?_⟩
  · rw [began]
    cases strayBefore? calls <;> simp
  · intro time set more
    have both : (start idealBlocks).performAll (calls ++ more) =
        ((start idealBlocks).performAll calls).performAll more := List.foldl_append
    rw [both, executionStart_performAll, set, Option.some_or]

def browsing : List Call :=
  [.beginPlanning ⟨0, 0⟩,
    .handle (.create (.leaf "spare" "forward") none none .toolbox) ⟨1, 0⟩,
    .handle (.fieldChange "loop" (some "repeat") "TIMES" none (some "3") .toolbox) ⟨2, 0⟩,
    .handle (.create (.leaf "step" "forward") none none .workspace) ⟨3, 0⟩]

/-- A field changed in the toolbox starts the clock before there is anything in the workspace. -/
theorem browsing_starts_clock :
    ((start 1).performAll browsing).record.executionStart = some ⟨2, 0⟩ ∧
      browsing.findSome? Call.interaction? = some ⟨3, 0⟩ :=
  ⟨rfl, rfl⟩

theorem clock_starts_once_browsing :
    strayBefore? browsing = some ⟨2, 0⟩ ∧
      ((start 1).performAll browsing).record.executionStart = some ⟨2, 0⟩ ∧
      ((start 1).performAll (browsing ++ [.beginExecution ⟨4, 0⟩])).record.executionStart =
        some ⟨2, 0⟩ := by
  have stray : strayBefore? browsing = some ⟨2, 0⟩ := rfl
  obtain ⟨began, -, kept⟩ := clock_starts_once 1 browsing
  rw [stray, Option.some_or] at began
  exact ⟨stray, began, kept _ began _⟩

end RobotPuzzle.Recorder
