import RobotPuzzle.Proofs.Session.Attempts
import RobotPuzzle.Proofs.Session.Drags

/-!
What the parts of a drag's record say about each other, for every record that a log ever gets:
wherever the drag began, and whether the event or the workspace knew where the block was dropped.
-/

namespace RobotPuzzle

namespace Instant

/-- The whole milliseconds in a span of nanoseconds; what is left over has the sign of the span. -/
structure WholeMillis (nanos millis : Int) : Prop where
  forward : 0 ≤ nanos → millis * 1000000 ≤ nanos ∧ nanos < (millis + 1) * 1000000
  backward : nanos ≤ 0 → (millis - 1) * 1000000 < nanos ∧ nanos ≤ millis * 1000000

theorem wholeMillis_millisSince (later earlier : Instant) :
    WholeMillis (later.nanosSince earlier) (later.millisSince earlier) := by
  rw [millisSince]
  generalize later.nanosSince earlier = nanos
  constructor
  · intro positive
    rw [Int.tdiv_eq_ediv_of_nonneg positive]
    omega
  · intro negative
    have mirrored : nanos.tdiv 1000000 = -((-nanos) / 1000000) := by
      rw [← Int.tdiv_eq_ediv_of_nonneg (by omega), Int.neg_tdiv, Int.neg_neg]
    rw [mirrored]
    omega

/-- The nanoseconds since 1970-01-01T00:00:00Z, without leap seconds. -/
def nanos (instant : Instant) : Int := instant.second * nanosPerSecond + instant.nano

theorem nanosSince_of_plain {later earlier : Instant} (plain : later.isLeap = false)
    (plainToo : earlier.isLeap = false) :
    later.nanosSince earlier = later.nanos - earlier.nanos := by
  have counted : uncounted later earlier = 0 := by simp [uncounted, plain, plainToo]
  rw [nanosSince, counted, nanos, nanos, nanosPerSecond]
  omega

end Instant

namespace DragRecord

structure Consistent (record : DragRecord) : Prop where
  outcome : record.outcome = .deleted ∨
    record.outcome = .classify record.priorParent record.connectedTo
  disconnected : record.disconnected = true ↔
    record.priorParent.isSome = true ∧ record.connectedTo = none
  slot : record.slot.isSome = true ↔ record.connectedTo.isSome = true
  deleted : record.outcome = .deleted → record.connectedTo = none
  duration : Instant.WholeMillis (record.endedAt.nanosSince record.startedAt) record.durationMs
  /-- Outside leap seconds the time between two instants is their difference. -/
  plainDuration : record.startedAt.isLeap = false → record.endedAt.isLeap = false →
    Instant.WholeMillis (record.endedAt.nanos - record.startedAt.nanos) record.durationMs
  moved : record.outcome ≠ .deleted → record.start.sameAs record.finish = false

end DragRecord

theorem DragOutcome.classify_ne_deleted (before after : Option String) :
    classify before after ≠ .deleted := by
  fun_cases classify before after <;> simp

theorem DragOutcome.classify_eq_disconnected_iff {before after : Option String} :
    classify before after = .disconnected ↔ before.isSome = true ∧ after = none := by
  fun_cases classify before after <;> simp

namespace PendingDrag

variable {finish : SurfacePoint} {connectedTo : Option String} {slot : Option Slot}
  {outcome : DragOutcome}

theorem plainDuration_close (pending : PendingDrag) (finish : SurfacePoint) (time : Instant)
    (plain : pending.startedAt.isLeap = false) (plainToo : time.isLeap = false) :
    Instant.WholeMillis (time.nanos - pending.startedAt.nanos)
      (pending.close finish time connectedTo slot outcome).durationMs := by
  rw [← Instant.nanosSince_of_plain plainToo plain]
  exact time.wholeMillis_millisSince pending.startedAt

theorem consistent_close_dropped {pending : PendingDrag}
    (moved : pending.start.sameAs finish = false) (place : Option (String × Slot))
    (time : Instant) :
    (pending.close finish time (place.map (·.1)) (place.map (·.2))
      (.classify pending.priorParent (place.map (·.1)))).Consistent where
  outcome := .inr rfl
  disconnected := by
    rw [← DragOutcome.classify_eq_disconnected_iff]
    simp only [close]
    have dropped := DragOutcome.classify_ne_deleted pending.priorParent (place.map (·.1))
    cases outcome : DragOutcome.classify pending.priorParent (place.map (·.1)) <;> simp_all
  slot := by cases place <;> simp [close]
  deleted isDeleted := (DragOutcome.classify_ne_deleted _ _ isDeleted).elim
  duration := time.wholeMillis_millisSince pending.startedAt
  plainDuration := pending.plainDuration_close finish time
  moved _ := moved

theorem consistent_close_deleted (pending : PendingDrag) (position : SurfacePoint)
    (time : Instant) : (pending.close position time none none .deleted).Consistent where
  outcome := .inl rfl
  disconnected := by simp [close]
  slot := by simp [close]
  deleted _ := rfl
  duration := time.wholeMillis_millisSince pending.startedAt
  plainDuration := pending.plainDuration_close position time
  moved kept := (kept rfl).elim

end PendingDrag

def Record.DragsConsistent (record : Record) : Prop :=
  ∀ drag, Interaction.drag drag ∈ record.actions → drag.Consistent

theorem Record.DragsConsistent.append {record after : Record} {interaction : Interaction}
    (consistent : record.DragsConsistent)
    (added : ∀ drag, interaction = .drag drag → drag.Consistent)
    (grown : after.actions = record.actions ++ [interaction]) : after.DragsConsistent := by
  intro drag member
  rw [grown] at member
  rcases List.mem_append.1 member with earlier | last
  · exact consistent drag earlier
  · exact added drag (List.mem_singleton.1 last).symm

namespace Recorder

variable {recorder : Recorder}

theorem dragsConsistent_create (consistent : recorder.record.DragsConsistent) (block : BlockSpec)
    (place : Option (String × Slot)) (time : Instant) :
    (recorder.create block place time).record.DragsConsistent := by
  simp only [create]
  split
  · exact consistent
  · exact consistent.append (by simp) rfl

theorem dragsConsistent_closeDrag (consistent : recorder.record.DragsConsistent) (id : String)
    (finish : SurfacePoint) (parent : Option String) (slot : Option Slot) (time : Instant) :
    (recorder.closeDrag id finish parent slot time).record.DragsConsistent := by
  simp only [closeDrag]
  split
  next => exact consistent
  next pending found =>
    split
    next => exact consistent
    next moved =>
      have moved : pending.start.sameAs finish = false := by simpa using moved
      refine consistent.append ?_ rfl
      rintro _ ⟨⟩
      exact PendingDrag.consistent_close_dropped moved _ time

theorem dragsConsistent_delete (consistent : recorder.record.DragsConsistent) (id : String)
    (type : Option String) (position : SurfacePoint) (groupSize : UInt64) (time : Instant) :
    (recorder.delete id type position groupSize time).record.DragsConsistent := by
  simp only [delete]
  split
  next pending found =>
    refine consistent.append ?_ rfl
    rintro _ ⟨⟩
    exact pending.consistent_close_deleted position time
  next => exact consistent.append (by simp) rfl

theorem dragsConsistent_handle (consistent : recorder.record.DragsConsistent) (event : Event)
    (time : Instant) : (recorder.handle event time).record.DragsConsistent := by
  have begun : (recorder.beginExecution time).record.DragsConsistent := consistent
  cases event with
  | create block parent slot source =>
      cases source with
      | toolbox => exact consistent
      | workspace => exact dragsConsistent_create begun _ _ _
  | fieldChange block type name oldValue newValue source =>
      cases source <;> exact begun.append (by simp) rfl
  | drag block isStart position groupSize parent slot source =>
      cases isStart with
      | true => exact begun
      | false => exact dragsConsistent_closeDrag begun _ _ _ _ _
  | delete block type position groupSize => exact dragsConsistent_delete consistent _ _ _ _ _
  | move block oldParent oldSlot newParent newSlot source => cases source <;> exact consistent
  | loadFinished => exact consistent

theorem dragsConsistent_perform (consistent : recorder.record.DragsConsistent) (call : Call) :
    (recorder.perform call).record.DragsConsistent := by
  cases call with
  | handle event time => exact dragsConsistent_handle consistent event time
  | book success time => exact consistent.append (by simp) rfl
  | seed | beginPlanning | beginExecution | finish => exact consistent

theorem dragsConsistent_performAll (consistent : recorder.record.DragsConsistent)
    (calls : List Call) : (recorder.performAll calls).record.DragsConsistent := by
  induction calls generalizing recorder with
  | nil => exact consistent
  | cons call rest ih => exact ih (dragsConsistent_perform consistent call)

/-- Every record of a drag is consistent, whatever calls the recorder has had; and after any calls a
drag that ends elsewhere, or whose block is deleted, is put on record. -/
theorem drag_records_consistent (idealBlocks : UInt32) (calls : List Call) :
    (∀ record, .drag record ∈ ((start idealBlocks).performAll calls).record.actions →
      record.Consistent) ∧
    ∀ id, ((start idealBlocks).performAll calls).Answers id := by
  have none : (start idealBlocks).record.DragsConsistent := fun _ member => by cases member
  exact ⟨dragsConsistent_performAll none calls, answers _⟩

def dropAndDelete : List Call :=
  [.handle (.create (.leaf "a" "forward") none none .workspace) ⟨1, 0⟩,
    .handle (.create (.leaf "b" "forward") none none .workspace) ⟨2, 0⟩,
    .handle (.drag "b" true ⟨0, 0⟩ 1 none none .workspace) ⟨3, 0⟩,
    .handle (.drag "b" false ⟨3, 4⟩ 1 (some "a") none .workspace) ⟨4, 500000⟩,
    .handle (.move "b" none none (some "a") (some .next) .workspace) ⟨4, 600000⟩,
    .handle (.drag "b" true ⟨3, 4⟩ 1 none none .workspace) ⟨5, 0⟩,
    .handle (.delete "b" none ⟨0, 0⟩ 1) ⟨6, 0⟩]

theorem drag_records_consistent_dropAndDelete : ∃ dropped deleted,
    ((start 1).performAll dropAndDelete).record.actions.drop 2 = [.drag dropped, .drag deleted] ∧
      (dropped.outcome, dropped.connectedTo, dropped.durationMs) = (.connected, some "a", 1000) ∧
      (deleted.outcome, deleted.priorParent, deleted.disconnected) = (.deleted, some "a", true) ∧
      dropped.Consistent ∧ deleted.Consistent := by
  obtain ⟨dropped, deleted, logged, droppedParts, deletedParts⟩ : ∃ dropped deleted,
      ((start 1).performAll dropAndDelete).record.actions.drop 2 =
        [.drag dropped, .drag deleted] ∧
      (dropped.outcome, dropped.connectedTo, dropped.durationMs) = (.connected, some "a", 1000) ∧
      (deleted.outcome, deleted.priorParent, deleted.disconnected) =
        (.deleted, some "a", true) := by
    refine ⟨_, _, rfl, ?_, ?_⟩ <;> decide +kernel
  have inLog : ∀ record ∈ [dropped, deleted],
      .drag record ∈ ((start 1).performAll dropAndDelete).record.actions := by
    intro record member
    refine List.mem_of_mem_drop (?_ : _ ∈ List.drop 2 _)
    rw [logged]
    simpa using member
  exact ⟨dropped, deleted, logged, droppedParts, deletedParts,
    (drag_records_consistent 1 dropAndDelete).1 dropped (inLog dropped (by simp)),
    (drag_records_consistent 1 dropAndDelete).1 deleted (inLog deleted (by simp))⟩

end Recorder

end RobotPuzzle
