import RobotPuzzle.Format.Event
import RobotPuzzle.Proofs.Format.Workspace
import RobotPuzzle.Proofs.Time.Rfc3339

/-!
The JSON forms of instants, places and editor events lose nothing. The members of an event stand
beside its instant in one object.
-/

namespace RobotPuzzle

open Json

theorem Instant.lossless : Lossless Instant.Civil Instant.toJson Instant.ofJson? where
  read_write instant civil := by
    simp only [Instant.ofJson?, Instant.toJson, str?_str, Option.bind_some,
      Time.instant?_text civil]
  sound json instant _ found := by
    obtain ⟨text, -, read⟩ := Option.bind_eq_some_iff.1 found
    exact Time.civil_of_instant? read

structure SurfacePoint.Writable (point : SurfacePoint) : Prop where
  x : point.x.isFinite = true
  y : point.y.isFinite = true

theorem SurfacePoint.lossless :
    Lossless SurfacePoint.Writable SurfacePoint.toJson SurfacePoint.ofJson? where
  read_write point writable := by
    have x := lossless_float.read_write _ writable.x
    have y := lossless_float.read_write _ writable.y
    rw [ofJson?, toJson, record?_obj _ (by simp)]
    simp [x, y]
  sound json point finite found := by
    simp only [ofJson?, bind_eq_some_iff, pure_eq_some_iff] at found
    obtain ⟨members, record, x, xRead, y, yRead, rfl⟩ := found
    have parts := finite_of_record? finite record
    exact ⟨lossless_float.sound.required parts xRead, lossless_float.sound.required parts yRead⟩

theorem SurfacePoint.writable_origin : SurfacePoint.origin.Writable := ⟨by decide, by decide⟩

@[simp] theorem Source.ofJson?_toJson (source : Source) :
    Source.ofJson? source.toJson = some source := by
  cases source <;> rfl

@[simp] theorem uint64?_groupSizeToJson (size : UInt64) :
    (groupSizeToJson size).uint64? = some size :=
  uint64?_ofNat size

structure PendingDrag.Writable (drag : PendingDrag) : Prop where
  start : drag.start.Writable
  startedAt : drag.startedAt.Civil

theorem PendingDrag.lossless :
    Lossless PendingDrag.Writable PendingDrag.toJson PendingDrag.ofJson? where
  read_write drag writable := by
    have start := SurfacePoint.lossless.read_write _ writable.start
    have startedAt := Instant.lossless.read_write _ writable.startedAt
    rw [ofJson?, toJson, record?_obj _ (by simp)]
    simp [start, startedAt]
  sound json drag finite found := by
    simp only [ofJson?, bind_eq_some_iff, pure_eq_some_iff] at found
    obtain ⟨members, record, _, -, _, -, _, -, start, startRead, startedAt, startedRead, _, -,
      rfl⟩ := found
    have parts := finite_of_record? finite record
    exact ⟨SurfacePoint.lossless.sound.required parts startRead,
      Instant.lossless.sound.required parts startedRead⟩

theorem lossless_optionalSlot : Lossless (fun slot : Option Slot => ∀ inner ∈ slot, inner.Writable)
    (ofOption Slot.toJson) (nullable? Slot.ofJson?) :=
  Slot.lossless.nullable fun _ => nofun

namespace Event

/-- An event that its members tell all about: its coordinates are finite, and its slots are ones
that some name stands for. -/
def Writable : Event → Prop
  | .create block _ slot _ => block.Writable ∧ ∀ inner ∈ slot, inner.Writable
  | .fieldChange .. => True
  | .drag _ _ position _ _ slot _ => position.Writable ∧ ∀ inner ∈ slot, inner.Writable
  | .delete _ _ position _ => position.Writable
  | .move _ _ oldSlot _ newSlot _ =>
    (∀ inner ∈ oldSlot, inner.Writable) ∧ ∀ inner ∈ newSlot, inner.Writable
  | .loadFinished => True

def tag : Event → String
  | .create .. => "create"
  | .fieldChange .. => "field-change"
  | .drag .. => "drag"
  | .delete .. => "delete"
  | .move .. => "move"
  | .loadFinished => "load-finished"

theorem distinct_names (event : Event) (time : Json) :
    ((("at", time) :: event.toMembers).map (·.1)).Nodup := by
  cases event <;> simp [toMembers]

theorem ofMembers?_toMembers {event : Event} (writable : event.Writable) (time : Json) :
    ofMembers? event.tag ⟨("at", time) :: event.toMembers⟩ = some event := by
  have whole : ∀ names, Members.unrepeated? ⟨("at", time) :: event.toMembers⟩ names =
      some ⟨("at", time) :: event.toMembers⟩ :=
    fun _ => unrepeated?_eq_self (event.distinct_names time)
  cases event with
  | create block parent slot source =>
      have block := BlockSpec.lossless.read_write _ writable.1
      have slot := lossless_optionalSlot.read_write _ writable.2
      simp only [tag, ofMembers?, whole]
      simp [toMembers, block, slot]
  | fieldChange block type name oldValue newValue source =>
      simp only [tag, ofMembers?, whole]
      simp [toMembers]
  | drag block isStart position groupSize parent slot source =>
      have position := SurfacePoint.lossless.read_write _ writable.1
      have slot := lossless_optionalSlot.read_write _ writable.2
      simp only [tag, ofMembers?, whole]
      simp [toMembers, position, slot]
  | delete block type position groupSize =>
      have position := SurfacePoint.lossless.read_write _ writable
      simp only [tag, ofMembers?, whole]
      simp [toMembers, position]
  | move block oldParent oldSlot newParent newSlot source =>
      have oldSlot := lossless_optionalSlot.read_write _ writable.1
      have newSlot := lossless_optionalSlot.read_write _ writable.2
      simp only [tag, ofMembers?, whole]
      simp [toMembers, oldSlot, newSlot]
  | loadFinished => rfl

theorem required_type (event : Event) (time : Json) :
    Members.required ⟨("at", time) :: event.toMembers⟩ "type" (nameOrPlace? tags id) =
      some event.tag := by
  cases event <;> simp [toMembers, nameOrPlace?, tags, tag]

theorem writable_of_ofMembers? {event : Event} {tag : String} {members : Members}
    (finite : members.Finite) (found : ofMembers? tag members = some event) : event.Writable := by
  unfold ofMembers? at found
  split at found
  all_goals simp only [bind_eq_some_iff, pure_eq_some_iff, Option.some.injEq, reduceCtorEq] at found
  · obtain ⟨kept, whole, block, blockRead, _, -, slot, slotRead, _, -, rfl⟩ := found
    have parts := finite_of_unrepeated? finite whole
    exact ⟨BlockSpec.lossless.sound.required parts blockRead,
      Slot.lossless.sound.optional parts slotRead⟩
  · obtain ⟨_, -, _, -, _, -, _, -, _, -, _, -, _, -, rfl⟩ := found
    trivial
  · obtain ⟨kept, whole, _, -, _, -, position, positionRead, _, -, _, -, slot, slotRead, _, -,
      rfl⟩ := found
    have parts := finite_of_unrepeated? finite whole
    exact ⟨SurfacePoint.lossless.sound.required parts positionRead,
      Slot.lossless.sound.optional parts slotRead⟩
  · obtain ⟨kept, whole, _, -, _, -, position, positionRead, _, -, rfl⟩ := found
    have parts := finite_of_unrepeated? finite whole
    exact SurfacePoint.lossless.sound.withDefault SurfacePoint.writable_origin parts positionRead
  · obtain ⟨kept, whole, _, -, _, -, oldSlot, oldRead, _, -, newSlot, newRead, _, -, rfl⟩ := found
    have parts := finite_of_unrepeated? finite whole
    exact ⟨Slot.lossless.sound.optional parts oldRead, Slot.lossless.sound.optional parts newRead⟩
  · subst found
    trivial

end Event

structure TimedEvent.Writable (event : TimedEvent) : Prop where
  time : event.time.Civil
  event : event.event.Writable

theorem TimedEvent.lossless :
    Lossless TimedEvent.Writable TimedEvent.toJson TimedEvent.ofJson? where
  read_write event writable := by
    obtain ⟨time, event⟩ := event
    have timeRead := Instant.lossless.read_write _ writable.time
    have eventRead := Event.ofMembers?_toMembers writable.event time.toJson
    rw [ofJson?, toJson, object?_obj (event.distinct_names _)]
    simp [timeRead, eventRead, Event.required_type event time.toJson]
  sound json event finite found := by
    simp only [ofJson?, bind_eq_some_iff, pure_eq_some_iff] at found
    obtain ⟨members, record, time, timeRead, tag, -, event, eventRead, rfl⟩ := found
    have parts := finite_of_object? finite record
    exact ⟨Instant.lossless.sound.required parts timeRead,
      Event.writable_of_ofMembers? parts eventRead⟩

end RobotPuzzle
