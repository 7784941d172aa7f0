import RobotPuzzle.Format.Record
import RobotPuzzle.Proofs.Format.Event

/-!
The JSON forms of the event stream and of the session record lose nothing.
-/

namespace RobotPuzzle

open Json

/-! Attempts are counted under their numbers, written as names. -/

theorem Json.digitPrefix_digits {digits : List Char} (inside : ∀ c ∈ digits, Text.IsDigit c) :
    digitPrefix digits = (digits.map Text.digitValue, []) := by
  induction digits with
  | nil => rfl
  | cons c rest ih =>
      rw [List.forall_mem_cons] at inside
      rw [digitPrefix, Text.digit?_eq_some_iff.2 ⟨inside.1, rfl⟩, ih inside.2]
      rfl

theorem Json.valueOf_digitValue (digits : List Char) :
    valueOf (digits.map Text.digitValue) = Text.decimalFrom 0 digits := by
  rw [valueOf, List.foldl_map]
  rfl

theorem Json.ofText?_toDigits (number : Nat) : Literal.ofText? (Nat.toDigits 10 number) =
    some ⟨false, (Nat.toDigits 10 number).map Text.digitValue, [], false, none⟩ := by
  have denotes := Text.denotes_toDigits (Nat.lt_succ_self number)
  have read := digitPrefix_digits denotes.inside
  have canonical := Text.toDigits_ne_zero_cons number
  generalize Nat.toDigits 10 number = digits at *
  obtain ⟨c, rest, rfl⟩ := List.exists_cons_of_ne_nil denotes.nonempty
  have inside := denotes.inside c List.mem_cons_self
  have unsigned : c ≠ '-' := by
    rintro rfl
    exact absurd inside (by decide)
  simp only [Literal.ofText?, unsigned, read, List.cons.injEq, false_and, imp_self, implies_true]
  split
  next none => exact absurd (Prod.mk.inj none).1 (List.cons_ne_nil _ _)
  -- A zero before other digits would be refused, but no numeral is written with one.
  next head tail _ same =>
    obtain ⟨zero, more⟩ := List.cons.inj (Prod.mk.inj same).1
    have zeroDigit : Text.IsDigit '0' := by decide
    obtain rfl : c = '0' := inside.eq_of_value zeroDigit zero
    refine absurd rfl (canonical rest fun alone => ?_)
    rw [alone] at more
    contradiction
  next same => exact absurd (Prod.mk.inj same).2 (List.cons_ne_nil _ _).symm
  next same =>
    obtain ⟨rfl, rfl⟩ := Prod.mk.inj same
    rfl

theorem Json.number?_toString {number : Nat} (small : number < UInt64.size) :
    number? (toString number).toList = some (ofNat number) := by
  have value := (Text.denotes_toDigits (Nat.lt_succ_self number)).value
  have text : (toString number).toList = Nat.toDigits 10 number := Nat.toList_repr
  rw [number?, text, ofText?_toDigits, Option.map_some, ofLiteral]
  simp [valueOf_digitValue, value, small, ofNat]

theorem Record.attemptKey?_toString {attempt : Nat} (small : attempt < UInt32.size) :
    attemptKey? (toString attempt) = some attempt := by
  have fits : attempt < UInt64.size := Nat.lt_trans small (by decide)
  rw [attemptKey?, number?_toString fits, Option.bind_some]
  exact nat?_eq_some_iff.2 ⟨rfl, small⟩

theorem Record.attemptKey?_lt {text : String} {attempt : Nat}
    (found : attemptKey? text = some attempt) : attempt < UInt32.size := by
  obtain ⟨json, -, read⟩ := Option.bind_eq_some_iff.1 found
  exact (nat?_eq_some_iff.1 read).2

theorem DragOutcome.ofJson?_toJson (outcome : DragOutcome) :
    ofJson? outcome.toJson = some outcome := by
  cases outcome <;> rfl

theorem DragOutcome.taggedChoice?_toJson (outcome : DragOutcome) :
    taggedChoice? all name outcome.toJson = some outcome := by
  cases outcome <;> rfl

/-- A drag that its members tell all about; its duration fits in a signed 64-bit number. -/
structure DragRecord.Writable (drag : DragRecord) : Prop where
  start : drag.start.Writable
  finish : drag.finish.Writable
  startedAt : drag.startedAt.Civil
  endedAt : drag.endedAt.Civil
  durationMs : -0x8000000000000000 ≤ drag.durationMs ∧ drag.durationMs < 0x8000000000000000
  distance : drag.distance.isFinite = true
  slot : ∀ inner ∈ drag.slot, inner.Writable

theorem DragRecord.distinct_names (drag : DragRecord) (tag : Json) :
    ((("type", tag) :: drag.toMembers).map (·.1)).Nodup := by
  simp [toMembers]

section

variable {drag : DragRecord} {outcome : Json → Option DragOutcome} {entries : List (String × Json)}

theorem DragRecord.ofJsonWith?_toMembers (read : ∀ value, outcome value.toJson = some value)
    (writable : drag.Writable) (distinct : (entries.map (·.1)).Nodup)
    (own : entries = drag.toMembers ∨ ∃ tag, entries = ("type", tag) :: drag.toMembers) :
    ofJsonWith? outcome (.obj entries) = some drag := by
  have start := SurfacePoint.lossless.read_write _ writable.start
  have finish := SurfacePoint.lossless.read_write _ writable.finish
  have startedAt := Instant.lossless.read_write _ writable.startedAt
  have endedAt := Instant.lossless.read_write _ writable.endedAt
  have durationMs := lossless_int64.read_write _ writable.durationMs
  have distance := lossless_float.read_write _ writable.distance
  have slot := lossless_optionalSlot.read_write _ writable.slot
  rw [ofJsonWith?, record?_obj _ distinct]
  rcases own with rfl | ⟨tag, rfl⟩
  all_goals
    simp only [toMembers, some_bind, required_cons, optional_cons, reduceIte, String.reduceEq,
      str?_str, bool?_bool, nullable?_str, uint64?_groupSizeToJson, read, start, finish, startedAt,
      endedAt, durationMs, distance, slot]
    rfl

theorem DragRecord.sound_ofJsonWith? (outcome : Json → Option DragOutcome) :
    Sound Writable (ofJsonWith? outcome) := by
  intro json drag finite found
  simp only [ofJsonWith?, bind_eq_some_iff, pure_eq_some_iff] at found
  obtain ⟨members, record, _, -, _, -, _, -, start, startRead, finish, finishRead, startedAt,
    startedRead, endedAt, endedRead, durationMs, durationRead, distance, distanceRead, _, -, _, -,
    slot, slotRead, _, -, _, -, rfl⟩ := found
  have parts := finite_of_record? finite record
  exact {
    start := SurfacePoint.lossless.sound.required parts startRead
    finish := SurfacePoint.lossless.sound.required parts finishRead
    startedAt := Instant.lossless.sound.required parts startedRead
    endedAt := Instant.lossless.sound.required parts endedRead
    durationMs := lossless_int64.sound.required parts durationRead
    distance := lossless_float.sound.required parts distanceRead
    slot := Slot.lossless.sound.optional parts slotRead }

theorem DragRecord.ofTaggedJson?_toMembers (writable : drag.Writable) (tag : Json) :
    ofTaggedJson? (.obj (("type", tag) :: drag.toMembers)) = some drag :=
  ofJsonWith?_toMembers DragOutcome.taggedChoice?_toJson writable (drag.distinct_names tag)
    (.inr ⟨tag, rfl⟩)

theorem DragRecord.lossless : Lossless DragRecord.Writable DragRecord.toJson DragRecord.ofJson? where
  read_write drag writable :=
    ofJsonWith?_toMembers DragOutcome.ofJson?_toJson writable
      (List.nodup_cons.1 (drag.distinct_names .null)).2 (.inl rfl)
  sound := sound_ofJsonWith? DragOutcome.ofJson?

end

def Fingerprint.Writable (fingerprint : Fingerprint) : Prop := fingerprint.shape.Writable

theorem Fingerprint.lossless :
    Lossless Fingerprint.Writable Fingerprint.toJson Fingerprint.ofJson? where
  read_write fingerprint writable := by
    have shape := Shape.lossless.read_write _ writable
    rw [ofJson?, toJson, record?_obj _ (by simp)]
    simp [shape]
  sound json fingerprint finite found := by
    simp only [ofJson?, bind_eq_some_iff, pure_eq_some_iff] at found
    obtain ⟨members, record, text, -, shape, shapeRead, rfl⟩ := found
    exact Shape.lossless.sound.required (finite_of_record? finite record) shapeRead

namespace Interaction

def Writable : Interaction → Prop
  | .create _ _ time shape => time.Civil ∧ ∀ inner ∈ shape, inner.Writable
  | .field _ _ _ _ _ _ time => time.Civil
  | .drag record => record.Writable
  | .delete _ _ _ time => time.Civil
  | .execute time _ => time.Civil

theorem lossless : Lossless Writable toJson ofJson? where
  read_write interaction writable := by
    cases interaction with
    | create block type time shape =>
        have time := Instant.lossless.read_write _ writable.1
        have shape := (Fingerprint.lossless.nullable fun _ => nofun).read_write _ writable.2
        rw [ofJson?, toJson, tagged?_obj (by simp)]
        simp [record?_obj, time, shape]
    | field block type fromToolbox name oldValue newValue time =>
        have time := Instant.lossless.read_write _ writable
        rw [ofJson?, toJson, tagged?_obj (by simp)]
        simp [record?_obj, time]
    | drag record =>
        have drag := DragRecord.ofTaggedJson?_toMembers writable (.str "drag")
        rw [ofJson?, toJson, tagged?_obj (DragRecord.distinct_names record _)]
        simp [drag]
    | delete block type groupSize time =>
        have time := Instant.lossless.read_write _ writable
        rw [ofJson?, toJson, tagged?_obj (by simp)]
        simp [record?_obj, time]
    | execute time success =>
        have time := Instant.lossless.read_write _ writable
        rw [ofJson?, toJson, tagged?_obj (by simp)]
        simp [record?_obj, time]
  sound json interaction finite found := by
    rw [ofJson?] at found
    simp only [bind_eq_some_iff] at found
    obtain ⟨⟨tag, content⟩, split, found⟩ := found
    have whole := finite_of_tagged? finite split
    split at found
    all_goals simp only [bind_eq_some_iff, pure_eq_some_iff, reduceCtorEq] at found
    · obtain ⟨kept, record, _, -, _, -, time, timeRead, shape, shapeRead, rfl⟩ := found
      have parts := finite_of_record? whole record
      exact ⟨Instant.lossless.sound.required parts timeRead,
        Fingerprint.lossless.sound.optional parts shapeRead⟩
    · obtain ⟨kept, record, _, -, _, -, _, -, _, -, _, -, _, -, time, timeRead, rfl⟩ := found
      exact Instant.lossless.sound.required (finite_of_record? whole record) timeRead
    · obtain ⟨drag, dragRead, rfl⟩ := found
      exact DragRecord.sound_ofJsonWith? _ content drag whole dragRead
    · obtain ⟨kept, record, _, -, _, -, _, -, time, timeRead, rfl⟩ := found
      exact Instant.lossless.sound.required (finite_of_record? whole record) timeRead
    · obtain ⟨kept, record, time, timeRead, _, -, rfl⟩ := found
      exact Instant.lossless.sound.required (finite_of_record? whole record) timeRead

end Interaction

def Snapshot.Writable (snapshot : Snapshot) : Prop := snapshot.program.Writable

theorem Snapshot.lossless : Lossless Snapshot.Writable Snapshot.toJson Snapshot.ofJson? where
  read_write snapshot writable := by
    have program := ProgramShape.lossless.read_write _ writable
    rw [ofJson?, toJson, record?_obj _ (by simp)]
    simp [program]
  sound json snapshot finite found := by
    simp only [ofJson?, bind_eq_some_iff, pure_eq_some_iff] at found
    obtain ⟨members, record, program, programRead, _, -, rfl⟩ := found
    exact ProgramShape.lossless.sound.required (finite_of_record? finite record) programRead

/-- A record that its members tell all about; its counts fit in the 32 and 64 bits kept for them. -/
structure Record.Writable (record : Record) : Prop where
  planningStart : ∀ time ∈ record.planningStart, time.Civil
  executionStart : ∀ time ∈ record.executionStart, time.Civil
  executionEnd : ∀ time ∈ record.executionEnd, time.Civil
  actions : ∀ interaction ∈ record.actions, interaction.Writable
  attemptActionCounts : ∀ entry ∈ record.attemptActionCounts.entries,
    entry.1 < UInt32.size ∧ entry.2 < UInt64.size
  attempt : record.attempt < UInt32.size
  failures : record.failures < UInt32.size
  usedBlocks : record.usedBlocks < UInt64.size
  snapshots : ∀ snapshot ∈ record.snapshots, snapshot.Writable

theorem Record.lossless_attemptActionCounts : Lossless
    (fun counts : SortedMap Nat Nat =>
      ∀ entry ∈ counts.entries, entry.1 < UInt32.size ∧ entry.2 < UInt64.size)
    (ofSortedMap toString ofNat) (sortedMap? attemptKey? (nat? UInt64.size)) :=
  (lossless_nat UInt64.size).sortedMap (fun _ => attemptKey?_toString) fun _ _ => attemptKey?_lt

theorem Record.lossless : Lossless Record.Writable Record.toJson Record.ofJson? where
  read_write record writable := by
    have time := Instant.lossless.nullable fun _ => nofun
    have planningStart := time.read_write _ writable.planningStart
    have executionStart := time.read_write _ writable.executionStart
    have executionEnd := time.read_write _ writable.executionEnd
    have actions := Interaction.lossless.list.read_write _ writable.actions
    have counts := lossless_attemptActionCounts.read_write _ writable.attemptActionCounts
    have attempt := (lossless_nat _).read_write _ writable.attempt
    have failures := (lossless_nat _).read_write _ writable.failures
    have usedBlocks := (lossless_nat _).read_write _ writable.usedBlocks
    have snapshots := Snapshot.lossless.list.read_write _ writable.snapshots
    rw [ofJson?, toJson, record?_obj _ (by simp)]
    simp only [some_bind, required_cons, optional_cons, reduceIte, String.reduceEq, bool?_bool,
      uint32?_ofNat, planningStart, executionStart, executionEnd, actions, counts, attempt,
      failures, usedBlocks, snapshots]
    rfl
  sound json record finite found := by
    simp only [ofJson?, bind_eq_some_iff, pure_eq_some_iff] at found
    obtain ⟨members, object, planningStart, planningRead, executionStart, startRead, executionEnd,
      endRead, actions, actionsRead, counts, countsRead, attempt, attemptRead, _, -, failures,
      failuresRead, usedBlocks, usedRead, _, -, snapshots, snapshotsRead, rfl⟩ := found
    have parts := finite_of_record? finite object
    exact {
      planningStart := Instant.lossless.sound.optional parts planningRead
      executionStart := Instant.lossless.sound.optional parts startRead
      executionEnd := Instant.lossless.sound.optional parts endRead
      actions := Interaction.lossless.sound.list.required parts actionsRead
      attemptActionCounts := lossless_attemptActionCounts.sound.required parts countsRead
      attempt := (lossless_nat _).sound.required parts attemptRead
      failures := (lossless_nat _).sound.required parts failuresRead
      usedBlocks := (lossless_nat _).sound.required parts usedRead
      snapshots := Snapshot.lossless.sound.list.required parts snapshotsRead }

/-- Events and records that are fit to be written are read back as they were, and everything that
is read from a value is fit to be written. -/
theorem events_and_records_lossless :
    (∀ event : TimedEvent, event.Writable → TimedEvent.ofJson? event.toJson = some event) ∧
    (∀ record : Record, record.Writable → Record.ofJson? record.toJson = some record) ∧
    ∀ json : Json, json.Finite →
      (∀ event, TimedEvent.ofJson? json = some event →
        event.Writable ∧ TimedEvent.ofJson? event.toJson = some event) ∧
      ∀ record, Record.ofJson? json = some record →
        record.Writable ∧ Record.ofJson? record.toJson = some record := by
  have event := TimedEvent.lossless
  have record := Record.lossless
  refine ⟨event.read_write, record.read_write, fun json finite => ⟨?_, ?_⟩⟩
  · intro value read
    have writable := event.sound json value finite read
    exact ⟨writable, event.read_write value writable⟩
  · intro value read
    have writable := record.sound json value finite read
    exact ⟨writable, record.read_write value writable⟩

/-! A loop from the toolbox, a session with interactions of all kinds, and values that leave members
out or have no names for them. -/

def leapSecond : Instant := ⟨1709251199, 1500000000⟩

theorem leapSecond_civil : leapSecond.Civil := ⟨by decide, by decide, by decide⟩

def loopCreated : TimedEvent where
  time := leapSecond
  event := .create ⟨"l", "repeat", .ofList [("TIMES", "3")],
    [(.doBody, .leaf "t" "turn_left"), (.named "EXTRA", .leaf "f" "forward")]⟩ (some "s")
    (some .next) .toolbox

theorem loopCreated_writable : loopCreated.Writable := by
  have leaf : ∀ id type, (BlockSpec.leaf id type).Writable := fun _ _ =>
    .intro _ (by simp [BlockSpec.leaf]) (by simp [BlockSpec.leaf])
  refine ⟨leapSecond_civil, .intro _ ?_ ?_, ?_⟩
  · simp [Slot.writable_iff]
  · simp [leaf]
  · simp [Slot.writable_iff]

def loopShape : Shape := ⟨"r", "r(3)", [(.doBody, ⟨"t(l)", "t(l)", []⟩)]⟩

theorem loopShape_writable : loopShape.Writable := by
  have turn : Shape.Writable ⟨"t(l)", "t(l)", []⟩ := .intro _ (by simp) (by simp)
  refine .intro _ ?_ ?_
  · simp [loopShape, Slot.writable_iff]
  · simp [loopShape, turn]

def loopDragged : DragRecord where
  block := "l"
  type := none
  groupSize := 2
  start := ⟨1.5, -2⟩
  finish := ⟨3, 0.125⟩
  startedAt := leapSecond
  endedAt := ⟨1709251200, 7⟩
  durationMs := -1
  distance := 2.602
  priorParent := none
  connectedTo := some "s"
  slot := some .next
  outcome := .connected
  disconnected := false

theorem loopDragged_writable : loopDragged.Writable where
  start := ⟨by decide, by decide⟩
  finish := ⟨by decide, by decide⟩
  startedAt := leapSecond_civil
  endedAt := ⟨by decide, by decide, by decide⟩
  durationMs := by decide
  distance := by decide
  slot := by simp [loopDragged, Slot.writable_iff]

def loopSession : Record where
  planningStart := some leapSecond
  executionStart := none
  executionEnd := some leapSecond
  actions :=
    [.create "l" "repeat" leapSecond (some (.ofShape loopShape)),
      .field "l" none true "TIMES" (some "3") none leapSecond, .drag loopDragged,
      .delete "l" (some "repeat") 2 leapSecond, .execute leapSecond false]
  attemptActionCounts := .ofList [(1, 5), (4294967295, 5)]
  attempt := 2
  success := false
  failures := 1
  usedBlocks := 3
  idealBlocks := 4
  snapshots := [⟨⟨none, [loopShape]⟩, false⟩]

theorem loopSession_writable : loopSession.Writable where
  planningStart := by simp [loopSession, leapSecond_civil]
  executionStart := by simp [loopSession]
  executionEnd := by simp [loopSession, leapSecond_civil]
  actions := by
    simp [loopSession, Interaction.Writable, Fingerprint.Writable, Fingerprint.ofShape,
      leapSecond_civil, loopShape_writable, loopDragged_writable]
  attemptActionCounts := by decide
  attempt := by decide
  failures := by decide
  usedBlocks := by decide
  snapshots := by
    have program : ProgramShape.Writable ⟨none, [loopShape]⟩ :=
      ⟨by simp, by simp [loopShape_writable]⟩
    simp [loopSession, Snapshot.Writable, program]

def bareDrag : Json :=
  .obj [("type", .str "drag"), ("blockId", .str "b"), ("at", .str "2024-03-01 00:59:60.5+01:00"),
    ("isDragStart", .bool true), ("position", .arr [.int 3, .float 0.5])]

def dragStarted : TimedEvent := ⟨leapSecond, .drag "b" true ⟨3, 0.5⟩ 1 none none .workspace⟩

theorem bareDrag_finite : bareDrag.Finite := by
  have position : Finite (.arr [.int 3, .float 0.5]) := by
    refine .arr _ ?_
    simpa using ⟨.int 3, .float 0.5 (by decide)⟩
  refine .obj _ ?_
  simpa using ⟨.str _, .str _, .str _, .bool _, position⟩

def bareRecord : Json :=
  .arr [.null, .null, .null, .arr [], .obj [("7", .int 2)], .int 8, .bool false, .int 7, .int 0,
    .int 3, .arr []]

def resumed : Record :=
  { Record.start 3 with attemptActionCounts := .ofList [(7, 2)], attempt := 8, failures := 7 }

theorem bareRecord_finite : bareRecord.Finite := by
  have counts : Finite (.obj [("7", .int 2)]) := .obj _ (by simpa using .int 2)
  refine .arr _ ?_
  simpa using ⟨.null, .arr [] (by simp), counts, .int 8, .bool false, .int 7, .int 0, .int 3,
    .arr [] (by simp)⟩

theorem bareDrag_read : TimedEvent.ofJson? bareDrag = some dragStarted := by
  have time : Instant.ofJson? (.str "2024-03-01 00:59:60.5+01:00") = some leapSecond := by
    decide +kernel
  rw [TimedEvent.ofJson?, bareDrag, object?_obj (by simp), some_bind]
  simp only [required_cons, reduceIte, String.reduceEq, time]
  rfl

theorem bareRecord_read : Record.ofJson? bareRecord = some resumed := by rfl

theorem events_and_records_lossless_loop :
    (loopCreated.Writable ∧ TimedEvent.ofJson? loopCreated.toJson = some loopCreated) ∧
    (loopSession.Writable ∧ Record.ofJson? loopSession.toJson = some loopSession) ∧
    (bareDrag.Finite ∧ TimedEvent.ofJson? bareDrag = some dragStarted ∧
      TimedEvent.ofJson? dragStarted.toJson = some dragStarted) ∧
    bareRecord.Finite ∧ Record.ofJson? bareRecord = some resumed ∧
      Record.ofJson? resumed.toJson = some resumed := by
  obtain ⟨events, records, values⟩ := events_and_records_lossless
  exact ⟨⟨loopCreated_writable, events loopCreated loopCreated_writable⟩,
    ⟨loopSession_writable, records loopSession loopSession_writable⟩,
    ⟨bareDrag_finite, bareDrag_read,
      ((values bareDrag bareDrag_finite).1 dragStarted bareDrag_read).2⟩,
    bareRecord_finite, bareRecord_read,
    ((values bareRecord bareRecord_finite).2 resumed bareRecord_read).2⟩

end RobotPuzzle
