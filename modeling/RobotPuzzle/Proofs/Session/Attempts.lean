import RobotPuzzle.Proofs.SortedMap
import RobotPuzzle.Session.Basic

/-!
The attempts of a session are recorded several times over: in the interaction log, in the lengths of
that log, in snapshots, in counters and in the reports. All of these agree after every run of calls.
-/

namespace RobotPuzzle

def Interaction.success? : Interaction → Option Bool
  | .execute _ success => some success
  | _ => none

def executions (actions : List Interaction) : List (Nat × Bool) :=
  actions.zipIdx.filterMap fun entry => entry.1.success?.map fun success => (entry.2, success)

theorem executions_append (actions added : List Interaction) :
    executions (actions ++ added) = executions actions ++
      (added.zipIdx actions.length).filterMap fun entry =>
        entry.1.success?.map fun success => (entry.2, success) := by
  simp [executions, List.zipIdx_append]

theorem executions_append_of_quiet {added : List Interaction} (actions : List Interaction)
    (quiet : ∀ interaction ∈ added, interaction.success? = none) :
    executions (actions ++ added) = executions actions := by
  rw [executions_append, List.append_right_eq_self, List.filterMap_eq_nil_iff]
  intro entry member
  have inAdded : entry.1 ∈ added := List.fst_mem_of_mem_zipIdx member
  rw [quiet entry.1 inAdded, Option.map_none]

theorem executions_append_execute (actions : List Interaction) (time : Instant) (success : Bool) :
    executions (actions ++ [.execute time success]) =
      executions actions ++ [(actions.length, success)] := by
  rw [executions_append]
  rfl

namespace Record

/-- The books after a number of attempts. The lengths of the log are kept under the numbers of the
attempts, each the place of an execute action and one more. -/
structure Books (record : Record) (attempts : Nat) : Prop where
  attempt : record.attempt = attempts + 1
  snapshots : record.snapshots.length = attempts
  keys : record.attemptActionCounts.keys = List.range' 1 attempts
  counts : record.attemptActionCounts.entries =
    (executions record.actions).mapIdx fun index execution => (index + 1, execution.1 + 1)
  increasing : record.attemptActionCounts.values.Pairwise (· < ·)
  bounded : ∀ count ∈ record.attemptActionCounts.values, count ≤ record.actions.length
  flags : (executions record.actions).map (·.2) = record.snapshots.map (·.success)
  failures : record.failures = record.snapshots.countP (!·.success)
  success : record.success = true ↔ ∃ snapshot ∈ record.snapshots, snapshot.success = true

/-- What happens between attempts: the log grows by other actions and the books stay closed. -/
structure Extends (before after : Record) : Prop where
  actions : ∃ added, after.actions = before.actions ++ added ∧
    ∀ interaction ∈ added, interaction.success? = none
  attempt : after.attempt = before.attempt
  snapshots : after.snapshots = before.snapshots
  counts : after.attemptActionCounts = before.attemptActionCounts
  failures : after.failures = before.failures
  success : after.success = before.success

variable {record before middle after : Record} {attempts : Nat}

theorem Extends.refl (record : Record) : record.Extends record :=
  ⟨⟨[], by simp, by simp⟩, rfl, rfl, rfl, rfl, rfl⟩

theorem Extends.trans (first : before.Extends middle) (second : middle.Extends after) :
    before.Extends after := by
  obtain ⟨added, grown, quiet⟩ := first.actions
  obtain ⟨more, grownMore, quietMore⟩ := second.actions
  refine ⟨⟨added ++ more, ?_, ?_⟩, second.attempt.trans first.attempt,
    second.snapshots.trans first.snapshots, second.counts.trans first.counts,
    second.failures.trans first.failures, second.success.trans first.success⟩
  · rw [grownMore, grown, List.append_assoc]
  · intro interaction member
    rcases List.mem_append.1 member with inFirst | inSecond
    · exact quiet interaction inFirst
    · exact quietMore interaction inSecond

theorem Extends.timed (record : Record) (planningStart executionStart executionEnd : Option Instant)
    (usedBlocks : Nat) :
    record.Extends { record with planningStart, executionStart, executionEnd, usedBlocks } :=
  ⟨⟨[], by simp, by simp⟩, rfl, rfl, rfl, rfl, rfl⟩

theorem Extends.log (record : Record) {interaction : Interaction}
    (quiet : interaction.success? = none) : record.Extends (record.log interaction) :=
  ⟨⟨[interaction], rfl, by simp [quiet]⟩, rfl, rfl, rfl, rfl, rfl⟩

theorem Books.extends (books : before.Books attempts) (extension : before.Extends after) :
    after.Books attempts := by
  obtain ⟨⟨added, grown, quiet⟩, attempt, snapshots, counts, failures, success⟩ := extension
  have same : executions after.actions = executions before.actions := by
    rw [grown, executions_append_of_quiet before.actions quiet]
  refine ⟨?_, ?_, ?_, ?_, ?_, ?_, ?_, ?_, ?_⟩
  · rw [attempt, books.attempt]
  · rw [snapshots, books.snapshots]
  · rw [counts, books.keys]
  · rw [counts, same, books.counts]
  · rw [counts]
    exact books.increasing
  · intro count member
    rw [counts] at member
    have below := books.bounded count member
    rw [grown, List.length_append]
    omega
  · rw [same, snapshots, books.flags]
  · rw [failures, snapshots, books.failures]
  · rw [success, snapshots, books.success]

theorem Books.length_executions (books : record.Books attempts) :
    (executions record.actions).length = attempts := by
  have flags := congrArg List.length books.flags
  rw [List.length_map, List.length_map, books.snapshots] at flags
  exact flags

theorem Books.book (books : record.Books attempts) (program : ProgramShape) (success : Bool)
    (time : Instant) : (record.book program success time).Books (attempts + 1) := by
  have above : ∀ entry ∈ record.attemptActionCounts.entries,
      compare entry.1 record.attempt = .lt := by
    intro entry member
    have inKeys : entry.1 ∈ record.attemptActionCounts.keys := List.mem_map_of_mem member
    rw [books.keys, List.mem_range'_1] at inKeys
    rw [books.attempt, Nat.compare_eq_lt]
    omega
  have entries := SortedMap.entries_insert_of_lt (record.actions.length + 1) above
  have values : (record.book program success time).attemptActionCounts.values =
      record.attemptActionCounts.values ++ [record.actions.length + 1] := by
    simp [Record.book, SortedMap.values, entries]
  have executed : executions (record.book program success time).actions =
      executions record.actions ++ [(record.actions.length, success)] :=
    executions_append_execute record.actions time success
  refine ⟨?_, ?_, ?_, ?_, ?_, ?_, ?_, ?_, ?_⟩
  · simp [Record.book, books.attempt]
  · simp [Record.book, books.snapshots]
  · have keys : (record.book program success time).attemptActionCounts.keys =
        record.attemptActionCounts.keys ++ [record.attempt] := by
      simp [Record.book, SortedMap.keys, entries]
    rw [keys, books.keys, books.attempt, List.range'_1_concat, Nat.add_comm]
  · rw [executed, List.mapIdx_concat, books.length_executions, ← books.counts, ← books.attempt]
    simpa [Record.book] using entries
  · rw [values, List.pairwise_append]
    refine ⟨books.increasing, by simp, ?_⟩
    intro count member last isLast
    have below := books.bounded count member
    rw [List.mem_singleton] at isLast
    omega
  · intro count member
    rw [values, List.mem_append, List.mem_singleton] at member
    simp only [Record.book, List.length_append, List.length_singleton]
    rcases member with earlier | last
    · have below := books.bounded count earlier
      omega
    · omega
  · rw [executed, List.map_append, books.flags]
    simp [Record.book]
  · cases success <;> simp [Record.book, books.failures, List.countP_append]
  · cases success <;> simp [Record.book, books.success, or_comm]

/-- Fewer than 4294967295 attempts are numbered and counted within 32 bits. -/
theorem Books.fits (books : record.Books attempts) (few : attempts + 1 < UInt32.size) :
    record.attempt < UInt32.size ∧ record.failures + 1 < UInt32.size ∧
      ∀ number ∈ record.attemptActionCounts.keys, number < UInt32.size := by
  have attempt := books.attempt
  have failed : record.failures ≤ attempts := by
    rw [books.failures, ← books.snapshots]
    exact List.countP_le_length
  refine ⟨by omega, by omega, ?_⟩
  intro number member
  rw [books.keys, List.mem_range'_1] at member
  omega

end Record

namespace Recorder

inductive Call
  | seed (program : BlockSpec)
  | beginPlanning (time : Instant)
  | beginExecution (time : Instant)
  | finish (time : Instant)
  | handle (event : Event) (time : Instant)
  | book (success : Bool) (time : Instant)

def perform (recorder : Recorder) : Call → Recorder
  | .seed program => recorder.seed program
  | .beginPlanning time => recorder.beginPlanning time
  | .beginExecution time => recorder.beginExecution time
  | .finish time => recorder.finish time
  | .handle event time => recorder.handle event time
  | .book success time => recorder.book success time

def performAll (recorder : Recorder) (calls : List Call) : Recorder := calls.foldl perform recorder

variable {recorder : Recorder} {time : Instant}

theorem extends_withWorkspace (recorder : Recorder) (workspace : Workspace) :
    recorder.record.Extends (recorder.withWorkspace workspace).record :=
  .timed _ _ _ _ _

theorem extends_beginExecution (recorder : Recorder) (time : Instant) :
    recorder.record.Extends (recorder.beginExecution time).record :=
  .timed _ _ _ _ _

theorem extends_finish (recorder : Recorder) (time : Instant) :
    recorder.record.Extends (recorder.finish time).record :=
  .timed _ _ _ _ _

theorem extends_log (recorder : Recorder) {interaction : Interaction}
    (quiet : interaction.success? = none) :
    recorder.record.Extends (recorder.log interaction).record :=
  .log recorder.record quiet

theorem extends_create (recorder : Recorder) (block : BlockSpec) (place : Option (String × Slot))
    (time : Instant) : recorder.record.Extends (recorder.create block place time).record := by
  have inserted := recorder.extends_withWorkspace (recorder.workspace.insert block place)
  simp only [create]
  split
  · exact inserted
  · exact inserted.trans (extends_log _ rfl)

theorem extends_closeDrag (recorder : Recorder) (id : String) (finish : SurfacePoint)
    (parent : Option String) (slot : Option Slot) (time : Instant) :
    recorder.record.Extends (recorder.closeDrag id finish parent slot time).record := by
  simp only [closeDrag]
  split
  · exact .refl _
  · split
    · exact .refl _
    · exact .log _ rfl

theorem extends_delete (recorder : Recorder) (id : String) (type : Option String)
    (position : SurfacePoint) (groupSize : UInt64) (time : Instant) :
    recorder.record.Extends (recorder.delete id type position groupSize time).record := by
  simp only [delete]
  split
  · refine Record.Extends.trans ?_ (extends_withWorkspace _ _)
    exact .log recorder.record rfl
  · refine Record.Extends.trans ?_ (extends_withWorkspace _ _)
    exact extends_log recorder rfl

theorem extends_handle (recorder : Recorder) (event : Event) (time : Instant) :
    recorder.record.Extends (recorder.handle event time).record := by
  cases event with
  | create block parent slot source =>
      cases source with
      | toolbox => exact .refl _
      | workspace => exact (recorder.extends_beginExecution time).trans (extends_create _ _ _ _)
  | fieldChange block type name oldValue newValue source =>
      refine (recorder.extends_beginExecution time).trans ?_
      cases source with
      | toolbox => exact .log _ rfl
      | workspace => exact .log _ rfl
  | drag block isStart position groupSize parent slot source =>
      refine (recorder.extends_beginExecution time).trans ?_
      cases isStart with
      | true => exact .refl _
      | false => exact extends_closeDrag _ _ _ _ _ _
  | delete block type position groupSize => exact extends_delete _ _ _ _ _ _
  | move block oldParent oldSlot newParent newSlot source =>
      cases source with
      | toolbox => exact .refl _
      | workspace => exact extends_withWorkspace _ _
  | loadFinished => exact .refl _

end Recorder

namespace Session

inductive Call
  | handle (event : TimedEvent)
  | execute (time : Instant)
  | finish (time : Instant)

def perform (state : Session × List Report) : Call → Session × List Report
  | .handle event => (state.1.handle event, state.2)
  | .execute time => ((state.1.execute time).1, state.2 ++ [(state.1.execute time).2])
  | .finish time => (state.1.finish time, state.2)

def performAll (session : Session) (calls : List Call) : Session × List Report :=
  calls.foldl perform (session, [])

structure Reports (report : Report) (number : Nat) (snapshot : Snapshot) : Prop where
  attempt : report.attempt = number
  feedback : report.feedback =
    if report.result.verdict = .success then .success else .failure number report.result.verdict
  fingerprint : report.fingerprint = (snapshot.program.main.map Shape.fingerprint).getD ""

structure Reported (state : Session × List Report) : Prop where
  books : state.1.recorder.record.Books state.2.length
  reports : ∀ index report, state.2[index]? = some report →
    ∃ snapshot, state.1.recorder.record.snapshots[index]? = some snapshot ∧
      Reports report (index + 1) snapshot

theorem reports_execute {session : Session} {attempts : Nat} (time : Instant)
    (books : session.recorder.record.Books attempts) :
    Reports (session.execute time).2 (attempts + 1)
      ⟨session.recorder.program, session.attempt.verdict.isSuccess⟩ := by
  have number : (session.recorder.beginExecution time).record.attempt = attempts + 1 :=
    books.attempt
  refine ⟨number, ?_, rfl⟩
  simp only [execute, number, Verdict.isSuccess, beq_iff_eq]

variable {state : Session × List Report}

theorem Reported.extends (reported : Reported state) {session : Session}
    (extension : state.1.recorder.record.Extends session.recorder.record) :
    Reported (session, state.2) := by
  refine ⟨reported.books.extends extension, ?_⟩
  intro index report found
  simp only [extension.snapshots]
  exact reported.reports index report found

theorem Reported.execute (reported : Reported state) (time : Instant) :
    Reported (perform state (.execute time)) := by
  obtain ⟨session, reports⟩ := state
  have begun := reported.books.extends (session.recorder.extends_beginExecution time)
  have booked := begun.book session.recorder.program session.attempt.verdict.isSuccess time
  refine ⟨?_, ?_⟩
  · simp only [perform, List.length_append, List.length_singleton]
    exact booked
  · intro index report found
    have grown : (session.execute time).1.recorder.record.snapshots =
        session.recorder.record.snapshots ++
          [⟨session.recorder.program, session.attempt.verdict.isSuccess⟩] := rfl
    have length : session.recorder.record.snapshots.length = reports.length :=
      reported.books.snapshots
    simp only [perform, grown] at found ⊢
    by_cases last : index = reports.length
    · subst last
      rw [List.getElem?_concat_length] at found
      obtain rfl := Option.some.inj found
      exact ⟨_, by rw [← length, List.getElem?_concat_length],
        reports_execute time reported.books⟩
    · have bound := (List.getElem?_eq_some_iff.1 found).1
      rw [List.length_append, List.length_singleton] at bound
      rw [List.getElem?_append_left (by omega)] at found ⊢
      exact reported.reports index report found

theorem Reported.perform (reported : Reported state) (call : Call) :
    Reported (perform state call) := by
  cases call with
  | execute time => exact reported.execute time
  | handle event => exact reported.extends (Recorder.extends_handle _ _ _)
  | finish time => exact reported.extends (Recorder.extends_finish _ _)

def nearGoal : Exercise :=
  ⟨"near-goal", ["forward"], [["4", "2"]], none, 2, none⟩

end Session

end RobotPuzzle
