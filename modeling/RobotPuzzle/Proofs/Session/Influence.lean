import RobotPuzzle.Proofs.Session.Attempts
import RobotPuzzle.Proofs.Session.Mirror

/-!
What an attempt depends on: the edits that the editor has reported, and of each edit only what it
says about the workspace. Times, drags, the toolbox and earlier attempts have no influence.
-/

namespace RobotPuzzle

/-- A change of the workspace, with nothing else of the event that reports it. -/
inductive Edit
  | create (block : BlockSpec) (parent : Option String) (slot : Option Slot)
  | setField (block name : String) (value : Option String)
  | delete (block : String)
  | move (block : String) (oldParent : Option String) (oldSlot : Option Slot)
      (newParent : Option String) (newSlot : Option Slot)

/-- The edit that an event reports, without types, positions, group sizes and old values. -/
def Event.edit? : Event → Option Edit
  | .create block parent slot .workspace => some (.create block parent slot)
  | .fieldChange block _ name _ newValue .workspace => some (.setField block name newValue)
  | .delete block _ _ _ => some (.delete block)
  | .move block oldParent oldSlot newParent newSlot .workspace =>
    some (.move block oldParent oldSlot newParent newSlot)
  | .create _ _ _ .toolbox | .fieldChange _ _ _ _ _ .toolbox | .move _ _ _ _ _ .toolbox => none
  | .drag .. | .loadFinished => none

namespace Workspace

def edit (workspace : Workspace) : Edit → Workspace
  | .create block parent slot => workspace.insert block (Recorder.place? parent slot)
  | .setField block name value => workspace.setField block name value
  | .delete block => workspace.delete block
  | .move block oldParent oldSlot newParent newSlot =>
    workspace.reparent block (Recorder.place? oldParent oldSlot)
      (Recorder.place? newParent newSlot)

def editAll (workspace : Workspace) (edits : List Edit) : Workspace := edits.foldl edit workspace

theorem follow_eq_edit (workspace : Workspace) (event : Event) :
    workspace.follow event = workspace.editAll event.edit?.toList := by
  cases event with
  | create block parent slot source => cases source <;> rfl
  | fieldChange block type name oldValue newValue source => cases source <;> rfl
  | move block oldParent oldSlot newParent newSlot source => cases source <;> rfl
  | drag | delete | loadFinished => rfl

end Workspace

namespace Session

def Call.edit? : Call → Option Edit
  | .handle timed => timed.event.edit?
  | .execute _ | .finish _ => none

def edits (calls : List Call) : List Edit := calls.filterMap (·.edit?)

structure After (session : Session) (edits : List Edit) (later : Session) : Prop where
  workspace : later.recorder.workspace = session.recorder.workspace.editAll edits
  world : later.world = session.world
  maxSteps : later.maxSteps = session.maxSteps

theorem After.perform {session : Session} {edits : List Edit} {state : Session × List Report}
    (after : session.After edits state.1) (call : Call) :
    session.After (edits ++ call.edit?.toList) (perform state call).1 := by
  obtain ⟨workspace, world, maxSteps⟩ := after
  cases call with
  | handle timed =>
      refine ⟨?_, world, maxSteps⟩
      simp only [Session.perform, handle, Recorder.workspace_handle, Workspace.follow_eq_edit,
        workspace]
      exact List.foldl_append.symm
  | execute | finish => exact ⟨workspace.trans (by simp [Call.edit?]), world, maxSteps⟩

theorem After.foldl {session : Session} {edits : List Edit} {state : Session × List Report}
    (after : session.After edits state.1) (calls : List Call) :
    session.After (edits ++ Session.edits calls) (calls.foldl Session.perform state).1 := by
  induction calls generalizing edits state with
  | nil => simpa [Session.edits] using after
  | cons call rest ih =>
      have last := ih (after.perform call)
      cases reported : call.edit? <;> simpa [Session.edits, reported] using last

theorem after_performAll (session : Session) (calls : List Call) :
    session.After (edits calls) (session.performAll calls).1 := by
  have fresh : session.After [] session := ⟨rfl, rfl, rfl⟩
  exact @After.foldl session [] (session, []) fresh calls

/-- Two runs that report the same edits lead to the same workspace, and an attempt after one gives
what an attempt after the other gives, whenever they are made and however many came before. -/
theorem attempts_depend_on_edits (session : Session) {first second : List Call}
    (same : edits first = edits second) (time later : Instant) :
    (session.performAll first).1.recorder.workspace =
        (session.performAll second).1.recorder.workspace ∧
      ((session.performAll first).1.execute time).2.fingerprint =
        ((session.performAll second).1.execute later).2.fingerprint ∧
      ((session.performAll first).1.execute time).2.result =
        ((session.performAll second).1.execute later).2.result := by
  have before := session.after_performAll first
  have after := session.after_performAll second
  rw [same] at before
  have workspace := before.workspace.trans after.workspace.symm
  refine ⟨workspace, ?_, ?_⟩
  · simp only [execute, Recorder.fingerprint, Recorder.program, Recorder.beginExecution, workspace]
  · simp only [execute, attempt, workspace, before.world, after.world, before.maxSteps,
      after.maxSteps]

def bareEdits : List Call :=
  [.handle ⟨⟨1, 0⟩, .create (.leaf "step" "forward") (some "start") (some .next) .workspace⟩,
    .handle ⟨⟨2, 0⟩, .fieldChange "step" none "NOTE" none (some "go") .workspace⟩,
    .handle ⟨⟨3, 0⟩, .delete "other" none .origin 1⟩]

def noisyEdits : List Call :=
  [.execute ⟨1, 0⟩, .handle ⟨⟨2, 0⟩, .loadFinished⟩,
    .handle ⟨⟨3, 0⟩, .create (.leaf "spare" "forward") none none .toolbox⟩,
    .handle ⟨⟨4, 0⟩, .create (.leaf "step" "forward") (some "start") (some .next) .workspace⟩,
    .handle ⟨⟨5, 0⟩, .drag "step" true .origin 1 none none .workspace⟩,
    .handle ⟨⟨6, 0⟩, .fieldChange "step" (some "forward") "NOTE" (some "halt") (some "go")
      .workspace⟩,
    .execute ⟨7, 0⟩, .handle ⟨⟨8, 0⟩, .delete "other" (some "forward") ⟨1, 2⟩ 3⟩]

theorem attempts_depend_on_edits_noisy : ∃ session, load nearGoal 10 ⟨0, 0⟩ = .ok session ∧
    edits bareEdits = edits noisyEdits ∧
    (((session.performAll bareEdits).1.execute ⟨9, 0⟩).2.attempt,
      ((session.performAll noisyEdits).1.execute ⟨10, 0⟩).2.attempt) = (1, 3) ∧
    ((session.performAll bareEdits).1.execute ⟨9, 0⟩).2.result =
      ((session.performAll noisyEdits).1.execute ⟨10, 0⟩).2.result := by
  obtain ⟨session, loaded⟩ : ∃ session, load nearGoal 10 ⟨0, 0⟩ = .ok session := ⟨_, rfl⟩
  have same : edits bareEdits = edits noisyEdits := rfl
  have agree := attempts_depend_on_edits session same ⟨9, 0⟩ ⟨10, 0⟩
  refine ⟨session, loaded, same, ?_, agree.2.2⟩
  obtain rfl := Except.ok.inj loaded
  decide +kernel

end Session

end RobotPuzzle
