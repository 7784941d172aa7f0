import RobotPuzzle.Proofs.Script.Unrolled
import RobotPuzzle.Proofs.World.Actions

/-!
The log of a run tells the run again: as a flat program it has the same log and the same world at
its end, however the first run stopped.
-/

namespace RobotPuzzle

def callsOf (entries : List LogEntry) : List (Action × String) :=
  entries.filterMap fun entry => entry.deed.action?.map fun action => (action, entry.block)

def Script.ofLog (log : Log) : Script :=
  (callsOf log.toList).map fun call => .act call.1 call.2

def SmallStep.ofCalls (calls : List (Action × String)) : List SmallStep :=
  calls.map fun call => .act call.1 call.2

/-- The verdicts that show in the log. A refused pick or deposit leaves no entry, and a log does not
tell that the run was cut off behind it. -/
def Verdict.logged : List Verdict :=
  [.success, .incomplete, .fault .outOfBounds, .fault .wall, .fault .pit]

structure Attempt.Retells (replay run : Attempt) : Prop where
  log : replay.log = run.log
  world : replay.world = run.world
  verdict : run.verdict ∈ Verdict.logged → replay.verdict = run.verdict

@[simp] theorem callsOf_append (entries more : List LogEntry) :
    callsOf (entries ++ more) = callsOf entries ++ callsOf more :=
  List.filterMap_append

theorem unroll_calls (calls : List (Action × String)) :
    Script.unroll (calls.map fun call => .act call.1 call.2) = SmallStep.ofCalls calls := by
  induction calls with
  | nil => rfl
  | cons call rest ih =>
      simp only [List.map_cons, Script.unroll, Instruction.unroll, ih, SmallStep.ofCalls]
      rfl

theorem World.Acts.callsOf_eq {world after : World} {block : String} {action : Action}
    {entries : List LogEntry} {outcome : Except FaultKind Bool}
    (acts : world.Acts block action after entries outcome) :
    callsOf entries = [(action, block)] ∨
      entries = [] ∧ after = world ∧
        ∃ kind, outcome = .error kind ∧ .fault kind ∉ Verdict.logged := by
  cases acts with
  | refuses refused =>
      refine .inr ⟨rfl, rfl, _, rfl, ?_⟩
      cases refused <;> decide
  | leaves | bumps | falls | arrives | clears | moves | picks | puts => exact .inl rfl

/-- An action is told by what it logs, or it is refused and leaves everything as it was. -/
theorem perform_act_told (action : Action) (block : String) (scene : Scene) :
    ∃ entries, ((SmallStep.act action block).perform scene).1.log.toList =
        scene.log.toList ++ entries ∧
      (callsOf entries = [(action, block)] ∨
        entries = [] ∧ ∃ fault, (SmallStep.act action block).perform scene = (scene, some fault) ∧
          .fault fault.kind ∉ Verdict.logged) := by
  obtain ⟨world, log, solved⟩ := scene
  obtain ⟨entries, logged, acts⟩ := World.act_acts action block world log
  have told := acts.callsOf_eq
  simp only [SmallStep.perform]
  generalize World.act action block world log = effect at logged told ⊢
  obtain ⟨after, next, outcome⟩ := effect
  refine ⟨entries, ?_, ?_⟩
  · cases outcome <;> exact logged
  · rcases told with told | ⟨rfl, rfl, kind, rfl, refused⟩
    · exact .inl told
    · have same : next = log := Array.toList_inj.1 (by simpa using logged)
      subst same
      exact .inr ⟨rfl, ⟨kind, next⟩, rfl, refused⟩

theorem flatRun_told (limit : Nat) (steps : List SmallStep) (taken : Nat) (scene : Scene) :
    ∃ entries, (flatRun limit steps taken scene).log.toList = scene.log.toList ++ entries ∧
      ∀ ceiling start, start + (callsOf entries).length ≤ ceiling →
        (flatRun ceiling (SmallStep.ofCalls (callsOf entries)) start scene).Retells
          (flatRun limit steps taken scene) := by
  induction steps generalizing taken scene with
  | nil => exact ⟨[], by simp [flatRun], fun _ _ _ => ⟨rfl, rfl, fun _ => rfl⟩⟩
  | cons step rest ih =>
      by_cases reached : limit ≤ taken
      · rw [flatRun_of_le reached (by simp)]
        exact ⟨[], by simp, fun _ _ _ => ⟨rfl, rfl, by simp [Verdict.logged]⟩⟩
      have below : taken < limit := by omega
      cases step with
      | round =>
          rw [flatRun_of_performed below rfl]
          exact ih (taken + 1) scene
      | act action block =>
          obtain ⟨entries, logged, told⟩ := perform_act_told action block scene
          rcases told with told | ⟨rfl, fault, failed, refused⟩
          · rcases performed : (SmallStep.act action block).perform scene with ⟨after, failure⟩
            rw [performed] at logged
            have one : ∀ later, SmallStep.ofCalls (callsOf (entries ++ later)) =
                .act action block :: SmallStep.ofCalls (callsOf later) := by
              simp [told, SmallStep.ofCalls]
            cases failure with
            | none =>
                rw [flatRun_of_performed below performed]
                obtain ⟨later, laterLogged, retells⟩ := ih (taken + 1) after
                refine ⟨entries ++ later, by rw [laterLogged, logged, List.append_assoc], ?_⟩
                intro ceiling start room
                rw [callsOf_append, told, List.length_append, List.length_singleton] at room
                rw [one, flatRun_of_performed (by omega) performed]
                exact retells ceiling (start + 1) (by omega)
            | some fault =>
                rw [flatRun_of_failed below performed]
                refine ⟨entries, logged, ?_⟩
                intro ceiling start room
                rw [told, List.length_singleton] at room
                rw [← List.append_nil entries, one, flatRun_of_failed (by omega) performed]
                exact ⟨rfl, rfl, fun _ => rfl⟩
          · rw [flatRun_of_failed below failed]
            exact ⟨[], by simp, fun _ _ _ => ⟨rfl, rfl, fun shown => absurd shown refused⟩⟩

/-- A run of the program told by a log, with room for its length, ends with that log and in the
world of the first run, and with its verdict if that shows in the log. -/
theorem Attempt.ofLog_retells (limit : Nat) (script : Script) (world : World) {ceiling : Nat}
    (room : (Script.ofLog (Attempt.ofScript limit script world).log).length ≤ ceiling) :
    (Attempt.ofScript ceiling (.ofLog (Attempt.ofScript limit script world).log) world).Retells
      (Attempt.ofScript limit script world) := by
  rw [Script.ofLog, List.length_map] at room
  rw [Script.ofLog, ← flatRun_unroll_eq ceiling, unroll_calls]
  rw [← flatRun_unroll_eq limit] at room ⊢
  obtain ⟨entries, logged, retells⟩ :=
    flatRun_told limit (Script.unroll script) 0 (.start world)
  rw [show (Scene.start world).log.toList = [] from rfl, List.nil_append] at logged
  rw [logged] at room ⊢
  exact retells ceiling 0 (by omega)

namespace Attempt

def deadEnd : World where
  tiles := [[.start .right, .collectible 1, .wall]]
  robot := ⟨⟨0, 0⟩, .right⟩
  ledger := Ledger.ofCells (cells [[.start .right, .collectible 1, .wall]])

def deadEndScript : Script :=
  [.act (.move .forward) "step", .act .pick "pick",
    .loop 2 [.act (.move .forward) "push"] "loop"]

theorem ofLog_retells_deadEnd :
    (Script.ofLog (ofScript 10 deadEndScript deadEnd).log).length ≤ 3 ∧
      (ofScript 3 (.ofLog (ofScript 10 deadEndScript deadEnd).log) deadEnd).Retells
        (ofScript 10 deadEndScript deadEnd) ∧
      (ofScript 10 deadEndScript deadEnd).verdict = .fault .wall := by
  have room : (Script.ofLog (ofScript 10 deadEndScript deadEnd).log).length ≤ 3 := by decide
  exact ⟨room, ofLog_retells 10 deadEndScript deadEnd room, by decide⟩

end Attempt

end RobotPuzzle
