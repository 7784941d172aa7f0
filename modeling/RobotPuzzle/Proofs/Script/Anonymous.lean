import RobotPuzzle.Proofs.Script.Unrolled

/-!
Block ids are labels: a run passes them on to the log and looks at none of them, so a program
without them runs in the same way.
-/

namespace RobotPuzzle

mutual

def Instruction.anonymous : Instruction → Instruction
  | .act action _ => .act action ""
  | .loop count body _ => .loop count (Script.anonymous body) ""

def Script.anonymous : List Instruction → List Instruction
  | [] => []
  | instruction :: rest => instruction.anonymous :: Script.anonymous rest

end

def LogEntry.anonymous (entry : LogEntry) : LogEntry := { entry with block := "" }

def anonymousLog (log : Log) : Log := log.map LogEntry.anonymous

def Fault.anonymous (fault : Fault) : Fault := { fault with log := anonymousLog fault.log }

def Effect.anonymous (effect : Effect) : Effect := { effect with log := anonymousLog effect.log }

def Scene.anonymous (scene : Scene) : Scene := { scene with log := anonymousLog scene.log }

def SmallStep.anonymous : SmallStep → SmallStep
  | .round => .round
  | .act action _ => .act action ""

def Attempt.anonymous (attempt : Attempt) : Attempt :=
  { attempt with log := anonymousLog attempt.log, fault := attempt.fault.map Fault.anonymous }

theorem anonymousLog_push (log : Log) (deed : Deed) (block : String) :
    anonymousLog (log.push ⟨deed, block⟩) = (anonymousLog log).push ⟨deed, ""⟩ := by
  simp [anonymousLog, LogEntry.anonymous]

theorem applyMove_anonymous (move : Move) (block : String) (world : World) (log : Log) :
    World.applyMove move "" world (anonymousLog log) =
      (World.applyMove move block world log).anonymous := by
  simp only [World.applyMove]
  cases world.tileAt? (world.robot.after move).position with
  | none => simp only [Effect.anonymous, anonymousLog_push]
  | some tile => cases tile <;> simp only [Effect.anonymous, anonymousLog_push]

theorem pick_anonymous (block : String) (world : World) (log : Log) :
    World.pick "" world (anonymousLog log) = (World.pick block world log).anonymous := by
  simp only [World.pick]
  split
  · rfl
  · split <;> simp only [Effect.anonymous, anonymousLog_push]

theorem putDown_anonymous (block : String) (world : World) (log : Log) :
    World.putDown "" world (anonymousLog log) = (World.putDown block world log).anonymous := by
  simp only [World.putDown]
  split
  · rfl
  · split
    · rfl
    · split <;> simp only [Effect.anonymous, anonymousLog_push]

theorem act_anonymous (action : Action) (block : String) (world : World) (log : Log) :
    World.act action "" world (anonymousLog log) =
      (World.act action block world log).anonymous := by
  cases action with
  | move move => exact applyMove_anonymous move block world log
  | pick => exact pick_anonymous block world log
  | putDown => exact putDown_anonymous block world log

theorem SmallStep.perform_anonymous (step : SmallStep) (scene : Scene) :
    step.anonymous.perform scene.anonymous =
      ((step.perform scene).1.anonymous, (step.perform scene).2.map Fault.anonymous) := by
  cases step with
  | round => rfl
  | act action block =>
      simp only [SmallStep.anonymous, perform, Scene.anonymous,
        act_anonymous action block scene.world scene.log, Effect.anonymous]
      cases (World.act action block scene.world scene.log).outcome <;> rfl

theorem flatRun_anonymous (limit : Nat) (steps : List SmallStep) (taken : Nat) (scene : Scene) :
    flatRun limit (steps.map SmallStep.anonymous) taken scene.anonymous =
      (flatRun limit steps taken scene).anonymous := by
  induction steps generalizing taken scene with
  | nil => rfl
  | cons step rest ih =>
      by_cases reached : limit ≤ taken
      · rw [flatRun_of_le reached (by simp), flatRun_of_le reached (by simp)]
        rfl
      have below : taken < limit := by omega
      have performed := step.perform_anonymous scene
      rw [List.map_cons]
      rcases result : step.perform scene with ⟨after, failure⟩
      rw [result] at performed
      cases failure with
      | none =>
          rw [flatRun_of_performed below result, flatRun_of_performed below performed]
          exact ih (taken + 1) after
      | some fault =>
          rw [flatRun_of_failed below result, flatRun_of_failed below performed]
          rfl

mutual

theorem Instruction.unroll_anonymous (instruction : Instruction) :
    instruction.anonymous.unroll = instruction.unroll.map SmallStep.anonymous := by
  cases instruction with
  | act action block => rfl
  | loop count body block =>
      simp only [Instruction.anonymous, Instruction.unroll, List.map_flatten, List.map_replicate,
        List.map_cons, Script.unroll_anonymous body, SmallStep.anonymous]

theorem Script.unroll_anonymous (script : List Instruction) :
    Script.unroll (Script.anonymous script) = (Script.unroll script).map SmallStep.anonymous := by
  cases script with
  | nil => rfl
  | cons instruction rest =>
      simp only [Script.anonymous, Script.unroll, List.map_append,
        Instruction.unroll_anonymous instruction, Script.unroll_anonymous rest]

end

/-- A program without block ids has the same verdict, steps and world at the end, and the same log
without block ids. -/
theorem Attempt.ofScript_anonymous (limit : Nat) (script : Script) (world : World) :
    Attempt.ofScript limit (Script.anonymous script) world =
      (Attempt.ofScript limit script world).anonymous := by
  have start : (Scene.start world).anonymous = .start world := by
    simp [Scene.anonymous, Scene.start, anonymousLog]
  have flat := flatRun_anonymous limit (Script.unroll script) 0 (.start world)
  rw [start, ← Script.unroll_anonymous, flatRun_unroll_eq, flatRun_unroll_eq] at flat
  exact flat

end RobotPuzzle
