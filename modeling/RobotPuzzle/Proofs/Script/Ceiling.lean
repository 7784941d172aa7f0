import RobotPuzzle.Proofs.Script.Replay

/-!
Two runs of one program under different ceilings. The higher ceiling changes nothing for a run that
ended below the lower one, and only lengthens a run that was cut off.
-/

namespace RobotPuzzle

/-- A run under the ceiling `low` beside one under `high`: it is the same unless it was cut off. -/
structure Attempt.Truncates (cut whole : Attempt) (low high : Nat) : Prop where
  ended : cut.verdict ≠ .stepLimitExceeded → whole = cut
  steps : cut.verdict = .stepLimitExceeded → cut.steps = low
  log : cut.verdict = .stepLimitExceeded → cut.log.toList <+: whole.log.toList
  longer : cut.verdict = .stepLimitExceeded → low < high → low < whole.steps

theorem Attempt.Truncates.of_ended {low high : Nat} {attempt : Attempt}
    (ended : attempt.verdict ≠ .stepLimitExceeded) : Truncates attempt attempt low high where
  ended _ := rfl
  steps cut := absurd cut ended
  log cut := absurd cut ended
  longer cut := absurd cut ended

theorem flatRun_log_prefix (limit : Nat) (steps : List SmallStep) (taken : Nat) (scene : Scene) :
    scene.log.toList <+: (flatRun limit steps taken scene).log.toList := by
  obtain ⟨entries, logged, -⟩ := flatRun_told limit steps taken scene
  exact ⟨entries, logged.symm⟩

theorem flatRun_takes {limit taken : Nat} (below : taken < limit) (step : SmallStep)
    (rest : List SmallStep) (scene : Scene) :
    taken < (flatRun limit (step :: rest) taken scene).steps := by
  rcases performed : step.perform scene with ⟨after, failure⟩
  cases failure with
  | none =>
      rw [flatRun_of_performed below performed, flatRun_steps]
      omega
  | some fault =>
      rw [flatRun_of_failed below performed]
      exact Nat.lt_succ_self taken

theorem Executes.truncates {low high taken : Nat} (le : low ≤ high) (within : taken ≤ low)
    {steps : List SmallStep} {scene : Scene} {attempt : Attempt}
    (executes : Executes low steps taken scene attempt) :
    attempt.Truncates (flatRun high steps taken scene) low high := by
  induction executes with
  | @ends taken scene =>
      refine .of_ended ?_
      simp only
      split <;> simp
  | @cut step rest taken scene reached =>
      -- The lower ceiling ends the run here, and under the higher one it goes on from here.
      obtain rfl : taken = low := by omega
      refine ⟨fun ended => absurd rfl ended, fun _ => rfl, fun _ => ?_, fun _ lower => ?_⟩
      · exact flatRun_log_prefix high (step :: rest) taken scene
      · exact flatRun_takes lower step rest scene
  | fails below failed =>
      rw [flatRun_of_failed (by omega) failed]
      exact .of_ended (by simp)
  | goesOn below performed later ih =>
      rw [flatRun_of_performed (by omega) performed]
      exact ih (by omega)

namespace Attempt

/-- A run that ends below its ceiling is the same under every higher one. A run that is cut off has
taken as many steps as its ceiling allows, its log is the beginning of that under a higher one, and
any room above the ceiling would have been used. -/
theorem ceiling_truncates {low high : Nat} (le : low ≤ high) (script : Script) (world : World) :
    (ofScript low script world).Truncates (ofScript high script world) low high := by
  have executes := executes_flatRun low (Script.unroll script) 0 (.start world)
  rw [← flatRun_unroll_eq low, ← flatRun_unroll_eq high]
  exact executes.truncates le (Nat.zero_le low)

def wallLoop : Script := [.loop 3 [.act (.move .forward) "step"] "loop"]

/-- Cut off behind the first round's step, the run has one entry of the two in the log; from four
steps on it ends at the wall. -/
theorem ceiling_truncates_wallLoop :
    2 ≤ 4 ∧ (ofScript 2 wallLoop deadEnd).Truncates (ofScript 4 wallLoop deadEnd) 2 4 ∧
      (ofScript 2 wallLoop deadEnd).verdict = .stepLimitExceeded ∧
      (ofScript 2 wallLoop deadEnd).log.size = 1 ∧
      4 ≤ 9 ∧ ofScript 9 wallLoop deadEnd = ofScript 4 wallLoop deadEnd ∧
      (ofScript 4 wallLoop deadEnd).verdict = .fault .wall := by
  have cut : 2 ≤ 4 := by decide
  have slack : 4 ≤ 9 := by decide
  have wall : (ofScript 4 wallLoop deadEnd).verdict = .fault .wall := by decide
  have same := (ceiling_truncates slack wallLoop deadEnd).ended (by rw [wall]; decide)
  exact ⟨cut, ceiling_truncates cut wallLoop deadEnd, by decide, by decide, slack, same, wall⟩

end Attempt

end RobotPuzzle
