import RobotPuzzle.Script.Run

/-!
A run under a ceiling is the flat, bounded execution of the unrolled program: a list of small
steps, each of which is one action or the beginning of one round of a loop.
-/

namespace RobotPuzzle

inductive SmallStep
  /-- The beginning of a round. It changes nothing. -/
  | round
  | act (action : Action) (block : String)
deriving DecidableEq, Repr

mutual

def Instruction.unroll : Instruction → List SmallStep
  | .act action block => [.act action block]
  | .loop count body _ => (List.replicate count.toNat (.round :: Script.unroll body)).flatten

/-- The small steps of a program, every round of a loop written out. -/
def Script.unroll : List Instruction → List SmallStep
  | [] => []
  | instruction :: rest => instruction.unroll ++ Script.unroll rest

end

structure Scene where
  world : World
  log : Log
  /-- Whether the latest action solved the puzzle. -/
  solved : Bool

def Scene.start (world : World) : Scene := ⟨world, #[], false⟩

def SmallStep.perform : SmallStep → Scene → Scene × Option Fault
  | .round, scene => (scene, none)
  | .act action block, scene =>
    let effect := World.act action block scene.world scene.log
    match effect.outcome with
    | .ok solved => (⟨effect.world, effect.log, solved⟩, none)
    | .error kind => (⟨effect.world, effect.log, scene.solved⟩, some ⟨kind, effect.log⟩)

/-- Executes small steps in order, of which `taken` came before. The execution stops when a step
is due and the ceiling has been reached, and at the first step that fails. -/
def flatRun (limit : Nat) : List SmallStep → Nat → Scene → Attempt
  | [], taken, scene =>
    ⟨scene.world, scene.log, if scene.solved then .success else .incomplete, none, taken⟩
  | step :: rest, taken, scene =>
    if limit ≤ taken then ⟨scene.world, scene.log, .stepLimitExceeded, none, taken⟩
    else
      match step.perform scene with
      | (after, some fault) => ⟨after.world, after.log, .fault fault.kind, some fault, taken + 1⟩
      | (after, none) => flatRun limit rest (taken + 1) after

theorem SmallStep.perform_act_done {action : Action} {block : String} {before after : Scene}
    (performed : (SmallStep.act action block).perform before = (after, none)) :
    World.act action block before.world before.log =
      ⟨after.world, after.log, .ok after.solved⟩ := by
  simp only [perform] at performed
  cases done : World.act action block before.world before.log with
  | mk world log outcome =>
      rw [done] at performed
      cases outcome with
      | error kind => simp at performed
      | ok solved =>
          obtain rfl := (Prod.mk.inj performed).1
          rfl

theorem SmallStep.perform_act_failed {action : Action} {block : String} {before after : Scene}
    {fault : Fault} (failed : (SmallStep.act action block).perform before = (after, some fault)) :
    World.act action block before.world before.log =
      ⟨after.world, after.log, .error fault.kind⟩ ∧ fault.log = after.log := by
  simp only [perform] at failed
  cases left : World.act action block before.world before.log with
  | mk world log outcome =>
      rw [left] at failed
      cases outcome with
      | ok solved => simp at failed
      | error kind =>
          obtain ⟨rfl, found⟩ := Prod.mk.inj failed
          cases found
          exact ⟨rfl, rfl⟩

theorem flatRun_of_le {limit taken : Nat} {steps : List SmallStep} {scene : Scene}
    (reached : limit ≤ taken) (left : steps ≠ []) :
    flatRun limit steps taken scene =
      ⟨scene.world, scene.log, .stepLimitExceeded, none, taken⟩ := by
  cases steps with
  | nil => contradiction
  | cons step rest => simp [flatRun, reached]

theorem flatRun_of_performed {limit taken : Nat} {step : SmallStep} {scene after : Scene}
    (below : taken < limit) (performed : step.perform scene = (after, none))
    (rest : List SmallStep) :
    flatRun limit (step :: rest) taken scene = flatRun limit rest (taken + 1) after := by
  simp [flatRun, Nat.not_le.2 below, performed]

theorem flatRun_of_failed {limit taken : Nat} {step : SmallStep} {scene after : Scene}
    {fault : Fault} (below : taken < limit) (failed : step.perform scene = (after, some fault))
    (rest : List SmallStep) :
    flatRun limit (step :: rest) taken scene =
      ⟨after.world, after.log, .fault fault.kind, some fault, taken + 1⟩ := by
  simp [flatRun, Nat.not_le.2 below, failed]

inductive Executes (limit : Nat) : List SmallStep → Nat → Scene → Attempt → Prop
  | ends {taken scene} :
      Executes limit [] taken scene
        ⟨scene.world, scene.log, if scene.solved then .success else .incomplete, none, taken⟩
  | cut {step rest taken scene} (reached : limit ≤ taken) :
      Executes limit (step :: rest) taken scene
        ⟨scene.world, scene.log, .stepLimitExceeded, none, taken⟩
  | fails {step rest taken scene after fault} (below : taken < limit)
      (failed : SmallStep.perform step scene = (after, some fault)) :
      Executes limit (step :: rest) taken scene
        ⟨after.world, after.log, .fault fault.kind, some fault, taken + 1⟩
  | goesOn {step rest taken scene after attempt} (below : taken < limit)
      (performed : SmallStep.perform step scene = (after, none))
      (later : Executes limit rest (taken + 1) after attempt) :
      Executes limit (step :: rest) taken scene attempt

theorem executes_flatRun (limit : Nat) (steps : List SmallStep) (taken : Nat) (scene : Scene) :
    Executes limit steps taken scene (flatRun limit steps taken scene) := by
  induction steps generalizing taken scene with
  | nil => exact .ends
  | cons step rest ih =>
      by_cases reached : limit ≤ taken
      · rw [flatRun_of_le reached (by simp)]
        exact .cut reached
      have below : taken < limit := by omega
      rcases performed : step.perform scene with ⟨after, failure⟩
      cases failure with
      | none =>
          rw [flatRun_of_performed below performed]
          exact .goesOn below performed (ih (taken + 1) after)
      | some fault =>
          rw [flatRun_of_failed below performed]
          exact .fails below performed

def Faultless (scene : Scene) : List SmallStep → Prop
  | [] => True
  | step :: rest => (step.perform scene).2 = none ∧ Faultless (step.perform scene).1 rest

def throughFault (scene : Scene) : List SmallStep → List SmallStep
  | [] => []
  | step :: rest =>
    match step.perform scene with
    | (_, some _) => [step]
    | (after, none) => step :: throughFault after rest

theorem throughFault_length_le (scene : Scene) (steps : List SmallStep) :
    (throughFault scene steps).length ≤ steps.length := by
  induction steps generalizing scene with
  | nil => exact Nat.le_refl _
  | cons step rest ih =>
      simp only [throughFault]
      split
      · simp
      · rename_i after _
        simpa using ih after

theorem flatRun_steps (limit : Nat) (steps : List SmallStep) (taken : Nat) (scene : Scene) :
    (flatRun limit steps taken scene).steps =
      taken + (throughFault scene (steps.take (limit - taken))).length := by
  induction steps generalizing taken scene with
  | nil => simp [flatRun, throughFault]
  | cons step rest ih =>
      simp only [flatRun]
      by_cases reached : limit ≤ taken
      · have none : limit - taken = 0 := by omega
        simp [reached, none, throughFault]
      · obtain ⟨left, below⟩ : ∃ left, limit - taken = left + 1 := ⟨limit - taken - 1, by omega⟩
        have after : limit - (taken + 1) = left := by omega
        simp only [reached, ↓reduceIte, below, List.take_succ_cons, throughFault]
        split
        · simp
        · rw [ih, after, List.length_cons]
          omega

theorem flatRun_stepLimitExceeded_iff (limit : Nat) (steps : List SmallStep) (taken : Nat)
    (scene : Scene) :
    (flatRun limit steps taken scene).verdict = .stepLimitExceeded ↔
      Faultless scene (steps.take (limit - taken)) ∧ limit - taken < steps.length := by
  induction steps generalizing taken scene with
  | nil =>
      simp only [flatRun, List.length_nil, Nat.not_lt_zero, and_false, iff_false]
      split <;> simp
  | cons step rest ih =>
      simp only [flatRun]
      by_cases reached : limit ≤ taken
      · have none : limit - taken = 0 := by omega
        simp [reached, none, Faultless]
      · obtain ⟨left, below⟩ : ∃ left, limit - taken = left + 1 := ⟨limit - taken - 1, by omega⟩
        have after : limit - (taken + 1) = left := by omega
        simp only [reached, ↓reduceIte, below, List.take_succ_cons, Faultless, List.length_cons,
          Nat.add_lt_add_iff_right]
        split
        · rename_i failed
          simp [failed]
        · rename_i performed
          rw [ih, after, performed]
          simp

def Run.scene (run : Run) : Scene := ⟨run.world, run.log, run.solved⟩

def Ran.goOn (limit : Nat) (rest : List SmallStep) : Ran → Attempt
  | .on run => flatRun limit rest run.steps run.scene
  | .stopped run halt => .ofRan (.stopped run halt)

theorem flatRun_act (limit : Nat) (action : Action) (block : String) (rest : List SmallStep)
    (run : Run) :
    flatRun limit (.act action block :: rest) run.steps run.scene =
      ((run.tick limit).andThen (Run.act action block)).goOn limit rest := by
  simp only [flatRun, Run.tick]
  by_cases reached : limit ≤ run.steps
  · simp [reached, Ran.andThen, Ran.goOn, Attempt.ofRan, Ran.run, Run.scene]
  · simp only [reached, ↓reduceIte, Ran.andThen, Run.act, SmallStep.perform, Run.scene]
    cases World.act action block run.world run.log with
    | mk world log outcome =>
        cases outcome with
        | ok solved => rfl
        | error kind => rfl

theorem flatRun_rounds (limit : Nat) (steps : List SmallStep) (body : Run → Ran)
    (same : ∀ run rest, flatRun limit (steps ++ rest) run.steps run.scene =
      (body run).goOn limit rest)
    (count : Nat) (run : Run) (rest : List SmallStep) :
    flatRun limit ((List.replicate count (.round :: steps)).flatten ++ rest) run.steps run.scene =
      (run.rounds limit body count).goOn limit rest := by
  induction count generalizing run with
  | zero => rfl
  | succ count ih =>
      simp only [List.replicate_succ, List.flatten_cons, List.cons_append, List.append_assoc,
        flatRun, Run.rounds, Run.tick]
      by_cases reached : limit ≤ run.steps
      · simp [reached, Ran.goOn, Attempt.ofRan, Ran.run, Run.scene]
      · simp only [reached, ↓reduceIte, SmallStep.perform]
        have round := same { run with steps := run.steps + 1 }
          ((List.replicate count (.round :: steps)).flatten ++ rest)
        refine round.trans ?_
        cases body { run with steps := run.steps + 1 } with
        | on after => exact ih after
        | stopped after halt => rfl

mutual

theorem Instruction.flatRun_unroll (limit : Nat) (instruction : Instruction) (run : Run)
    (rest : List SmallStep) :
    flatRun limit (instruction.unroll ++ rest) run.steps run.scene =
      (instruction.run limit run).goOn limit rest := by
  cases instruction with
  | act action block => exact flatRun_act limit action block rest run
  | loop count body block =>
      simp only [Instruction.unroll, Instruction.run]
      exact flatRun_rounds limit _ _ (fun run rest => Script.flatRun_unroll limit body run rest)
        count.toNat run rest

theorem Script.flatRun_unroll (limit : Nat) (script : List Instruction) (run : Run)
    (rest : List SmallStep) :
    flatRun limit (Script.unroll script ++ rest) run.steps run.scene =
      (Script.run limit script run).goOn limit rest := by
  cases script with
  | nil => rfl
  | cons instruction others =>
      simp only [Script.unroll, Script.run, List.append_assoc]
      rw [Instruction.flatRun_unroll limit instruction run]
      cases instruction.run limit run with
      | on after => exact Script.flatRun_unroll limit others after rest
      | stopped after halt => rfl

end

theorem Ran.goOn_nil (limit : Nat) (ran : Ran) : ran.goOn limit [] = .ofRan ran := by
  cases ran <;> rfl

theorem flatRun_unroll_eq (limit : Nat) (script : Script) (world : World) :
    flatRun limit (Script.unroll script) 0 (.start world) = .ofScript limit script world := by
  have unrolled := Script.flatRun_unroll limit script (.start world) []
  rw [List.append_nil, Ran.goOn_nil] at unrolled
  exact unrolled

/-- A run equals the flat execution of the unrolled program. Its steps are the small steps that it
took, a failing one included; it stops at the ceiling exactly when no step below the ceiling fails
and more steps are left. -/
theorem Attempt.ofScript_eq_flatRun (limit : Nat) (script : Script) (world : World) :
    Attempt.ofScript limit script world = flatRun limit (Script.unroll script) 0 (.start world) ∧
      (Attempt.ofScript limit script world).steps =
        (throughFault (.start world) ((Script.unroll script).take limit)).length ∧
      (Attempt.ofScript limit script world).steps ≤ limit ∧
      ((Attempt.ofScript limit script world).verdict = .stepLimitExceeded ↔
        Faultless (.start world) ((Script.unroll script).take limit) ∧
          limit < (Script.unroll script).length) := by
  have same : Attempt.ofScript limit script world =
      flatRun limit (Script.unroll script) 0 (.start world) := by
    have unrolled := Script.flatRun_unroll limit script (.start world) []
    rw [List.append_nil] at unrolled
    refine Eq.trans ?_ unrolled.symm
    simp only [Attempt.ofScript]
    cases Script.run limit script (.start world) with
    | on after => rfl
    | stopped after halt => rfl
  have steps := flatRun_steps limit (Script.unroll script) 0 (.start world)
  rw [Nat.zero_add, Nat.sub_zero] at steps
  refine ⟨same, same ▸ steps, ?_, ?_⟩
  · have bound := throughFault_length_le (.start world) ((Script.unroll script).take limit)
    rw [List.length_take] at bound
    rw [same, steps]
    omega
  · rw [same]
    exact flatRun_stepLimitExceeded_iff limit (Script.unroll script) 0 (.start world)

end RobotPuzzle
