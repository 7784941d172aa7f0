import RobotPuzzle.Proofs.Script.Unrolled
import RobotPuzzle.Proofs.World.Faults

/-!
The log of a run beside the actions that the run executed: one entry for every action that was done,
in order, and at the end what the fault left that stopped the run. A wall and a fall show nowhere
else.
-/

namespace RobotPuzzle

def SmallStep.call? : SmallStep → Option (Action × String)
  | .round => none
  | .act action block => some (action, block)

def executedFrom (scene : Scene) (steps : List SmallStep) : List (Action × String) :=
  (throughFault scene steps).filterMap SmallStep.call?

def Attempt.executed (limit : Nat) (script : Script) (world : World) : List (Action × String) :=
  executedFrom (.start world) ((Script.unroll script).take limit)

/-- What a verdict has at the end of the log, behind the entries of the deeds that were done. -/
inductive Verdict.Closes : Verdict → List LogEntry → Prop
  | plain {verdict}
      (unmarked : verdict ∉ [.fault .outOfBounds, .fault .wall, .fault .pit]) : Closes verdict []
  | wall {move block} : Closes (.fault .wall) [⟨.blocked move, block⟩]
  | fall {kind move block} (fallen : kind = .outOfBounds ∨ kind = .pit) :
      Closes (.fault kind) [⟨.move move, block⟩, ⟨.fallPit, block⟩]

/-- The entries that executed actions leave, by the verdict of the run. -/
inductive Chronicle : Verdict → List (Action × String) → List LogEntry → Prop
  | ends {verdict} (noFault : verdict.faultKind? = none) : Chronicle verdict [] []
  | does {verdict action block calls deed entries} (done : deed.isDone = true)
      (tells : deed.action? = some action) (rest : Chronicle verdict calls entries) :
      Chronicle verdict ((action, block) :: calls) (⟨deed, block⟩ :: entries)
  | fails {world action kind block} (fails : World.Fails world action kind) :
      Chronicle (.fault kind) [(action, block)]
        ((action.marks kind).map fun deed => ⟨deed, block⟩)

theorem World.Fails.closes {world : World} {action : Action} {kind : FaultKind}
    (fails : world.Fails action kind) (block : String) :
    Verdict.Closes (.fault kind) ((action.marks kind).map fun deed => ⟨deed, block⟩) := by
  cases fails with
  | outside => exact .fall (.inl rfl)
  | wall => exact .wall
  | pit => exact .fall (.inr rfl)
  | refused refused => cases refused <;> exact .plain (by decide)

theorem World.Fails.told_first {world : World} {action told : Action} {kind : FaultKind}
    {deed : Deed} {index : Nat} (fails : world.Fails action kind)
    (found : (action.marks kind)[index]? = some deed) (tells : deed.action? = some told) :
    index = 0 ∧ told = action := by
  cases fails with
  | outside | pit =>
      rcases index with _ | _ | index
      · cases found
        cases tells
        exact ⟨rfl, rfl⟩
      · cases found
        cases tells
      · cases found
  | wall =>
      cases index with
      | zero =>
          cases found
          cases tells
          exact ⟨rfl, rfl⟩
      | succ index => cases found
  | refused refused => cases refused <;> cases found

namespace Chronicle

variable {verdict : Verdict} {calls : List (Action × String)} {entries : List LogEntry}

theorem closes (chronicle : Chronicle verdict calls entries) :
    ∃ done ending, entries = done ++ ending ∧ (∀ entry ∈ done, entry.deed.isDone = true) ∧
      verdict.Closes ending := by
  induction chronicle with
  | @ends verdict noFault =>
      refine ⟨[], [], rfl, by simp, .plain ?_⟩
      intro marked
      simp only [List.mem_cons, List.not_mem_nil, or_false] at marked
      rcases marked with rfl | rfl | rfl <;> contradiction
  | @does verdict action block calls deed entries isDone tells rest ih =>
      obtain ⟨done, ending, rfl, allDone, closed⟩ := ih
      refine ⟨⟨deed, block⟩ :: done, ending, rfl, ?_, closed⟩
      intro entry member
      rcases List.mem_cons.1 member with rfl | later
      · exact isDone
      · exact allDone entry later
  | fails fails => exact ⟨[], _, rfl, by simp, fails.closes _⟩

theorem told (chronicle : Chronicle verdict calls entries) {index : Nat} {entry : LogEntry}
    {action : Action} (found : entries[index]? = some entry)
    (tells : entry.deed.action? = some action) : calls[index]? = some (action, entry.block) := by
  induction chronicle generalizing index with
  | ends => simp at found
  | does isDone tellsFirst rest ih =>
      cases index with
      | zero =>
          rw [List.getElem?_cons_zero] at found ⊢
          cases found
          rw [Option.some.inj (tells.symm.trans tellsFirst)]
      | succ index =>
          rw [List.getElem?_cons_succ] at found ⊢
          exact ih found
  | fails fails =>
      rw [List.getElem?_map, Option.map_eq_some_iff] at found
      obtain ⟨deed, foundDeed, rfl⟩ := found
      obtain ⟨rfl, rfl⟩ := fails.told_first foundDeed tells
      rfl

theorem complete (chronicle : Chronicle verdict calls entries) {index : Nat} {action : Action}
    {block : String} (called : calls[index]? = some (action, block)) :
    (∃ deed, entries[index]? = some ⟨deed, block⟩ ∧ deed.action? = some action) ∨
      index + 1 = calls.length ∧
        ∃ kind ∉ [FaultKind.outOfBounds, .wall, .pit], verdict = .fault kind := by
  induction chronicle generalizing index with
  | ends => simp at called
  | @does verdict done doneBlock calls deed entries isDone tells rest ih =>
      cases index with
      | zero =>
          cases called
          exact .inl ⟨deed, rfl, tells⟩
      | succ index =>
          rw [List.getElem?_cons_succ] at called ⊢
          rcases ih called with entered | ⟨last, refused⟩
          · exact .inl entered
          · exact .inr ⟨congrArg (· + 1) last, refused⟩
  | @fails world failed kind failedBlock fails =>
      cases index with
      | succ index => cases called
      | zero =>
          cases called
          cases fails with
          | outside | wall | pit => exact .inl ⟨_, rfl, rfl⟩
          | refused refused =>
              refine .inr ⟨rfl, kind, ?_, rfl⟩
              cases refused <;> decide

theorem fallen (chronicle : Chronicle verdict calls entries) {entry : LogEntry}
    (member : entry ∈ entries) (fell : entry.deed = .fallPit) :
    ∃ action, calls.getLast? = some (action, entry.block) := by
  induction chronicle with
  | ends => simp at member
  | @does verdict action block calls deed entries isDone tells rest ih =>
      rcases List.mem_cons.1 member with rfl | later
      · subst fell
        contradiction
      · obtain ⟨last, final⟩ := ih later
        exact ⟨last, by simp [List.getLast?_cons, final]⟩
  | fails fails =>
      simp only [List.mem_map] at member
      obtain ⟨deed, -, rfl⟩ := member
      exact ⟨_, rfl⟩

theorem length_le (chronicle : Chronicle verdict calls entries) :
    entries.length ≤ calls.length + 1 := by
  induction chronicle with
  | ends => simp
  | does isDone tells rest ih =>
      simp only [List.length_cons]
      omega
  | @fails world action kind block fails =>
      rw [List.length_map, List.length_singleton]
      cases fails with
      | outside | wall | pit => simp [Action.marks]
      | refused refused => cases refused <;> simp [Action.marks]

end Chronicle

theorem executedFrom_of_performed {step : SmallStep} {scene after : Scene}
    (performed : step.perform scene = (after, none)) (rest : List SmallStep) :
    executedFrom scene (step :: rest) = step.call?.toList ++ executedFrom after rest := by
  simp only [executedFrom, throughFault, performed, List.filterMap_cons]
  cases step.call? <;> rfl

theorem executedFrom_of_failed {step : SmallStep} {scene after : Scene} {fault : Fault}
    (failed : step.perform scene = (after, some fault)) (rest : List SmallStep) :
    executedFrom scene (step :: rest) = step.call?.toList := by
  simp only [executedFrom, throughFault, failed, List.filterMap_cons, List.filterMap_nil]
  cases step.call? <;> rfl

theorem executedFrom_length_le (scene : Scene) (steps : List SmallStep) :
    (executedFrom scene steps).length ≤ (throughFault scene steps).length :=
  List.length_filterMap_le _ _

theorem take_due {limit taken : Nat} (below : taken < limit) (step : SmallStep)
    (rest : List SmallStep) :
    (step :: rest).take (limit - taken) = step :: rest.take (limit - (taken + 1)) := by
  have due : limit - taken = limit - (taken + 1) + 1 := by omega
  rw [due, List.take_succ_cons]

theorem perform_act_entry {action : Action} {block : String} {scene after : Scene}
    (performed : (SmallStep.act action block).perform scene = (after, none)) :
    ∃ deed, deed.isDone = true ∧ deed.action? = some action ∧
      after.log.toList = scene.log.toList ++ [⟨deed, block⟩] := by
  obtain ⟨entries, logged, acts⟩ := World.act_acts action block scene.world scene.log
  rw [SmallStep.perform_act_done performed] at logged acts
  obtain ⟨deed, isDone, tells, rfl⟩ := acts.done
  exact ⟨deed, isDone, tells, logged⟩

theorem perform_act_marks {action : Action} {block : String} {scene after : Scene} {fault : Fault}
    (failed : (SmallStep.act action block).perform scene = (after, some fault)) :
    scene.world.Fails action fault.kind ∧ after.log.toList =
      scene.log.toList ++ (action.marks fault.kind).map fun deed => ⟨deed, block⟩ := by
  obtain ⟨entries, logged, acts⟩ := World.act_acts action block scene.world scene.log
  rw [(SmallStep.perform_act_failed failed).1] at logged acts
  obtain ⟨fails, -, rfl⟩ := acts.fails
  exact ⟨fails, logged⟩

theorem Executes.chronicle {limit taken : Nat} {steps : List SmallStep} {scene : Scene}
    {attempt : Attempt} (executes : Executes limit steps taken scene attempt) :
    ∃ entries, attempt.log.toList = scene.log.toList ++ entries ∧
      Chronicle attempt.verdict (executedFrom scene (steps.take (limit - taken))) entries := by
  induction executes with
  | @ends taken scene =>
      rw [List.take_nil]
      refine ⟨[], by simp, .ends ?_⟩
      simp only
      split <;> rfl
  | cut reached =>
      rw [Nat.sub_eq_zero_of_le reached]
      exact ⟨[], by simp, .ends rfl⟩
  | @fails step rest taken scene after fault below failed =>
      rw [take_due below, executedFrom_of_failed failed]
      cases step with
      | round => cases failed
      | act action block =>
          obtain ⟨fails, marked⟩ := perform_act_marks failed
          exact ⟨_, marked, .fails fails⟩
  | @goesOn step rest taken scene after attempt below performed later ih =>
      obtain ⟨entries, logged, chronicle⟩ := ih
      rw [take_due below, executedFrom_of_performed performed]
      cases step with
      | round =>
          obtain rfl : scene = after := (Prod.mk.inj performed).1
          exact ⟨entries, logged, chronicle⟩
      | act action block =>
          obtain ⟨deed, isDone, tells, entered⟩ := perform_act_entry performed
          refine ⟨⟨deed, block⟩ :: entries, ?_, .does isDone tells chronicle⟩
          rw [logged, entered, List.append_assoc, List.singleton_append]

theorem Executes.fault_eq {limit taken : Nat} {steps : List SmallStep} {scene : Scene}
    {attempt : Attempt} (executes : Executes limit steps taken scene attempt) :
    attempt.fault = attempt.verdict.faultKind?.map fun kind => ⟨kind, attempt.log⟩ := by
  induction executes with
  | @ends taken scene =>
      simp only
      split <;> rfl
  | cut => rfl
  | @fails step rest taken scene after fault below failed =>
      cases step with
      | round => cases failed
      | act action block =>
          rw [← (SmallStep.perform_act_failed failed).2]
          rfl
  | goesOn below performed later ih => exact ih

structure Attempt.WellLogged (attempt : Attempt) (executed : List (Action × String)) : Prop where
  fault : attempt.fault = attempt.verdict.faultKind?.map fun kind => ⟨kind, attempt.log⟩
  closes : ∃ done ending, attempt.log.toList = done ++ ending ∧
    (∀ entry ∈ done, entry.deed.isDone = true) ∧ attempt.verdict.Closes ending
  told : ∀ (index : Nat) (entry : LogEntry) (action : Action),
    attempt.log.toList[index]? = some entry → entry.deed.action? = some action →
      executed[index]? = some (action, entry.block)
  complete : ∀ (index : Nat) (action : Action) (block : String),
    executed[index]? = some (action, block) →
      (∃ deed, attempt.log.toList[index]? = some ⟨deed, block⟩ ∧ deed.action? = some action) ∨
        index + 1 = executed.length ∧
          ∃ kind ∉ [FaultKind.outOfBounds, .wall, .pit], attempt.verdict = .fault kind
  fallen : ∀ entry ∈ attempt.log.toList, entry.deed = .fallPit →
    ∃ action, executed.getLast? = some (action, entry.block)
  size : attempt.log.size ≤ attempt.steps + 1

/-- Every run reports a fault exactly with a fault's verdict, and with its whole log. The log has
the deeds that were done, each on behalf of the block whose turn it was, and behind them a blocked
move, a fall or nothing, as the verdict has it. Only a refused pick or deposit, which ends the run,
is not in it; it is at most one entry longer than the run. -/
theorem Attempt.ofScript_wellLogged (limit : Nat) (script : Script) (world : World) :
    (ofScript limit script world).WellLogged (executed limit script world) := by
  have steps := flatRun_steps limit (Script.unroll script) 0 (.start world)
  have executes := executes_flatRun limit (Script.unroll script) 0 (.start world)
  rw [flatRun_unroll_eq] at steps executes
  rw [Nat.zero_add] at steps
  have fault := executes.fault_eq
  obtain ⟨entries, logged, chronicle⟩ := executes.chronicle
  rw [show (Scene.start world).log.toList = [] from rfl, List.nil_append] at logged
  refine ⟨fault, ?_, ?_, ?_, ?_, ?_⟩
  · rw [logged]
    exact chronicle.closes
  · rw [logged]
    intro index entry action found tells
    exact chronicle.told found tells
  · rw [logged]
    intro index action block called
    exact chronicle.complete called
  · rw [logged]
    intro entry member fell
    exact chronicle.fallen member fell
  · have bound := executedFrom_length_le (.start world) ((Script.unroll script).take (limit - 0))
    have longer := chronicle.length_le
    rw [← Array.length_toList, logged]
    omega

end RobotPuzzle
