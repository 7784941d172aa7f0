import RobotPuzzle.Proofs.Session.Attempts
import RobotPuzzle.Proofs.Workspace.Reach

/-!
The record keeps a count of the used blocks, taken anew after some calls only. The others change no
slot of a block, no type and no mark of deletion, so the count is always that of the workspace.
-/

namespace RobotPuzzle

namespace Workspace

variable {workspace : Workspace} {id name : String} {value : Option String}

theorem descendants_setField (root : String) :
    (workspace.setField id name value).descendants root = workspace.descendants root := by
  refine walk_congr (fun other => ?_) [] [root]
  rw [find?_setField, Option.filter_map, Option.map_map]
  rfl

theorem map_id_entries_setField : (workspace.setField id name value).entries.map (·.id) =
    workspace.entries.map (·.id) := by
  simp only [entries, setField, update, map, List.filter_map, List.map_map]
  congr 1
  refine List.filter_congr fun block _ => ?_
  simp only [Function.comp_apply]
  split <;> rfl

theorem usedCount_setField :
    (workspace.setField id name value).usedCount = workspace.usedCount := by
  have byId : ∀ workspace : Workspace, workspace.usedCount =
      ((workspace.entries.map (·.id)).flatMap workspace.descendants).length := by
    intro workspace
    rw [usedCount, List.flatMap_map]
  simp only [byId, map_id_entries_setField, List.length_flatMap, descendants_setField]

end Workspace

namespace Recorder

def Current (recorder : Recorder) : Prop :=
  recorder.record.usedBlocks = recorder.workspace.usedCount

variable {recorder : Recorder}

theorem current_withWorkspace (recorder : Recorder) (workspace : Workspace) :
    (recorder.withWorkspace workspace).Current := rfl

theorem Current.log (current : recorder.Current) (interaction : Interaction) :
    (recorder.log interaction).Current := current

theorem Current.setField (current : recorder.Current) (id name : String) (value : Option String) :
    Current { recorder with workspace := recorder.workspace.setField id name value } :=
  Eq.trans current Workspace.usedCount_setField.symm

theorem current_create (recorder : Recorder) (block : BlockSpec) (place : Option (String × Slot))
    (time : Instant) : (recorder.create block place time).Current := by
  have inserted := recorder.current_withWorkspace (recorder.workspace.insert block place)
  simp only [create]
  split
  · exact inserted
  · exact inserted.log _

theorem Current.closeDrag (current : recorder.Current) (id : String) (finish : SurfacePoint)
    (parent : Option String) (slot : Option Slot) (time : Instant) :
    (recorder.closeDrag id finish parent slot time).Current := by
  simp only [Recorder.closeDrag]
  split
  · exact current
  · split
    · exact current
    · have closed : Current { recorder with pending := recorder.pending.erase id } := current
      exact closed.log _

theorem Current.handle (current : recorder.Current) (event : Event) (time : Instant) :
    (recorder.handle event time).Current := by
  have begun : (recorder.beginExecution time).Current := current
  cases event with
  | create block parent slot source =>
      cases source with
      | toolbox => exact current
      | workspace => exact current_create _ _ _ _
  | fieldChange block type name oldValue newValue source =>
      cases source with
      | toolbox => exact begun.log _
      | workspace => exact (begun.setField block name newValue).log _
  | drag block isStart position groupSize parent slot source =>
      cases isStart with
      | true => exact begun
      | false => exact begun.closeDrag _ _ _ _ _
  | delete block type position groupSize => exact current_withWorkspace _ _
  | move block oldParent oldSlot newParent newSlot source =>
      cases source with
      | toolbox => exact current
      | workspace => exact current_withWorkspace _ _
  | loadFinished => exact current

theorem Current.perform (current : recorder.Current) (call : Call) :
    (recorder.perform call).Current := by
  cases call with
  | seed program => exact current_withWorkspace _ _
  | handle event time => exact current.handle event time
  | beginPlanning | beginExecution | finish | book => exact current

theorem Current.performAll (current : recorder.Current) (calls : List Call) :
    (recorder.performAll calls).Current := by
  induction calls generalizing recorder with
  | nil => exact current
  | cons call rest ih => exact ih (current.perform call)

/-- After any calls on a new recorder the number of used blocks in its record is the number that a
count of the workspace gives. -/
theorem usedBlocks_never_stale (idealBlocks : UInt32) (calls : List Call) :
    ((start idealBlocks).performAll calls).record.usedBlocks =
      ((start idealBlocks).performAll calls).workspace.usedCount := by
  have fresh : (start idealBlocks).Current := rfl
  exact fresh.performAll calls

end Recorder

end RobotPuzzle
