import RobotPuzzle.Proofs.Workspace.Edits
import RobotPuzzle.Proofs.Workspace.Order

/-!
What holds of a workspace after any calls at all, trees that name an id twice or hang below
themselves among them: links lead to known blocks, the top is where no parent is, and the blocks
stand in the order in which the calls first brought their ids.
-/

namespace RobotPuzzle

namespace Workspace

inductive Call
  | insert (spec : BlockSpec) (place : Place)
  | reparent (id : String) (source target : Place)
  | setField (id name : String) (value : Option String)
  | delete (id : String)

def Call.ids : Call → List String
  | .insert spec _ => spec.ids
  | .reparent .. | .setField .. | .delete _ => []

def perform (workspace : Workspace) : Call → Workspace
  | .insert spec place => workspace.insert spec place
  | .reparent id source target => workspace.reparent id source target
  | .setField id name value => workspace.setField id name value
  | .delete id => workspace.delete id

def performAll (workspace : Workspace) (calls : List Call) : Workspace :=
  calls.foldl perform workspace

variable {workspace : Workspace}

theorem performAll_append (workspace : Workspace) (calls more : List Call) :
    workspace.performAll (calls ++ more) = (workspace.performAll calls).performAll more :=
  List.foldl_append

theorem Edited.perform (edited : Edited workspace) (call : Call) :
    Edited (workspace.perform call) := by
  cases call with
  | insert spec place => exact edited.insert spec place
  | reparent id source target => exact edited.reparent id source target
  | setField id name value => exact edited.setField id name value
  | delete id => exact edited.delete id

theorem Edited.performAll (edited : Edited workspace) (calls : List Call) :
    Edited (workspace.performAll calls) := by
  induction calls generalizing workspace with
  | nil => exact edited
  | cons call rest ih => exact ih (edited.perform call)

/-! The order of the blocks. -/

theorem ids_perform (workspace : Workspace) (call : Call) :
    (workspace.perform call).ids = (workspace.ids ++ call.ids).eraseDups := by
  cases call with
  | insert spec place => exact workspace.ids_insert_eq spec place
  | reparent | setField | delete => simp [perform, Call.ids, eraseDups_ids]

theorem ids_performAll (workspace : Workspace) (calls : List Call) :
    (workspace.performAll calls).ids = (workspace.ids ++ calls.flatMap Call.ids).eraseDups := by
  induction calls generalizing workspace with
  | nil => simp [performAll, eraseDups_ids]
  | cons call rest ih =>
      have later := ih (workspace.perform call)
      rw [ids_perform, eraseDups_eraseDups_append, List.append_assoc] at later
      exact later

/-- Each block is kept under its own id and stands once in the order, its links lead to known
blocks, and it is at the top if and only if it has no parent. -/
structure WellFormed (workspace : Workspace) : Prop where
  own_id : ∀ id block, workspace.find? id = some block → block.id = id
  listed_once : ∀ id, workspace.ids.count id = if workspace.contains id then 1 else 0
  parent_known : ∀ id block parent, workspace.find? id = some block →
    block.parent = some parent → workspace.contains parent = true
  child_known : ∀ id block slot child, workspace.find? id = some block →
    block.children.get? slot = some child → workspace.contains child = true
  top_iff : ∀ id block, workspace.find? id = some block →
    (block.top = true ↔ block.parent = none)

theorem Edited.wellFormed (edited : Edited workspace) : workspace.WellFormed where
  own_id _ _ found := id_of_find? found
  listed_once id := by
    have distinct : workspace.ids.Nodup := workspace.distinct
    rw [distinct.count]
    exact if_congr mem_ids_iff rfl rfl
  parent_known id block parent found named := edited.parentsKnown id parent ⟨block, found, named⟩
  child_known id block slot child found held := edited.tidy.held_known ⟨block, found, held⟩
  top_iff id block found := by
    rw [edited.tidy.top found, Option.isNone_iff_eq_none]

/-- After any calls on the empty workspace its structure is whole, and its blocks stand in the order
in which the calls first named their ids. Further calls only add ids behind them. -/
theorem structure_survives_calls (calls : List Call) :
    (empty.performAll calls).WellFormed ∧
      (empty.performAll calls).ids = (calls.flatMap Call.ids).eraseDups ∧
      ∀ more, (empty.performAll calls).ids <+: (empty.performAll (calls ++ more)).ids := by
  refine ⟨(Edited.empty.performAll calls).wellFormed, ids_performAll empty calls, ?_⟩
  intro more
  rw [performAll_append, ids_performAll (empty.performAll calls), List.eraseDups_append,
    eraseDups_ids]
  exact List.prefix_append _ _

end Workspace

end RobotPuzzle
