import RobotPuzzle.Workspace.Basic

/-!
Walks over the workspace: the tree below a block, the cascade of a deletion, the way up to an entry
block. Slots and parents may form cycles or share blocks, so every walk keeps the ids it has seen.
-/

namespace RobotPuzzle.Workspace

def slotsOutside (workspace : Workspace) (seen : List String) : Nat :=
  weightOutside (fun block => block.held.length) seen workspace.blocks

theorem slotsOutside_cons_add_le {workspace : Workspace} {id : String} {block : Block}
    {seen : List String} (found : workspace.find? id = some block) (fresh : id ∉ seen) :
    workspace.slotsOutside (id :: seen) + block.held.length ≤ workspace.slotsOutside seen :=
  weightOutside_cons_add_le (fun block => block.held.length) found fresh

/-- The kept blocks reached from the ids on a stack, each once, every block before those in its
slots. A block that is not kept is passed over with all that hangs only on it. -/
def walk (workspace : Workspace) (keep : Block → Bool) (seen : List String) :
    List String → List String
  | [] => []
  | id :: stack =>
    if _fresh : id ∈ seen then workspace.walk keep seen stack
    else
      match _found : workspace.find? id with
      | none => workspace.walk keep seen stack
      | some block =>
        if keep block then id :: workspace.walk keep (id :: seen) (block.held ++ stack)
        else workspace.walk keep seen stack
termination_by stack => workspace.slotsOutside seen + stack.length
decreasing_by
  · simp
  · simp
  · have := slotsOutside_cons_add_le _found _fresh
    simp only [List.length_append, List.length_cons]
    omega
  · simp

def descendants (workspace : Workspace) (id : String) : List String :=
  workspace.walk (fun block => !block.deleted) [] [id]

/-- The ids that a deletion of a block marks: everything below it, through deleted blocks too. -/
def cascade (workspace : Workspace) (id : String) : List String :=
  workspace.walk (fun _ => true) [] [id]

def delete (workspace : Workspace) (id : String) : Workspace :=
  let marked := workspace.cascade id
  workspace.map fun block => if block.id ∈ marked then { block with deleted := true } else block

def deletionCount (workspace : Workspace) (id : String) : Nat :=
  ((workspace.cascade id).filter fun marked => (workspace.live? marked).isSome).length

def entries (workspace : Workspace) : List Block :=
  workspace.blocks.filter fun block => !block.deleted && block.kind == .start

def loose (workspace : Workspace) : List Block :=
  workspace.blocks.filter fun block => !block.deleted && block.top && block.kind != .start

/-- The number of blocks in the trees below the entry blocks, taken one after the other. -/
def usedCount (workspace : Workspace) : Nat :=
  (workspace.entries.flatMap fun entry => workspace.descendants entry.id).length

def climbs (workspace : Workspace) (seen : List String) (id : String) : Bool :=
  match _found : workspace.find? id with
  | none => false
  | some block =>
    if block.deleted then false
    else if block.kind = .start then true
    else if _fresh : id ∈ seen then false
    else
      match block.parent with
      | none => false
      | some parent => workspace.climbs (id :: seen) parent
termination_by workspace.unseen seen
decreasing_by exact unseen_cons_lt _found _fresh

def isConnected (workspace : Workspace) (id : String) : Bool := workspace.climbs [] id

def slotOf? (workspace : Workspace) (parent child : String) : Option Slot :=
  (workspace.find? parent).bind fun block =>
    (block.children.entries.find? fun entry => entry.2 == child).map (·.1)

end RobotPuzzle.Workspace
