import RobotPuzzle.Proofs.Workspace.Loops

/-!
The live tree below a block by recursion: first the block, then what each of its slots adds to the
blocks visited so far. The search that keeps its ids on a stack lists the same blocks in the same
order, also where slots share blocks, run in circles or name no live block.
-/

namespace RobotPuzzle.Workspace

open Relation

variable {workspace : Workspace}

mutual

/-- What the block `id` adds to the blocks `seen` before it: nothing if it is one of them or is not
live, else itself and what its slots add after it. -/
def preorder (workspace : Workspace) (seen : List String) (id : String) : List String :=
  if _fresh : id ∈ seen then []
  else
    match _found : workspace.live? id with
    | none => []
    | some block => id :: workspace.preorderAll (id :: seen) block.held
termination_by (workspace.unseen seen, 0)
decreasing_by exact .left _ _ (unseen_cons_lt (live?_eq_some_iff.1 _found).1 _fresh)

def preorderAll (workspace : Workspace) (seen : List String) : List String → List String
  | [] => []
  | id :: rest =>
    let own := workspace.preorder seen id
    own ++ workspace.preorderAll (own.reverse ++ seen) rest
termination_by ids => (workspace.unseen seen, ids.length)
decreasing_by
  · exact .right _ (Nat.succ_pos _)
  · exact .right' _ (unseen_le_of_subset (List.subset_append_right _ _)) (Nat.lt_succ_self _)

end

variable {seen : List String} {id : String} {block : Block}

theorem preorder_pass (passed : ∀ block, workspace.live? id = some block → id ∈ seen) :
    workspace.preorder seen id = [] := by
  rw [preorder]
  split
  · rfl
  next fresh =>
    split
    · rfl
    next block found => exact absurd (passed block found) fresh

theorem preorder_enter (fresh : id ∉ seen) (found : workspace.live? id = some block) :
    workspace.preorder seen id = id :: workspace.preorderAll (id :: seen) block.held := by
  rw [preorder, dif_neg fresh]
  split
  next dead => simp [found] at dead
  next same foundSame => rw [Option.some.inj (found.symm.trans foundSame)]

/-- The ids on top of the stack take their turn before all those below them, and leave the search
where one visit after the other leaves it. -/
theorem walk_eq_preorder (workspace : Workspace) :
    (∀ seen id, ∀ stack, workspace.walk (fun block => !block.deleted) seen (id :: stack) =
      workspace.preorder seen id ++ workspace.walk (fun block => !block.deleted)
        ((workspace.preorder seen id).reverse ++ seen) stack) ∧
    ∀ seen ids, ∀ stack, workspace.walk (fun block => !block.deleted) seen (ids ++ stack) =
      workspace.preorderAll seen ids ++ workspace.walk (fun block => !block.deleted)
        ((workspace.preorderAll seen ids).reverse ++ seen) stack := by
  apply preorder.mutual_induct workspace
  · intro seen id known stack
    rw [walk_skip known, preorder_pass fun _ _ => known]
    rfl
  · intro seen id fresh dead stack
    have passed : ¬workspace.Kept (fun block => !block.deleted) id := by
      simp [kept_alive_iff, dead]
    rw [walk_pass passed, preorder_pass (by simp [dead])]
    rfl
  · intro seen id fresh block found below stack
    obtain ⟨known, alive⟩ := live?_eq_some_iff.1 found
    rw [walk_enter fresh known (by simp [alive]), below, preorder_enter fresh found]
    simp
  · intro seen stack
    simp [preorderAll]
  · intro seen id rest own first others stack
    rw [List.cons_append, first, others, preorderAll]
    simp [own]

theorem preorder_nil (workspace : Workspace) (id : String) :
    workspace.preorder [] id = workspace.descendants id := by
  have whole := (walk_eq_preorder workspace).1 [] id []
  rw [walk, List.append_nil] at whole
  exact whole.symm

/-- Whatever blocks the slots share and however they run in circles: the search with ids on a stack
comes to an end, and it lists the live tree below a block in the order of the recursion. No block is
listed twice, and those listed are the ones that live blocks lead to. -/
theorem descendants_eq_preorder (workspace : Workspace) (id : String) :
    (∃ pops handled, Ends (Sweep.round workspace.gather) pops ⟨[], [id], []⟩
      (handled, workspace.descendants id)) ∧
    workspace.descendants id = workspace.preorder [] id ∧
    (workspace.descendants id).Nodup ∧
    ∀ low, low ∈ workspace.descendants id ↔
      (∃ block, workspace.live? low = some block) ∧
        ReflTransGen (fun parent child => ∃ block slot, workspace.live? parent = some block ∧
          block.children.get? slot = some child) id low := by
  obtain ⟨pops, -, handled, -, ends⟩ := workspace.gather_ends id
  exact ⟨⟨pops, handled, ends⟩, (workspace.preorder_nil id).symm,
    (walk_fresh workspace _ [] [id]).1, fun _ => mem_descendants_iff⟩

end RobotPuzzle.Workspace
