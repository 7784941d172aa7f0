import RobotPuzzle.Proofs.Workspace.Connection
import RobotPuzzle.Proofs.Workspace.Edits
import RobotPuzzle.Proofs.Workspace.Order

/-!
The number of used blocks is a sum over the entry blocks: a block counts once for every entry whose
tree it is in. Where no two of these trees meet this is the number of blocks in any of them.
-/

namespace RobotPuzzle.Workspace

def InUse (workspace : Workspace) (id : String) : Prop :=
  ∃ entry ∈ workspace.starts, id ∈ workspace.descendants entry.id

variable {workspace : Workspace}

theorem mem_liveIds_of_mem_descendants {root id : String}
    (member : id ∈ workspace.descendants root) : id ∈ workspace.liveIds :=
  mem_liveIds_iff.2 (mem_descendants_iff.1 member).1

theorem usedCount_eq_length (workspace : Workspace) : workspace.usedCount =
    (workspace.starts.flatMap fun entry => workspace.descendants entry.id).length := by
  rw [usedCount, entries_eq_starts]

theorem length_trees_eq_sum (entries : List Block) :
    (entries.flatMap fun entry => workspace.descendants entry.id).length =
      (workspace.liveIds.map fun id =>
        entries.countP fun entry => id ∈ workspace.descendants entry.id).sum := by
  induction entries with
  | nil => simp
  | cons entry rest ih =>
      have tree : (workspace.descendants entry.id).length =
          workspace.liveIds.countP fun id => id ∈ workspace.descendants entry.id := by
        rw [List.countP_eq_length_filter]
        refine List.Perm.length_eq ((List.perm_ext_iff_of_nodup
          (workspace.descendants_nodup entry.id) (workspace.nodup_liveIds.filter _)).2 ?_)
        intro id
        simpa using mem_liveIds_of_mem_descendants
      rw [List.flatMap_cons, List.length_append, ih, tree]
      induction workspace.liveIds with
      | nil => rfl
      | cons id others shift =>
          simp only [List.countP_cons, List.map_cons, List.sum_cons] at shift ⊢
          omega

theorem inUse_eq_toFinset (workspace : Workspace) : {id | workspace.InUse id} =
    ((workspace.starts.flatMap fun entry => workspace.descendants entry.id).toFinset :
      Set String) := by
  ext id
  simp [InUse]

theorem ncard_inUse_le_live (workspace : Workspace) :
    {id | workspace.InUse id}.ncard ≤ workspace.liveIds.length := by
  rw [inUse_eq_toFinset, Set.ncard_coe_finset]
  refine (Finset.card_le_card ?_).trans workspace.liveIds.toFinset_card_le
  intro id member
  obtain ⟨entry, -, below⟩ := List.mem_flatMap.1 (List.mem_toFinset.1 member)
  exact List.mem_toFinset.2 (mem_liveIds_of_mem_descendants below)

/-- A block counts as used once for every entry whose tree it is in. So the count is at least the
number of blocks in use, and it is that number exactly when no two entries share a block. -/
theorem usedCount_exact_iff_apart (workspace : Workspace) :
    workspace.usedCount = (workspace.liveIds.map fun id =>
        workspace.starts.countP fun entry => id ∈ workspace.descendants entry.id).sum ∧
      {id | workspace.InUse id}.ncard ≤ workspace.usedCount ∧
      {id | workspace.InUse id}.ncard ≤ workspace.liveIds.length ∧
      (workspace.usedCount = {id | workspace.InUse id}.ncard ↔
        workspace.starts.Pairwise fun first second =>
          (workspace.descendants first.id).Disjoint (workspace.descendants second.id)) := by
  refine ⟨?_, ?_, workspace.ncard_inUse_le_live, ?_⟩
  · rw [usedCount_eq_length, length_trees_eq_sum]
  · rw [usedCount_eq_length, inUse_eq_toFinset, Set.ncard_coe_finset]
    exact List.toFinset_card_le _
  · have apart := @List.nodup_flatMap _ _ workspace.starts
      fun entry => workspace.descendants entry.id
    rw [usedCount_eq_length, inUse_eq_toFinset, Set.ncard_coe_finset]
    constructor
    · intro same
      have nodup := Multiset.toFinset_card_eq_card_iff_nodup.1 same.symm
      exact (apart.1 nodup).2
    · intro disjoint
      have nodup := apart.2 ⟨fun entry _ => workspace.descendants_nodup entry.id, disjoint⟩
      exact (List.toFinset_card_of_nodup nodup).symm

def nestedEntry : Workspace :=
  empty.insert ⟨"s", "start", ∅, [(.next, .leaf "e" "start")]⟩ none

/-- The lower entry counts for itself and for the upper one: three used blocks of two. -/
theorem nestedEntry_counted_twice : ¬∀ workspace, Edited workspace →
    workspace.usedCount = {id | workspace.InUse id}.ncard := by
  intro exact
  have counted := exact nestedEntry (.insert .empty _ _)
  have bound := nestedEntry.ncard_inUse_le_live
  have used : nestedEntry.usedCount = 3 := by decide +kernel
  have live : nestedEntry.liveIds.length = 2 := by decide
  omega

end RobotPuzzle.Workspace
