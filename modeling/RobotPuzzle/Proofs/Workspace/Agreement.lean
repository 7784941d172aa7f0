import RobotPuzzle.Proofs.Workspace.Connection
import RobotPuzzle.Proofs.Workspace.Order
import RobotPuzzle.Workspace.Compile
import RobotPuzzle.Workspace.Shape

/-!
Workspaces that know the same blocks, each in an order of its own. Every walk looks blocks up by
their ids, so only what lists all blocks can tell such workspaces apart.
-/

namespace RobotPuzzle.Workspace

def Agrees (first second : Workspace) : Prop := ∀ id, first.find? id = second.find? id

variable {first second : Workspace}

theorem Agrees.symm (agrees : first.Agrees second) : second.Agrees first :=
  fun id => (agrees id).symm

theorem Agrees.live? (agrees : first.Agrees second) (id : String) :
    first.live? id = second.live? id := by
  rw [Workspace.live?, Workspace.live?, agrees id]

theorem Agrees.ids_perm (agrees : first.Agrees second) : first.ids.Perm second.ids := by
  apply (List.perm_ext_iff_of_nodup first.distinct second.distinct).2
  intro id
  have same : first.contains id = second.contains id := by
    rw [contains, contains, agrees id]
  have known : id ∈ first.ids ↔ id ∈ second.ids := by
    rw [mem_ids_iff, mem_ids_iff, same]
  exact known

theorem Agrees.length_eq (agrees : first.Agrees second) :
    first.blocks.length = second.blocks.length := by
  simpa [ids] using agrees.ids_perm.length_eq

theorem Agrees.descendants (agrees : first.Agrees second) (id : String) :
    first.descendants id = second.descendants id := by
  apply walk_congr
  intro other
  rw [agrees other]

theorem Agrees.slotOf? (agrees : first.Agrees second) (parent child : String) :
    first.slotOf? parent child = second.slotOf? parent child := by
  rw [Workspace.slotOf?, Workspace.slotOf?, agrees parent]

theorem Agrees.rooted (agrees : first.Agrees second) {id : String} (rooted : first.Rooted id) :
    second.Rooted id := by
  induction rooted with
  | entry found start => exact .entry (agrees.live? _ ▸ found) start
  | under found named _ ih => exact .under (agrees.live? _ ▸ found) named ih

theorem Agrees.isConnected (agrees : first.Agrees second) (id : String) :
    first.isConnected id = second.isConnected id := by
  rw [Bool.eq_iff_iff, isConnected_iff_rooted, isConnected_iff_rooted]
  exact ⟨agrees.rooted, agrees.symm.rooted⟩

theorem Agrees.shapeFrom (agrees : first.Agrees second) (depth : Nat) :
    first.shapeFrom depth = second.shapeFrom depth := by
  induction depth with
  | zero => rfl
  | succ depth ih =>
      funext seen id
      simp only [Workspace.shapeFrom, agrees.live?, ih]

theorem Agrees.shape? (agrees : first.Agrees second) (id : String) :
    first.shape? id = second.shape? id := by
  rw [Workspace.shape?, Workspace.shape?, agrees.length_eq, agrees.shapeFrom]

theorem Agrees.compileChain (agrees : first.Agrees second) (depth : Nat) :
    first.compileChain depth = second.compileChain depth := by
  induction depth with
  | zero => rfl
  | succ depth ih =>
      funext seen id
      simp only [Workspace.compileChain, Workspace.compileBlock, agrees.live?,
        agrees.isConnected, ih]

theorem Agrees.compileEntries (agrees : first.Agrees second) (seen : List String)
    (entries : List Block) :
    first.compileEntries seen entries = second.compileEntries seen entries := by
  induction entries generalizing seen with
  | nil => rfl
  | cons entry rest ih =>
      simp only [Workspace.compileEntries, agrees.length_eq, agrees.compileChain, ih]

/-- The order of the blocks counts for a program only as the order of the entry blocks. -/
theorem Agrees.compile (agrees : first.Agrees second) (entries : first.entries = second.entries) :
    first.compile = second.compile := by
  simp only [Workspace.compile, entries, agrees.compileEntries]

theorem entries_eq_singleton {workspace : Workspace} {entry : Block}
    (alive : workspace.live? entry.id = some entry) (start : entry.type = "start")
    (only : ∀ id block, workspace.live? id = some block → block.type = "start" →
      block = entry) : workspace.entries = [entry] := by
  have distinct : workspace.starts.Nodup := workspace.distinct.of_map.filter _
  rw [entries_eq_starts, ← List.perm_singleton]
  apply (List.perm_ext_iff_of_nodup distinct (List.nodup_singleton entry)).2
  intro block
  rw [mem_starts_iff, List.mem_singleton]
  constructor
  · rintro ⟨found, isStart⟩
    exact only block.id block found isStart
  · rintro rfl
    exact ⟨alive, start⟩

end RobotPuzzle.Workspace
