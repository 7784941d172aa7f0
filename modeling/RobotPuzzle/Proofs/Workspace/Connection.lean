import Mathlib.Data.Finset.Card
import Mathlib.Data.List.Permutation
import Mathlib.Data.Set.Card
import RobotPuzzle.Proofs.Workspace.Reach
import RobotPuzzle.Proofs.Workspace.Translation

/-!
The way up by parents and the walk down by slots agree where the two ends of every link do: a block
is connected exactly when it lies in the live tree below an entry block.
-/

namespace RobotPuzzle.Workspace

open Relation

variable {workspace : Workspace} {id root : String} {block : Block}

theorem rooted_of_climbs (seen : List String) (id : String)
    (climbs : workspace.climbs seen id = true) : workspace.Rooted id := by
  fun_induction Workspace.climbs workspace seen id with
  | case3 seen id block found alive start =>
      exact .entry (live?_eq_some_iff.2 ⟨found, by simpa using alive⟩) start
  | case6 seen id block found alive notStart fresh parent named ih =>
      exact .under (live?_eq_some_iff.2 ⟨found, by simpa using alive⟩) named (ih climbs)
  | case1 | case2 | case4 | case5 => contradiction

theorem isConnected_iff_rooted : workspace.isConnected id = true ↔ workspace.Rooted id :=
  ⟨rooted_of_climbs [] id, Rooted.isConnected⟩

theorem mem_starts_of_live (found : workspace.live? id = some block) (start : block.kind = .start) :
    block ∈ workspace.starts :=
  mem_starts_iff.2 ⟨(id_of_live? found).symm ▸ found, (Block.kind_eq_start_iff block).1 start⟩

theorem mem_loose_iff : block ∈ workspace.loose ↔
    workspace.live? block.id = some block ∧ block.top = true ∧ block.type ≠ "start" := by
  simp [loose, live?_eq_some_iff, find?_eq_some_iff, and_assoc, ← Block.kind_eq_start_iff]

theorem Rooted.descends (consistent : workspace.Consistent) (rooted : workspace.Rooted id) :
    ∃ entry ∈ workspace.starts, id ∈ workspace.descendants entry.id := by
  induction rooted with
  | @entry id block found start =>
      refine ⟨block, mem_starts_of_live found start, ?_⟩
      rw [id_of_live? found]
      exact mem_descendants_self found
  | under found named above ih =>
      obtain ⟨entry, isStart, member⟩ := ih
      obtain ⟨⟨parentBlock, aliveParent⟩, -⟩ := mem_descendants_iff.1 member
      obtain ⟨slot, holder, foundHolder, held⟩ := consistent.holds_of_parent found named
      obtain rfl : parentBlock = holder := by
        simpa [foundHolder] using (live?_eq_some_iff.1 aliveParent).1.symm
      exact ⟨entry, isStart, mem_descendants_child member aliveParent held found⟩

theorem Treelike.below_of_mem_descendants (treelike : workspace.Treelike)
    (member : id ∈ workspace.descendants root) : workspace.Below root id := by
  refine descendants_induction .refl ?_ member
  intro parent slot child held holds found below
  exact .head (treelike.parentLink holds (live?_eq_some_iff.1 found).1) below

def Hangs (workspace : Workspace) (child parent : String) : Prop :=
  ∃ slot holder block, workspace.live? parent = some holder ∧
    holder.children.get? slot = some child ∧ workspace.live? child = some block

structure LiveLinked (workspace : Workspace) : Prop where
  parent_of_held : ∀ {parent slot child holder block}, workspace.live? parent = some holder →
    holder.children.get? slot = some child → workspace.live? child = some block →
      block.parent = some parent

theorem mem_descendants_iff_hangs : id ∈ workspace.descendants root ↔
    (∃ block, workspace.live? id = some block) ∧ ReflTransGen workspace.Hangs id root := by
  rw [mem_descendants_iff]
  refine and_congr_right fun alive => ⟨fun path => ?_, fun path => ?_⟩
  · induction path with
    | refl => exact .refl
    | tail _ leads ih =>
        obtain ⟨holder, slot, found, held⟩ := leads
        obtain ⟨block, foundChild⟩ := alive
        exact .head ⟨slot, holder, block, found, held, foundChild⟩ (ih ⟨holder, found⟩)
  · clear alive
    induction path using ReflTransGen.head_induction_on with
    | refl => exact .refl
    | head hangs _ ih =>
        obtain ⟨slot, holder, block, found, held, -⟩ := hangs
        exact ih.tail ⟨holder, slot, found, held⟩

theorem Treelike.liveLinked (treelike : workspace.Treelike) : workspace.LiveLinked where
  parent_of_held found held alive :=
    treelike.parent_of_holds ⟨_, (live?_eq_some_iff.1 found).1, held⟩ (live?_eq_some_iff.1 alive).1

theorem LiveLinked.hangs_unique (linked : workspace.LiveLinked) :
    Relator.RightUnique workspace.Hangs := by
  intro child first second hangs hangsToo
  obtain ⟨slot, holder, block, found, held, alive⟩ := hangs
  obtain ⟨otherSlot, other, same, foundOther, heldToo, aliveToo⟩ := hangsToo
  obtain rfl := Option.some.inj (alive.symm.trans aliveToo)
  have named := linked.parent_of_held found held alive
  exact Option.some.inj (named.symm.trans (linked.parent_of_held foundOther heldToo alive))

theorem LiveLinked.rooted_of_mem_descendants (linked : workspace.LiveLinked) {entry : Block}
    (isStart : entry ∈ workspace.starts) (member : id ∈ workspace.descendants entry.id) :
    workspace.Rooted id := by
  obtain ⟨found, type⟩ := mem_starts_iff.1 isStart
  obtain ⟨-, path⟩ := mem_descendants_iff_hangs.1 member
  clear member
  induction path using ReflTransGen.head_induction_on with
  | refl => exact .entry found ((Block.kind_eq_start_iff entry).2 type)
  | head hangs _ ih =>
      obtain ⟨slot, holder, block, foundHolder, held, alive⟩ := hangs
      exact .under alive (linked.parent_of_held foundHolder held alive) ih

theorem isConnected_iff_descends (consistent : workspace.Consistent) :
    workspace.isConnected id = true ↔
      ∃ entry ∈ workspace.starts, id ∈ workspace.descendants entry.id := by
  rw [isConnected_iff_rooted]
  constructor
  · exact fun rooted => rooted.descends consistent
  · rintro ⟨entry, isStart, member⟩
    exact consistent.treelike.liveLinked.rooted_of_mem_descendants isStart member

theorem descendants_nodup (workspace : Workspace) (root : String) :
    (workspace.descendants root).Nodup :=
  (walk_fresh workspace _ [] [root]).1

theorem used_nodup (treelike : workspace.Treelike) (alone : workspace.StartsAlone) :
    (workspace.starts.flatMap fun entry => workspace.descendants entry.id).Nodup := by
  have distinct : workspace.starts.Pairwise fun first second => first.id ≠ second.id :=
    List.pairwise_map.1 (workspace.distinct.sublist (List.filter_sublist.map _))
  refine List.nodup_flatMap.2 ⟨fun entry _ => workspace.descendants_nodup entry.id, ?_⟩
  refine distinct.imp_of_mem ?_
  intro first second isStart isStartToo different id member memberToo
  obtain ⟨found, start⟩ := mem_starts_iff.1 isStart
  obtain ⟨foundToo, startToo⟩ := mem_starts_iff.1 isStartToo
  exact different (Below.root_unique (live?_eq_some_iff.1 found).1 (alone _ first found start)
    (live?_eq_some_iff.1 foundToo).1 (alone _ second foundToo startToo)
    (treelike.below_of_mem_descendants member) (treelike.below_of_mem_descendants memberToo))

/-- In a consistent workspace the way up from a block leads to an entry block exactly when the walk
down from one comes to it. So, if the entry blocks stand alone, as many blocks are used as are
connected. -/
theorem connected_up_iff_down (consistent : workspace.Consistent) :
    (∀ id, workspace.isConnected id = true ↔
        ∃ entry ∈ workspace.starts, id ∈ workspace.descendants entry.id) ∧
      (workspace.StartsAlone →
        workspace.usedCount = {id | workspace.isConnected id = true}.ncard) := by
  refine ⟨fun id => isConnected_iff_descends consistent, fun alone => ?_⟩
  have used := used_nodup consistent.treelike alone
  simp only [usedCount, entries_eq_starts]
  generalize listed : (workspace.starts.flatMap fun entry => workspace.descendants entry.id) = ids
    at used ⊢
  have same : {id | workspace.isConnected id = true} = (ids.toFinset : Set String) := by
    ext id
    simp [← listed, isConnected_iff_descends consistent]
  rw [same, Set.ncard_coe_finset, List.toFinset_card_of_nodup used]

def twoTrees : Workspace where
  blocks :=
    [⟨"s", "start", .ofList [(.next, "r")], ∅, none, true, false⟩,
      ⟨"r", "repeat", .ofList [(.doBody, "f"), (.next, "x")], ∅, some "s", false, false⟩,
      ⟨"f", "forward", ∅, ∅, some "r", false, false⟩,
      ⟨"x", "note", .ofList [(.next, "y")], ∅, some "r", false, true⟩,
      ⟨"y", "turn_left", ∅, ∅, some "x", false, false⟩,
      ⟨"e", "start", .ofList [(.next, "p")], ∅, none, true, false⟩,
      ⟨"p", "pick_collectible", ∅, ∅, some "e", false, false⟩]
  distinct := by decide

theorem connected_up_iff_down_twoTrees : twoTrees.Consistent ∧ twoTrees.StartsAlone ∧
    (∀ id, twoTrees.isConnected id = true ↔
        ∃ entry ∈ twoTrees.starts, id ∈ twoTrees.descendants entry.id) ∧
      {id | twoTrees.isConnected id = true}.ncard = 5 := by
  have consistent : twoTrees.Consistent :=
    .of_blocks twoTrees.ids (by decide) (by decide) (by decide) (by decide)
  have alone : twoTrees.StartsAlone := by
    have entries : ∀ block ∈ twoTrees.blocks, block.type = "start" → block.parent = none := by
      decide
    intro id block found
    exact entries block (find?_eq_some_iff.1 (live?_eq_some_iff.1 found).1).1
  obtain ⟨agree, counted⟩ := connected_up_iff_down consistent
  have first : twoTrees.descendants "s" = ["s", "r", "f"] := by cbv
  have second : twoTrees.descendants "e" = ["e", "p"] := by cbv
  have used : twoTrees.usedCount =
      (["s", "e"].flatMap fun entry => twoTrees.descendants entry).length := by
    rw [show ["s", "e"] = twoTrees.entries.map (·.id) by decide, List.flatMap_map]
    rfl
  have five : twoTrees.usedCount = 5 := by simp [used, first, second]
  exact ⟨consistent, alone, agree, (counted alone).symm.trans five⟩

end RobotPuzzle.Workspace
