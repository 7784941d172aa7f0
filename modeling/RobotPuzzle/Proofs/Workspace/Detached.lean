import RobotPuzzle.Proofs.Workspace.Dependence
import RobotPuzzle.Proofs.Workspace.Footprint
import RobotPuzzle.Script.Run

/-!
Changes of blocks that are not connected to an entry block. None of them reaches the connected
blocks: new blocks are in no slot of theirs, a move writes no slot of theirs that holds a live
block, and a deletion that came down to one of them would have started at a connected block.
-/

namespace RobotPuzzle.Workspace

open Relation

variable {workspace after : Workspace} {id parent child low : String} {slot : Slot}
  {spec : BlockSpec} {source place target : Place} {block before : Block}

/-- One change of blocks that are not connected to an entry block: a tree of new blocks without an
entry block, at the top or under such a block; a field of such a block or its deletion; or a move of
such a block, from whatever place is named to the top or onto another one. -/
inductive DetachedEdit (workspace : Workspace) : Workspace → Prop
  | insert (spec : BlockSpec) (place : Place) (distinct : spec.ids.Nodup)
      (fresh : ∀ id ∈ spec.ids, workspace.contains id = false)
      (noStart : ∀ block ∈ spec.blocks, block.type ≠ "start")
      (apart : ∀ parent ∈ place.map (·.1), workspace.isConnected parent = false) :
      DetachedEdit workspace (workspace.insert spec place)
  | setField (id name : String) (value : Option String)
      (apart : workspace.isConnected id = false) :
      DetachedEdit workspace (workspace.setField id name value)
  | delete (id : String) (apart : workspace.isConnected id = false) :
      DetachedEdit workspace (workspace.delete id)
  | reparent (id : String) (source target : Place) (apart : workspace.isConnected id = false)
      (goal : ∀ parent ∈ target.map (·.1), workspace.isConnected parent = false) :
      DetachedEdit workspace (workspace.reparent id source target)

theorem not_rooted (apart : workspace.isConnected id = false) : ¬workspace.Rooted id := by
  intro rooted
  simp [rooted.isConnected] at apart

/-! The entry blocks. -/

def isStart (workspace : Workspace) (id : String) : Bool :=
  (workspace.live? id).any fun block => block.type == "start"

theorem map_id_starts (workspace : Workspace) :
    workspace.starts.map (·.id) = workspace.ids.filter workspace.isStart := by
  rw [starts, ids, List.filter_map]
  congr 1
  refine List.filter_congr fun block member => ?_
  have found : workspace.find? block.id = some block := find?_eq_some_iff.2 ⟨member, rfl⟩
  cases deleted : block.deleted <;> simp [isStart, live?, found, deleted]

theorem map_id_starts_eq (more : List String) (ids : after.ids = workspace.ids ++ more)
    (fresh : ∀ id ∈ more, after.isStart id = false)
    (same : ∀ id ∈ workspace.ids, after.isStart id = workspace.isStart id) :
    after.starts.map (·.id) = workspace.starts.map (·.id) := by
  have none : more.filter after.isStart = [] := by simpa using fresh
  rw [map_id_starts, map_id_starts, ids, List.filter_append, List.filter_congr same, none,
    List.append_nil]

def standing? (workspace : Workspace) (id : String) : Option (String × Bool) :=
  (workspace.find? id).map fun block => (block.type, block.deleted)

theorem isLive_congr (same : after.standing? id = workspace.standing? id) :
    after.isLive id = workspace.isLive id := by
  have view : ∀ workspace : Workspace,
      workspace.isLive id = (workspace.standing? id).any fun standing => !standing.2 := by
    intro workspace
    rw [isLive, live?, standing?]
    cases workspace.find? id <;> simp
  rw [view, view, same]

theorem isStart_congr (same : after.standing? id = workspace.standing? id) :
    after.isStart id = workspace.isStart id := by
  have view : ∀ workspace : Workspace, workspace.isStart id =
      (workspace.standing? id).any fun standing => !standing.2 && standing.1 == "start" := by
    intro workspace
    rw [isStart, live?, standing?]
    cases found : workspace.find? id with
    | none => rfl
    | some block => cases deleted : block.deleted <;> simp [deleted]
  rw [view, view, same]

/-! The connected blocks after each kind of change. -/

/-- A change that leaves the connected blocks as they are and brings no block in a slot back leaves
the programs alone. -/
theorem Spares.of_kept (treelike : workspace.Treelike)
    (starts : after.starts.map (·.id) = workspace.starts.map (·.id))
    (kept : ∀ {id block}, workspace.Rooted id → workspace.live? id = some block →
      after.live? id = some block)
    (dead : ∀ {parent slot child}, workspace.Holds parent slot child →
      workspace.live? child = none → after.live? child = none) : Spares workspace after where
  starts := starts
  block := by
    intro id block rooted found
    refine ⟨block.children, kept rooted found, fun slot => ?_⟩
    cases inSlot : block.children.get? slot with
    | none => rfl
    | some child =>
        have same : after.isLive child = workspace.isLive child := by
          cases alive : workspace.live? child with
          | none =>
              have holds : workspace.Holds id slot child :=
                ⟨block, (live?_eq_some_iff.1 found).1, inSlot⟩
              simp [isLive, alive, dead holds alive]
          | some below =>
              have rootedChild := treelike.rooted_child rooted found inSlot
                (isLive_iff.2 ⟨below, alive⟩)
              simp [isLive, alive, kept rootedChild alive]
        rw [Option.filter_some, Option.filter_some, same]

theorem link_eq_self (apart : ∀ parent ∈ place.map (·.1), block.id ≠ parent) :
    link place id block = block := by
  obtain _ | ⟨parent, slot⟩ := place
  · rfl
  · simp [link, apart parent rfl]

theorem exists_type_of_insert (fresh : ∀ id ∈ spec.ids, workspace.contains id = false)
    (inTree : id ∈ spec.ids) (found : (workspace.insert spec place).find? id = some block) :
    ∃ source ∈ spec.blocks, block.type = source.type := by
  have stored : ∀ (place : Place) (block : Block),
      (workspace.putTree (place.map (·.1)) spec).find? id = some block →
        ∃ source ∈ spec.blocks, block.type = source.type := by
    intro place block found
    rw [putTree_eq_foldl] at found
    rcases find?_foldl_put_cases found with old | ⟨entry, member, rfl⟩
    · exact absurd (contains_iff.2 ⟨block, old⟩) (by simp [fresh id inTree])
    · exact ⟨entry.1, BlockSpec.mem_blocks_of_mem_placed member, rfl⟩
  obtain _ | ⟨parent, slot⟩ := place
  · exact stored none block found
  · simp only [insert] at found
    split at found
    · rw [find?_attach, Option.map_eq_some_iff] at found
      obtain ⟨old, foundOld, rfl⟩ := found
      exact stored (some (parent, slot)) old foundOld
    · exact stored none block found

theorem Spares.insert (tidy : workspace.Tidy) (treelike : workspace.Treelike)
    (distinct : spec.ids.Nodup) (fresh : ∀ id ∈ spec.ids, workspace.contains id = false)
    (noStart : ∀ block ∈ spec.blocks, block.type ≠ "start")
    (apart : ∀ parent ∈ place.map (·.1), workspace.isConnected parent = false) :
    Spares workspace (workspace.insert spec place) := by
  have live : ∀ {id}, workspace.contains id = true → (workspace.insert spec place).live? id =
      (workspace.live? id).map (link place spec.id) := fun known =>
    live?_eq_map (find?_insert_of_fresh fresh place (not_mem_of_fresh fresh known)) fun _ => rfl
  refine .of_kept treelike (map_id_starts_eq spec.ids (ids_insert distinct fresh place) ?_ ?_) ?_ ?_
  · intro id inTree
    rw [isStart]
    cases found : (workspace.insert spec place).live? id with
    | none => rfl
    | some block =>
        obtain ⟨source, member, type⟩ :=
          exists_type_of_insert fresh inTree (live?_eq_some_iff.1 found).1
        simp [type, noStart source member]
  · intro id known
    rw [isStart, isStart, live (mem_ids_iff.1 known)]
    cases workspace.live? id <;> rfl
  · intro id block rooted found
    have here : workspace.find? id = some block := (live?_eq_some_iff.1 found).1
    rw [live (contains_iff.2 ⟨block, here⟩), found, Option.map_some, link_eq_self]
    rintro parent stands rfl
    rw [id_of_find? here] at stands
    exact not_rooted (apart id stands) rooted
  · intro parent slot child holds dead
    rw [live (tidy.held_known holds), dead]
    rfl

theorem Spares.setField (treelike : workspace.Treelike) (name : String) (value : Option String)
    (apart : workspace.isConnected id = false) :
    Spares workspace (workspace.setField id name value) := by
  have live := fun other => live?_eq_map (find?_setField workspace id name value other) fun _ => rfl
  refine .of_kept treelike (map_id_starts_eq [] (by simp) (by simp) ?_) ?_ ?_
  · intro other _
    rw [isStart, isStart, live]
    cases workspace.live? other <;> rfl
  · intro other block rooted found
    have different : other ≠ id := by
      rintro rfl
      exact not_rooted apart rooted
    simp [live, found, different]
  · intro parent slot child _ dead
    rw [live, dead]
    rfl

/-- Entry blocks stand alone, so a connected block in a slot is connected through its holder. -/
theorem Treelike.rooted_holder (treelike : workspace.Treelike) (alone : workspace.StartsAlone)
    (holds : workspace.Holds parent slot child) (rooted : workspace.Rooted child) :
    workspace.Rooted parent := by
  cases rooted with
  | entry found start =>
      have named := treelike.parent_of_holds holds (live?_eq_some_iff.1 found).1
      have none := alone child _ found ((Block.kind_eq_start_iff _).1 start)
      simp [none] at named
  | under found named above =>
      have holder := treelike.parent_of_holds holds (live?_eq_some_iff.1 found).1
      obtain rfl := Option.some.inj (named.symm.trans holder)
      exact above

theorem Treelike.not_mem_cascade (treelike : workspace.Treelike) (alone : workspace.StartsAlone)
    (apart : workspace.isConnected id = false) (rooted : workspace.Rooted low) :
    low ∉ workspace.cascade id := by
  intro member
  obtain ⟨-, path⟩ := mem_cascade_iff.1 member
  clear member
  induction path with
  | refl => exact not_rooted apart rooted
  | tail _ held ih =>
      obtain ⟨slot, holds⟩ := held
      exact ih (treelike.rooted_holder alone holds rooted)

theorem Spares.delete (treelike : workspace.Treelike) (alone : workspace.StartsAlone)
    (apart : workspace.isConnected id = false) : Spares workspace (workspace.delete id) := by
  have stays : ∀ {low}, workspace.Rooted low → low ∉ workspace.cascade id :=
    treelike.not_mem_cascade alone apart
  refine .of_kept treelike (map_id_starts_eq [] (by simp) (by simp) ?_) ?_ ?_
  · intro other _
    rw [isStart, isStart, live?_delete]
    split
    next marked =>
      cases found : workspace.live? other with
      | none => rfl
      | some block =>
          by_cases start : block.type = "start"
          · exact absurd marked (stays (.entry found ((Block.kind_eq_start_iff block).2 start)))
          · simp [start]
    next => rfl
  · intro other block rooted found
    rw [live?_delete, if_neg (stays rooted), found]
  · intro parent slot child _ dead
    rw [live?_delete, dead, ite_self]

theorem Moved.eq_with_children {kept : Block} (moved : Moved id source target before kept)
    (different : before.id ≠ id) : kept = { before with children := kept.children } := by
  obtain ⟨parent, top⟩ := moved.links different
  obtain ⟨own, type, fields, deleted, -, -⟩ := moved
  cases kept
  simp_all

theorem standing?_reparent (workspace : Workspace) (id : String) (source target : Place)
    (other : String) :
    (workspace.reparent id source target).standing? other = workspace.standing? other := by
  rw [standing?, standing?]
  cases found : workspace.find? other with
  | none =>
      have unknown : (workspace.reparent id source target).contains other = false := by
        rw [contains_reparent, contains, found]
        rfl
      have none : (workspace.reparent id source target).find? other = none := by
        simpa [contains] using unknown
      rw [none]
  | some block =>
      obtain ⟨kept, foundKept, moved⟩ := Moved.reparent found
      rw [foundKept, Option.map_some, Option.map_some, moved.type, moved.deleted]

theorem Spares.reparent (treelike : workspace.Treelike) (source : Place)
    (apart : workspace.isConnected id = false)
    (goal : ∀ parent ∈ target.map (·.1), workspace.isConnected parent = false) :
    Spares workspace (workspace.reparent id source target) := by
  have standing := workspace.standing?_reparent id source target
  refine ⟨map_id_starts_eq [] (by simp) (by simp) fun other _ =>
    isStart_congr (standing other), ?_⟩
  intro other block rooted found
  have here : workspace.find? other = some block := (live?_eq_some_iff.1 found).1
  obtain rfl := id_of_find? here
  obtain ⟨kept, foundKept, moved⟩ : ∃ kept,
      (workspace.reparent id source target).find? block.id = some kept ∧
        Moved id source target block kept := Moved.reparent here
  have different : block.id ≠ id := by
    rintro rfl
    exact not_rooted apart rooted
  refine ⟨kept.children, ?_, fun slot => ?_⟩
  · rw [← moved.eq_with_children different]
    exact live?_eq_some_iff.2 ⟨foundKept, moved.deleted.trans (live?_eq_some_iff.1 found).2⟩
  · have live : (workspace.reparent id source target).isLive = workspace.isLive :=
      funext fun child => isLive_congr (standing child)
    rw [live]
    rcases moved.slots slot with same | ⟨-, held, emptied⟩ | ⟨filled, -⟩
    · rw [same]
    · have dead : ¬workspace.isLive id = true := fun alive =>
        not_rooted apart (treelike.rooted_child rooted found held alive)
      rw [emptied, held, Option.filter_some, if_neg dead]
      rfl
    · exact absurd rooted (not_rooted (goal block.id (by simp [filled])))

theorem DetachedEdit.spares (edit : workspace.DetachedEdit after) (tidy : workspace.Tidy)
    (treelike : workspace.Treelike) (alone : workspace.StartsAlone) : Spares workspace after := by
  cases edit with
  | insert spec place distinct fresh noStart apart =>
      exact .insert tidy treelike distinct fresh noStart apart
  | setField id name value apart => exact .setField treelike name value apart
  | delete id apart => exact .delete treelike alone apart
  | reparent id source target apart goal => exact .reparent treelike source apart goal

/-- In a reachable workspace whose parents and slots agree and whose entry blocks stand at the top,
no change of blocks that are not connected makes a difference to the programs: they compile to the
same script, as many blocks are used, the main tree has the same shape, and every run goes the
same way. -/
theorem detached_edit_keeps_programs (edited : Edited workspace)
    (consistent : workspace.Consistent) (alone : workspace.StartsAlone)
    (edit : workspace.DetachedEdit after) :
    after.compile = workspace.compile ∧ after.usedCount = workspace.usedCount ∧
      after.programShape.main = workspace.programShape.main ∧
      ∀ limit world, after.compile.map (fun script => Attempt.ofScript limit script world) =
        workspace.compile.map fun script => Attempt.ofScript limit script world := by
  have spares := edit.spares edited.tidy consistent.treelike alone
  have compiled := spares.compile_eq consistent.treelike
  refine ⟨compiled, spares.usedCount_eq consistent.treelike,
    spares.main_eq consistent.treelike, fun limit world => ?_⟩
  rw [compiled]

def gapped : Workspace := delete
  ⟨[⟨"s", "start", .ofList [(.next, "r")], ∅, none, true, false⟩,
    ⟨"r", "repeat", .ofList [(.doBody, "f"), (.next, "n")], .ofList [("TIMES", "2")], some "s",
      false, false⟩,
    ⟨"f", "forward", ∅, ∅, some "r", false, false⟩,
    ⟨"n", "turn_right", .ofList [(.next, "m")], ∅, some "r", false, false⟩,
    ⟨"m", "backward", ∅, ∅, some "n", false, false⟩,
    ⟨"x", "forward", ∅, ∅, none, true, false⟩], by decide⟩ "n"

theorem gapped_eq : gapped = loopAndStep.delete "n" := rfl

/-- New blocks come under the deleted one, the step is changed and deleted, and the deleted block
goes from the slot of the loop to the step. -/
theorem detached_edit_keeps_programs_gapped : Edited gapped ∧ gapped.Consistent ∧
    gapped.StartsAlone ∧ gapped.compile = .ok [.loop 2 [.act (.move .forward) "f"] "r"] ∧
      gapped.usedCount = 3 ∧
      ∀ after ∈ [gapped.insert (.leaf "y" "pick_collectible") (some ("n", .next)),
          gapped.setField "x" "TIMES" (some "4"), gapped.delete "x",
          gapped.reparent "n" (some ("r", .next)) (some ("x", .next))],
        gapped.DetachedEdit after ∧ after.compile = gapped.compile ∧
          after.usedCount = gapped.usedCount ∧
          after.programShape.main = gapped.programShape.main ∧
          ∀ limit world, after.compile.map (fun script => Attempt.ofScript limit script world) =
            gapped.compile.map fun script => Attempt.ofScript limit script world := by
  have edited : Edited gapped := gapped_eq ▸ edited_loopAndStep.delete "n"
  have consistent : gapped.Consistent := gapped_eq ▸ consistent_loopAndStep.delete "n"
  have alone : gapped.StartsAlone := by
    have entries : ∀ block ∈ loopAndStep.blocks, block.type = "start" → block.parent = none := by
      decide
    rw [gapped_eq]
    refine StartsAlone.delete (fun id block found => ?_) "n"
    exact entries block (find?_eq_some_iff.1 (live?_eq_some_iff.1 found).1).1
  have deleted : gapped.isConnected "n" = false := by cbv
  have apart : gapped.isConnected "x" = false := by cbv
  refine ⟨edited, consistent, alone, by cbv, by cbv, fun after member => ?_⟩
  have edit : gapped.DetachedEdit after := by
    simp only [List.mem_cons, List.not_mem_nil, or_false] at member
    rcases member with rfl | rfl | rfl | rfl
    · refine .insert _ _ (by decide) (fun id inTree => ?_) (by decide) (by simpa using deleted)
      obtain rfl : id = "y" := by simpa [BlockSpec.leaf, BlockSpec.ids, BlockSpec.blocks,
        BlockSpec.placed, BlockSpec.placedBelow] using inTree
      exact contains_delete.trans (by decide)
    · exact .setField _ _ _ apart
    · exact .delete _ apart
    · exact .reparent _ _ _ deleted (by simpa using apart)
  exact ⟨edit, detached_edit_keeps_programs edited consistent alone edit⟩

end RobotPuzzle.Workspace
