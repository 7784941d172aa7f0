import RobotPuzzle.Proofs.Session.Snapshot
import RobotPuzzle.Proofs.Workspace.Stored

/-!
A tree of fresh blocks that comes into a workspace: it lies there as it came, with the blocks of
each slot in slot order, and of all others only the block that it hangs on has changed.
-/

namespace RobotPuzzle

namespace Workspace

variable {workspace : Workspace} {spec block : BlockSpec} {place : Place}

theorem entries_freshBlock (slots : (block.children.map (·.1)).Nodup) (parent : Option String) :
    (freshBlock block parent).children.entries =
      block.inOrder.children.map fun child => (child.1, child.2.id) := by
  have distinct : ((block.children.map fun child => (child.1, child.2.id)).map (·.1)).Nodup := by
    rw [List.map_map]
    exact slots
  have stored : (freshBlock block parent).children.entries =
      SortedMap.sortEntries (block.children.map fun child => (child.1, child.2.id)) :=
    SortedMap.entries_ofList distinct
  rw [stored, BlockSpec.children_inOrder, SortedMap.map_sortEntries _ BlockSpec.id, List.map_map]
  simp only [Function.comp_def, BlockSpec.id_inOrder]

theorem stores_insert (distinct : spec.Distinct)
    (fits : ∀ above ∈ place.map (·.1), above ∉ spec.ids ∧ workspace.contains above = true) :
    (workspace.insert spec place).Stores spec.inOrder := by
  intro ordered member
  obtain ⟨block, inTree, rfl⟩ := spec.exists_of_mem_blocks_inOrder ordered member
  have slots := distinct.slots block inTree
  rw [← BlockSpec.map_placed spec place] at inTree
  obtain ⟨entry, placed, rfl⟩ := List.mem_map.1 inTree
  have found := find?_insert_of_mem distinct fits placed
  rw [← BlockSpec.id_inOrder] at found
  exact ⟨placedBlock entry, live?_eq_some_iff.2 ⟨found, rfl⟩, (BlockSpec.type_inOrder _).symm,
    (BlockSpec.fields_inOrder _).symm, entries_freshBlock slots _⟩

end Workspace

namespace Recorder

open Workspace

/-- A tree of fresh blocks is all that its creation adds. The walk and the shape below its head are
those of the tree with its slots in order, and of the other blocks only the one that it hangs on has
changed, in that slot. So the log shows the tree that the event brought. -/
theorem create_mirrors_tree {workspace : Workspace} {spec : BlockSpec} (distinct : spec.Distinct)
    (fresh : ∀ id ∈ spec.ids, workspace.contains id = false) (place : Place) :
    (workspace.insert spec place).blocks.length = workspace.blocks.length + spec.blocks.length ∧
      (workspace.insert spec place).descendants spec.id = spec.inOrder.ids ∧
      (workspace.insert spec place).shape? spec.id = some spec.inOrder.toShape ∧
      (∀ block ∈ spec.blocks, ∃ stored, (workspace.insert spec place).live? block.id = some stored ∧
        stored.type = block.type ∧ stored.fields = block.fields) ∧
      (∀ id ∉ spec.ids, (workspace.insert spec place).find? id =
        (workspace.find? id).map (link place spec.id)) ∧
      ∀ (recorder : Recorder) (parent : Option String) (slot : Option Slot) (time : Instant),
        recorder.workspace = workspace → place? parent slot = place →
          spec.children ≠ [] → spec.type ≠ "start" →
            (recorder.handle (.create spec parent slot .workspace) time).record.actions =
              recorder.record.actions ++
                [.create spec.id spec.type time (some (.ofShape spec.inOrder.toShape))] := by
  obtain ⟨known, target, same, -⟩ := exists_known_place workspace spec place
  have fits := fits_of_fresh fresh target
  have stores : (workspace.insert spec place).Stores spec.inOrder :=
    same ▸ stores_insert distinct fits
  have distinctIds := spec.ids_inOrder_perm.nodup_iff.2 distinct.ids
  have shown := stores.shape?_eq distinctIds
  have walked := stores.descendants_eq distinctIds
  rw [BlockSpec.id_inOrder] at shown walked
  refine ⟨?_, walked, shown, ?_, ?_, ?_⟩
  · have count := congrArg List.length (ids_insert distinct.ids fresh place)
    rwa [List.length_append, BlockSpec.ids, ids, ids, List.length_map, List.length_map,
      List.length_map] at count
  · intro block member
    rw [← BlockSpec.map_placed spec known] at member
    obtain ⟨entry, placed, rfl⟩ := List.mem_map.1 member
    have found := find?_insert_of_mem distinct fits placed
    rw [← same] at found
    exact ⟨placedBlock entry, live?_eq_some_iff.2 ⟨found, rfl⟩, rfl, rfl⟩
  · exact fun id outside => find?_insert_of_fresh fresh place outside
  · rintro recorder parent slot time rfl rfl inhabited notStart
    have logged : Kind.ofType spec.type ≠ .start := by
      simp only [Kind.ofType]
      split <;> simp_all
    have begun : (recorder.beginExecution time).workspace = recorder.workspace := rfl
    have created : recorder.handle (.create spec parent slot .workspace) time =
        ((recorder.beginExecution time).withWorkspace
          (recorder.workspace.insert spec (place? parent slot))).log
            (.create spec.id spec.type time (some (.ofShape spec.inOrder.toShape))) := by
      simp [handle, create, logged, inhabited, withWorkspace, begun, shown]
    rw [created]
    rfl

def looping : BlockSpec :=
  ⟨"r", "repeat", .ofList [("TIMES", "2")],
    [(.next, ⟨"n", "turn_right", ∅, [(.next, .leaf "m" "backward")]⟩),
      (.doBody, .leaf "f" "forward")]⟩

def seeded : Recorder := (start 0).seed (.leaf "s" "start")

theorem create_mirrors_tree_looping : looping.Distinct ∧
    (∀ id ∈ looping.ids, seeded.workspace.contains id = false) ∧
      (seeded.workspace.insert looping (some ("s", .next))).blocks.length = 5 ∧
      (seeded.workspace.insert looping (some ("s", .next))).descendants "r" =
        ["r", "f", "n", "m"] ∧
      (seeded.workspace.insert looping (some ("s", .next))).find? "s" =
        some ⟨"s", "start", .ofList [(.next, "r")], ∅, none, true, false⟩ ∧
      (seeded.handle (.create looping (some "s") none .workspace) ⟨3, 0⟩).record.actions =
        [.create "r" "repeat" ⟨3, 0⟩ (some (.ofShape ⟨"r", "r(2)", [(.doBody, ⟨"f", "f", []⟩),
          (.next, ⟨"t(r)", "t(r)", [(.next, ⟨"b", "b", []⟩)]⟩)]⟩))] := by
  have distinct : looping.Distinct := by decide
  have fresh : ∀ id ∈ looping.ids, seeded.workspace.contains id = false := by decide
  obtain ⟨count, walked, -, -, others, logged⟩ :=
    create_mirrors_tree distinct fresh (some ("s", .next))
  have sorted : looping.inOrder = ⟨"r", "repeat", .ofList [("TIMES", "2")],
      [(.doBody, .leaf "f" "forward"),
        (.next, ⟨"n", "turn_right", ∅, [(.next, .leaf "m" "backward")]⟩)]⟩ := by cbv
  have ids : looping.inOrder.ids = ["r", "f", "n", "m"] := by
    rw [sorted]
    decide
  have shape : looping.inOrder.toShape = ⟨"r", "r(2)", [(.doBody, ⟨"f", "f", []⟩),
      (.next, ⟨"t(r)", "t(r)", [(.next, ⟨"b", "b", []⟩)]⟩)]⟩ := by
    rw [sorted]
    rfl
  have action := logged seeded (some "s") none ⟨3, 0⟩ rfl rfl (by decide) (by decide)
  rw [shape] at action
  exact ⟨distinct, fresh, count, walked.trans ids, others "s" (by decide), action⟩

end Recorder

end RobotPuzzle
