import RobotPuzzle.Proofs.Workspace.Order
import RobotPuzzle.Proofs.Workspace.Revival
import RobotPuzzle.Proofs.Workspace.Stored

/-!
Changes that are taken back. A deletion is undone by putting the tree that was there into its old
place, and a move by the move the other way: what comes out is the workspace from before, with every
block as it was and in the same order.
-/

namespace RobotPuzzle.Workspace

open Relation

variable {workspace freed : Workspace} {id parent : String} {slot : Slot} {spec : BlockSpec}
  {place target : Place} {block : Block}

theorem blocks_eq_filterMap (workspace : Workspace) :
    workspace.blocks = workspace.ids.filterMap workspace.find? := by
  have found : ∀ block ∈ workspace.blocks, workspace.find? block.id = some block :=
    fun block member => find?_eq_some_iff.2 ⟨member, rfl⟩
  rw [ids, List.filterMap_map]
  exact (List.filterMap_some.symm.trans (List.filterMap_congr fun block member =>
    (found block member).symm))

theorem ext_find? {first second : Workspace} (ids : first.ids = second.ids)
    (same : ∀ id, first.find? id = second.find? id) : first = second := by
  have blocks : first.blocks = second.blocks := by
    rw [blocks_eq_filterMap, blocks_eq_filterMap, ids, funext same]
  cases first
  cases second
  simp_all

/-- The place of a block: the slot of its parent that holds it, or none without a parent. -/
structure HasPlace (workspace : Workspace) (id : String) (place : Place) : Prop where
  parent : ∃ block, workspace.find? id = some block ∧ block.parent = place.map (·.1)
  held : ∀ parent slot, place = some (parent, slot) → workspace.Holds parent slot id

theorem HasPlace.parentLink (stands : workspace.HasPlace id (some (parent, slot))) :
    workspace.ParentLink id parent := stands.parent

theorem HasPlace.holds (stands : workspace.HasPlace id (some (parent, slot))) :
    workspace.Holds parent slot id := stands.held parent slot rfl

/-! A move and the move back. -/

theorem with_links_eq (block : Block) {children : SortedMap Slot String}
    {named : Option String} {top : Bool} (slots : children = block.children)
    (above : named = block.parent) (stands : top = block.top) :
    { block with children, parent := named, top } = block := by
  subst slots above stands
  rfl

theorem Tidy.alone_of_find? (tidy : freed.Tidy) (found : freed.find? id = some block)
    (alone : block.parent = none) {other : String} {same : Block}
    (foundSame : freed.find? other = some same) (isSame : other = id) :
    same.parent = none ∧ same.top = true := by
  obtain rfl := Option.some.inj (found.symm.trans (isSame ▸ foundSame))
  exact ⟨alone, by rw [tidy.top found, alone, Option.isNone_none]⟩

theorem attach_takeOff (tidy : workspace.Tidy)
    (stands : workspace.HasPlace id (some (parent, slot))) :
    (workspace.takeOff id (some (parent, slot))).attach parent slot id = workspace := by
  refine ext_find? (by simp) ?_
  intro other
  rw [find?_attach, takeOff, find?_detach]
  cases found : workspace.find? other with
  | none => rfl
  | some block =>
      refine congrArg some (with_links_eq block ?_ ?_ ?_)
      · by_cases atParent : other = parent
        · subst atParent
          obtain ⟨holder, foundHolder, held⟩ := stands.holds
          obtain rfl := Option.some.inj (found.symm.trans foundHolder)
          simp [held, SortedMap.insert_eq_self held]
        · simp [atParent]
      · by_cases isChild : other = id
        · simp [isChild, stands.parentLink.parent_eq (isChild ▸ found)]
        · simp [isChild]
      · by_cases isChild : other = id
        · simp [isChild, tidy.top found, stands.parentLink.parent_eq (isChild ▸ found)]
        · simp [isChild]

theorem takeOff_of_alone (tidy : freed.Tidy) (found : freed.find? id = some block)
    (alone : block.parent = none) (empty : freed.occupant? target = none) :
    freed.takeOff id target = freed := by
  obtain _ | ⟨parent, slot⟩ := target
  · rfl
  refine ext_find? (by simp) ?_
  intro other
  rw [takeOff, find?_detach]
  cases foundOther : freed.find? other with
  | none => rfl
  | some otherBlock =>
      refine congrArg some (with_links_eq otherBlock ?_ ?_ ?_)
      · have notHeld : ¬(other = parent ∧ otherBlock.children.get? slot = some id) := by
          rintro ⟨rfl, held⟩
          have holds : freed.Holds other slot id := ⟨otherBlock, foundOther, held⟩
          rw [occupant?_some_iff.2 holds] at empty
          cases empty
        rw [if_neg notHeld]
      · by_cases isTaken : other = id
        · simp [isTaken, (tidy.alone_of_find? found alone foundOther isTaken).1]
        · simp [isTaken]
      · by_cases isTaken : other = id
        · simp [isTaken, (tidy.alone_of_find? found alone foundOther isTaken).2]
        · simp [isTaken]

theorem takeOff_attach (tidy : freed.Tidy) (found : freed.find? id = some block)
    (alone : block.parent = none) (empty : freed.occupant? (some (parent, slot)) = none) :
    (freed.attach parent slot id).takeOff id (some (parent, slot)) = freed := by
  refine ext_find? (by simp) ?_
  intro other
  rw [takeOff, find?_detach, find?_attach]
  cases foundOther : freed.find? other with
  | none => rfl
  | some otherBlock =>
      refine congrArg some (with_links_eq otherBlock ?_ ?_ ?_)
      · by_cases atParent : other = parent
        · subst atParent
          have free : otherBlock.children.get? slot = none := by
            simpa [occupant?, foundOther] using empty
          simp [SortedMap.erase_eq_self free]
        · simp [atParent]
      · by_cases isTaken : other = id
        · simp [isTaken, (tidy.alone_of_find? found alone foundOther isTaken).1]
        · simp [isTaken]
      · by_cases isTaken : other = id
        · simp [isTaken, (tidy.alone_of_find? found alone foundOther isTaken).2]
        · simp [isTaken]

theorem HasPlace.alone_takeOff (stands : workspace.HasPlace id place) : ∃ block,
    (workspace.takeOff id place).find? id = some block ∧ block.parent = none := by
  obtain ⟨block, found, named⟩ := stands.parent
  obtain _ | ⟨parent, slot⟩ := place
  · exact ⟨block, found, named⟩
  · rw [takeOff, find?_detach, found]
    exact ⟨_, rfl, by simp⟩

/-- Wherever a move onto an empty slot leads, and also when it is refused, taking the block off its
target gives what its first half gave. -/
theorem takeOff_reparent (tidy : workspace.Tidy) (stands : workspace.HasPlace id place)
    (empty : (workspace.takeOff id place).occupant? target = none) :
    (workspace.reparent id place target).takeOff id target = workspace.takeOff id place := by
  have tidyFreed : (workspace.takeOff id place).Tidy := tidy.takeOff
  obtain ⟨block, found, alone⟩ := stands.alone_takeOff
  rcases workspace.reparent_cases id place target with
    ⟨unknown, -⟩ | ⟨-, same | ⟨goal, goalSlot, rfl, -, -, same⟩⟩
  · obtain ⟨before, foundBefore, -⟩ := stands.parent
    simp [contains, foundBefore] at unknown
  · rw [same]
    exact takeOff_of_alone tidyFreed found alone empty
  · rw [same]
    exact takeOff_attach tidyFreed found alone empty

/-- A move from the place of a block onto the top, onto an unknown block, into the block's own tree
or onto a slot that is empty once the block is off its own is undone by the move the other way. -/
theorem reparent_undone (edited : Edited workspace) (acyclic : workspace.Acyclic)
    (stands : workspace.HasPlace id place)
    (empty : (workspace.takeOff id place).occupant? target = none) :
    (workspace.reparent id place target).reparent id target place = workspace := by
  have freed := takeOff_reparent edited.tidy stands empty
  have known : (workspace.reparent id place target).contains id = true := by
    obtain ⟨block, found, -⟩ := stands.parent
    rw [contains_reparent]
    exact contains_iff.2 ⟨block, found⟩
  obtain _ | ⟨parent, slot⟩ := place
  · rw [reparent_none known, freed]
    rfl
  have inside : (workspace.takeOff id (some (parent, slot))).contains parent = true := by
    obtain ⟨holder, found, -⟩ := stands.holds
    exact contains_takeOff.trans (contains_iff.2 ⟨holder, found⟩)
  -- The old parent was not below the block before, and taking the block off adds no link.
  have outside : (workspace.takeOff id (some (parent, slot))).isAncestorOrSelf id [] parent =
      false := by
    rw [← Bool.not_eq_true, acyclic.takeOff.isAncestorOrSelf_iff]
    intro below
    refine acyclic.not_below stands.parentLink (ReflTransGen.mono ?_ _ _ below)
    exact fun _ _ step => (parentLink_detach.1 step).2
  rw [reparent_some known (by rwa [freed]) (by rwa [freed]), freed]
  exact attach_takeOff edited.tidy stands

def loopTree : BlockSpec :=
  ⟨"r", "repeat", .ofList [("TIMES", "2")], [(.doBody, .leaf "f" "forward"),
    (.next, ⟨"n", "turn_right", ∅, [(.next, .leaf "m" "backward")]⟩)]⟩

def loopAndStep : Workspace :=
  ((empty.insert (.leaf "s" "start") none).insert loopTree (some ("s", .next))).insert
    (.leaf "x" "forward") none

theorem edited_loopAndStep : Edited loopAndStep := .insert (.insert (.insert .empty _ _) _ _) _ _

theorem consistent_loopAndStep : loopAndStep.Consistent :=
  .of_blocks loopAndStep.ids (by decide) (by decide) (by decide) (by decide)

theorem hasPlace_loopAndStep : loopAndStep.HasPlace "r" (some ("s", .next)) := by
  refine ⟨⟨_, rfl, rfl⟩, ?_⟩
  rintro _ _ ⟨⟩
  exact ⟨_, rfl, rfl⟩

/-- The loop goes to the top, below the other step, and nowhere when the target is unknown or one
of its own blocks. -/
theorem reparent_undone_loopAndStep :
    (loopAndStep.reparent "r" (some ("s", .next)) (some ("x", .next))).Holds "x" .next "r" ∧
      ∀ target ∈ [none, some ("x", .next), some ("ghost", .next), some ("m", .next)],
        (loopAndStep.reparent "r" (some ("s", .next)) target).reparent "r" target
          (some ("s", .next)) = loopAndStep := by
  have empty : ∀ target ∈ [none, some ("x", .next), some ("ghost", .next), some ("m", .next)],
      (loopAndStep.takeOff "r" (some ("s", .next))).occupant? target = none := by decide
  have outside : (loopAndStep.takeOff "r" (some ("s", .next))).isAncestorOrSelf "r" [] "x" =
      false := by
    rw [isAncestorOrSelf]
    rfl
  refine ⟨?_, fun target member => reparent_undone edited_loopAndStep
    consistent_loopAndStep.acyclic hasPlace_loopAndStep (empty target member)⟩
  rw [reparent_some (by decide) (by decide) outside, holds_attach, if_pos ⟨rfl, rfl⟩]
  decide

/-! A deletion and the creation that takes it back. -/

def Intact (workspace : Workspace) (id : String) : Prop :=
  ∀ low, ReflTransGen (fun parent child => ∃ slot, workspace.Holds parent slot child) id low →
    ∃ block, workspace.live? low = some block

theorem Tidy.intact (tidy : workspace.Tidy) (known : workspace.contains id = true)
    (alive : ∀ block ∈ workspace.blocks, block.deleted = false) : workspace.Intact id := by
  intro low path
  have knownLow : workspace.contains low = true := by
    rcases path.cases_tail with rfl | ⟨above, -, slot, holds⟩
    · exact known
    · exact tidy.held_known holds
  obtain ⟨block, found⟩ := contains_iff.1 knownLow
  exact ⟨block, live?_eq_some_iff.2 ⟨found, alive block (find?_eq_some_iff.1 found).1⟩⟩

theorem Consistent.exists_place (consistent : workspace.Consistent)
    (alive : workspace.live? id = some block) : ∃ place, workspace.HasPlace id place := by
  have found := (live?_eq_some_iff.1 alive).1
  cases named : block.parent with
  | none => exact ⟨none, ⟨block, found, named⟩, by simp⟩
  | some parent =>
      obtain ⟨slot, holds⟩ := consistent.holds_of_parent alive named
      refine ⟨some (parent, slot), ⟨block, found, named⟩, ?_⟩
      rintro _ _ ⟨⟩
      exact holds

theorem Depicts.exists_stored {root : Option String} {shape : Option Shape}
    (depicts : workspace.Depicts root shape) : ∀ head, root = some head → workspace.Intact head →
      ∃ spec : BlockSpec, spec.id = head ∧ workspace.Stores spec := by
  induction depicts with
  | missing => simp
  | gone dead =>
      rintro _ ⟨⟩ intact
      obtain ⟨block, alive⟩ := intact _ .refl
      rw [dead] at alive
      cases alive
  | @shown id block shapes found _ ih =>
      rintro _ ⟨⟩ intact
      have holds : ∀ entry ∈ block.children.entries, workspace.Holds id entry.1 entry.2 :=
        fun entry member => ⟨block, (live?_eq_some_iff.1 found).1,
          SortedMap.get?_eq_some_iff.2 member⟩
      -- One tree for each occupied slot.
      have below : ∀ entries ⊆ block.children.entries, ∃ children : List (Slot × BlockSpec),
          (children.map fun child => (child.1, child.2.id)) = entries ∧
            ∀ child ∈ children, workspace.Stores child.2 := by
        intro entries subset
        induction entries with
        | nil => exact ⟨[], rfl, by simp⟩
        | cons entry rest collect =>
            obtain ⟨member, restSubset⟩ := List.cons_subset.1 subset
            obtain ⟨slot, child⟩ := entry
            have held := holds _ member
            obtain ⟨tree, rfl, stores⟩ := ih slot child (SortedMap.get?_eq_some_iff.2 member)
              fun low path => intact low (.head ⟨slot, held⟩ path)
            obtain ⟨children, rfl, all⟩ := collect restSubset
            exact ⟨(slot, tree) :: children, rfl, List.forall_mem_cons.2 ⟨stores, all⟩⟩
      obtain ⟨children, slots, all⟩ := below _ (List.Subset.refl _)
      refine ⟨⟨id, block.type, block.fields, children⟩, rfl, ?_⟩
      intro tree member
      rcases BlockSpec.mem_blocks_iff.1 member with rfl | ⟨child, inSlot, inChild⟩
      · exact ⟨block, found, rfl, rfl, slots.symm⟩
      · exact all child inSlot tree inChild

theorem Stores.ids_subset (stores : workspace.Stores spec) : spec.ids ⊆ workspace.ids := by
  intro low member
  obtain ⟨tree, inTree, rfl⟩ := List.mem_map.1 member
  obtain ⟨stored, alive, -⟩ := stores tree inTree
  exact mem_ids_iff.2 (contains_iff.2 ⟨stored, (live?_eq_some_iff.1 alive).1⟩)

theorem Stores.find?_eq (stores : workspace.Stores spec) (tidy : workspace.Tidy)
    (treelike : workspace.Treelike) (stands : workspace.HasPlace spec.id place) {entry : BlockSpec × Place}
    (member : entry ∈ spec.placed place) :
    workspace.find? entry.1.id = some (placedBlock entry) := by
  obtain ⟨stored, alive, type, fields, slots⟩ :=
    stores entry.1 (BlockSpec.mem_blocks_of_mem_placed member)
  obtain ⟨found, notDeleted⟩ := live?_eq_some_iff.1 alive
  have children : SortedMap.ofList (entry.1.children.map fun child => (child.1, child.2.id)) =
      stored.children := by
    rw [← slots, SortedMap.ofList_entries]
  have parent : stored.parent = entry.2.map (·.1) := by
    rcases BlockSpec.eq_head_or_child member with rfl | ⟨above, aboveMember, slot, inSlot, under⟩
    · obtain ⟨same, foundSame, named⟩ := stands.parent
      obtain rfl := Option.some.inj (found.symm.trans foundSame)
      exact named
    · have storesAbove := stores.part (BlockSpec.mem_blocks_of_mem_placed aboveMember)
      rw [under]
      exact treelike.parent_of_holds (storesAbove.holds inSlot) found
  have top := tidy.top found
  rw [found, placedBlock, freshBlock, ← id_of_find? found, ← type, children, ← fields, ← parent,
    ← top, ← notDeleted]

theorem HasPlace.link_eq (stands : workspace.HasPlace id place) {other : String}
    (found : workspace.find? other = some block) : link place id block = block := by
  obtain _ | ⟨parent, slot⟩ := place
  · rfl
  by_cases atParent : block.id = parent
  · subst atParent
    obtain ⟨holder, foundHolder, held⟩ := stands.holds
    rw [id_of_find? found, found] at foundHolder
    obtain rfl := Option.some.inj foundHolder
    simp [link, SortedMap.insert_eq_self held]
  · simp [link, atParent]

/-- A deletion that finds nothing deleted below its block is undone by creating the tree that was
there in the old place of the block. There is such a tree and such a place. -/
theorem delete_undone (edited : Edited workspace) (consistent : workspace.Consistent)
    (intact : workspace.Intact id) :
    (∃ spec : BlockSpec, spec.id = id ∧ workspace.Stores spec) ∧
      (∃ place, workspace.HasPlace id place) ∧
      ∀ (spec : BlockSpec) (place : Place), spec.id = id → workspace.Stores spec →
        workspace.HasPlace id place → (workspace.delete id).insert spec place = workspace := by
  have treelike := consistent.treelike
  obtain ⟨block, alive⟩ := intact id .refl
  refine ⟨(workspace.shape?_depicts treelike id).exists_stored id rfl intact,
    consistent.exists_place alive, ?_⟩
  rintro spec place rfl stores stands
  have distinct := stores.distinct treelike
  have marked := stores.cascade_eq distinct.ids
  have fits : ∀ above ∈ place.map (·.1),
      above ∉ spec.ids ∧ (workspace.delete spec.id).contains above = true := by
    intro above named
    obtain ⟨⟨parent, slot⟩, rfl, rfl⟩ := Option.map_eq_some_iff.1 named
    obtain ⟨holder, found, -⟩ := stands.holds
    refine ⟨fun inTree => ?_, contains_delete.trans (contains_iff.2 ⟨holder, found⟩)⟩
    exact treelike.acyclic.not_below stands.parentLink (stores.below treelike parent inTree)
  refine ext_find? ?_ ?_
  · rw [ids_insert_eq, ids_delete, eraseDups_append_of_subset stores.ids_subset, eraseDups_ids]
  · intro other
    by_cases inTree : other ∈ spec.ids
    · obtain ⟨entry, member, rfl⟩ := BlockSpec.exists_of_mem_ids place inTree
      rw [find?_insert_of_mem distinct fits member,
        stores.find?_eq edited.tidy treelike stands member]
    · rw [find?_insert_of_not_mem fits inTree, find?_delete, marked]
      cases found : workspace.find? other with
      | none => rfl
      | some block =>
          simp [inTree, stands.link_eq found]

theorem delete_undone_loopAndStep : loopAndStep.Intact "r" ∧ loopAndStep.Stores loopTree ∧
    (loopAndStep.delete "r").live? "m" = none ∧
      (loopAndStep.delete "r").insert loopTree (some ("s", .next)) = loopAndStep := by
  have intact : loopAndStep.Intact "r" := edited_loopAndStep.tidy.intact (by decide) (by decide)
  have stores : loopAndStep.Stores loopTree := by
    have blocks : loopTree.blocks = [loopTree, .leaf "f" "forward",
        ⟨"n", "turn_right", ∅, [(.next, .leaf "m" "backward")]⟩, .leaf "m" "backward"] := rfl
    intro tree member
    simp only [blocks, List.mem_cons, List.not_mem_nil, or_false] at member
    rcases member with rfl | rfl | rfl | rfl <;> exact ⟨_, rfl, rfl, rfl, rfl⟩
  obtain ⟨-, -, undone⟩ := delete_undone edited_loopAndStep consistent_loopAndStep intact
  have marked := stores.cascade_eq (stores.nodup_ids consistent_loopAndStep.treelike)
  have gone : "m" ∈ loopAndStep.cascade "r" := by
    rw [show loopAndStep.cascade "r" = loopTree.ids from marked]
    decide
  exact ⟨intact, stores, by rw [live?_delete, if_pos gone],
    undone loopTree _ rfl stores hasPlace_loopAndStep⟩

end RobotPuzzle.Workspace
