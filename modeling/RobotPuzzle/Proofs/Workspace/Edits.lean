import RobotPuzzle.Proofs.Workspace.Orderly

/-!
Workspaces reached from the empty one by changes with whatever arguments: trees that use an id
twice, moves that name wrong places, blocks that come back. Some things hold even there.
-/

namespace RobotPuzzle

namespace Workspace

inductive Edited : Workspace → Prop
  | empty : Edited .empty
  | insert {workspace} (before : Edited workspace) (spec : BlockSpec) (place : Place) :
      Edited (workspace.insert spec place)
  | reparent {workspace} (before : Edited workspace) (id : String) (source target : Place) :
      Edited (workspace.reparent id source target)
  | setField {workspace} (before : Edited workspace) (id name : String) (value : Option String) :
      Edited (workspace.setField id name value)
  | delete {workspace} (before : Edited workspace) (id : String) : Edited (workspace.delete id)

structure Tidy (workspace : Workspace) : Prop where
  top : ∀ {id block}, workspace.find? id = some block → block.top = block.parent.isNone
  held_known : ∀ {parent slot child}, workspace.Holds parent slot child →
    workspace.contains child = true

variable {workspace after : Workspace} {id parent child : String} {slot : Slot} {place : Place}
  {block : Block}

theorem contains_foldl_put {entries : List (BlockSpec × Place)} :
    (entries.foldl (fun workspace entry => workspace.put (placedBlock entry)) workspace).contains
        id = true ↔
      workspace.contains id = true ∨ ∃ entry ∈ entries, entry.1.id = id := by
  induction entries generalizing workspace with
  | nil => simp
  | cons first rest ih =>
      rw [List.foldl_cons, ih, contains, find?_put]
      by_cases here : id = first.1.id
      · simp [placedBlock, freshBlock, here]
      · simp [placedBlock, freshBlock, here, Ne.symm here, contains]

theorem find?_foldl_put_cases {entries : List (BlockSpec × Place)}
    (found : (entries.foldl (fun workspace entry => workspace.put (placedBlock entry))
      workspace).find? id = some block) :
    workspace.find? id = some block ∨ ∃ entry ∈ entries, block = placedBlock entry := by
  induction entries generalizing workspace with
  | nil => exact .inl found
  | cons first rest ih =>
      rcases ih found with now | ⟨entry, member, same⟩
      · rw [find?_put] at now
        split at now
        · exact .inr ⟨first, List.mem_cons_self, (Option.some.inj now).symm⟩
        · exact .inl now
      · exact .inr ⟨entry, List.mem_cons_of_mem _ member, same⟩

namespace Tidy

theorem putTree (tidy : workspace.Tidy) (spec : BlockSpec) (place : Place) :
    (workspace.putTree (place.map (·.1)) spec).Tidy := by
  rw [putTree_eq_foldl]
  constructor
  · intro id block found
    rcases find?_foldl_put_cases found with old | ⟨entry, -, rfl⟩
    · exact tidy.top old
    · rfl
  · rintro parent slot child ⟨block, found, held⟩
    rw [contains_foldl_put]
    rcases find?_foldl_put_cases found with old | ⟨entry, member, rfl⟩
    · exact .inl (tidy.held_known ⟨block, old, held⟩)
    · -- What a block of the tree holds is another block of the tree.
      have listed := SortedMap.mem_of_mem_ofList (SortedMap.get?_eq_some_iff.1 held)
      obtain ⟨below, isChild, same⟩ := List.mem_map.1 listed
      have placed := BlockSpec.mem_placed_of_child spec place entry member below isChild
      exact .inr ⟨_, placed, (Prod.mk.inj same).2⟩

theorem attach (tidy : workspace.Tidy) (known : workspace.contains child = true) :
    (workspace.attach parent slot child).Tidy := by
  constructor
  · intro id block found
    rw [find?_attach, Option.map_eq_some_iff] at found
    obtain ⟨old, foundOld, rfl⟩ := found
    have top := tidy.top foundOld
    by_cases isChild : id = child <;> simp [isChild, top]
  · intro above otherSlot low holds
    rw [holds_attach] at holds
    rw [contains_attach]
    split at holds
    · exact holds.2 ▸ known
    · exact tidy.held_known holds

theorem takeOff (tidy : workspace.Tidy) : (workspace.takeOff id place).Tidy := by
  obtain _ | ⟨parent, slot⟩ := place
  · exact tidy
  · constructor
    · intro other block found
      rw [Workspace.takeOff, find?_detach, Option.map_eq_some_iff] at found
      obtain ⟨old, foundOld, rfl⟩ := found
      have top := tidy.top foundOld
      by_cases isTaken : other = id <;> simp [isTaken, top]
    · intro above otherSlot low holds
      rw [contains_takeOff]
      exact tidy.held_known (holds_detach.1 holds).1

theorem insert (tidy : workspace.Tidy) (spec : BlockSpec) (place : Place) :
    (workspace.insert spec place).Tidy := by
  obtain _ | ⟨parent, slot⟩ := place
  · exact tidy.putTree spec none
  · simp only [Workspace.insert]
    split
    · refine (tidy.putTree spec (some (parent, slot))).attach ?_
      rw [putTree_eq_foldl, contains_foldl_put]
      exact .inr ⟨_, spec.head_mem_placed _, rfl⟩
    · exact tidy.putTree spec none

theorem reparent (tidy : workspace.Tidy) (source target : Place) :
    (workspace.reparent id source target).Tidy := by
  have freed : (workspace.takeOff id source).Tidy := tidy.takeOff
  rcases workspace.reparent_cases id source target with
    ⟨-, same⟩ | ⟨known, same | ⟨parent, slot, -, -, -, same⟩⟩ <;> rw [same]
  · exact tidy
  · exact freed
  · exact freed.attach (contains_takeOff.trans known)

theorem setField (tidy : workspace.Tidy) (name : String) (value : Option String) :
    (workspace.setField id name value).Tidy := by
  constructor
  · intro other block found
    rw [find?_setField, Option.map_eq_some_iff] at found
    obtain ⟨old, foundOld, rfl⟩ := found
    have top : old.top = old.parent.isNone := tidy.top foundOld
    exact top
  · intro above slot low holds
    have known := tidy.held_known (holds_setField.1 holds)
    simpa [contains, find?_setField] using known

theorem delete (tidy : workspace.Tidy) : (workspace.delete id).Tidy := by
  constructor
  · intro other block found
    rw [find?_delete, Option.map_eq_some_iff] at found
    obtain ⟨old, foundOld, rfl⟩ := found
    have top : old.top = old.parent.isNone := tidy.top foundOld
    exact top
  · intro above slot low holds
    rw [contains_delete]
    exact tidy.held_known (holds_delete.1 holds)

end Tidy

theorem Edited.tidy (edited : Edited workspace) : workspace.Tidy := by
  induction edited with
  | empty => exact ⟨by simp, by simp [Holds]⟩
  | insert _ spec place ih => exact ih.insert spec place
  | reparent _ id source target ih => exact ih.reparent source target
  | setField _ id name value ih => exact ih.setField name value
  | delete _ id ih => exact ih.delete

def ParentsKnown (workspace : Workspace) : Prop :=
  ∀ child parent, workspace.ParentLink child parent → workspace.contains parent = true

namespace ParentsKnown

theorem putTree (known : workspace.ParentsKnown) (spec : BlockSpec)
    (target : ∀ above ∈ place.map (·.1), workspace.contains above = true) :
    (workspace.putTree (place.map (·.1)) spec).ParentsKnown := by
  rw [putTree_eq_foldl]
  rintro child parent ⟨block, found, named⟩
  rw [contains_foldl_put]
  rcases find?_foldl_put_cases found with old | ⟨entry, member, rfl⟩
  · exact .inl (known child parent ⟨block, old, named⟩)
  · rcases BlockSpec.eq_head_or_child member with rfl | ⟨above, aboveMember, slot, -, under⟩
    · exact .inl (target parent named)
    · obtain rfl : above.1.id = parent := by
        simpa [placedBlock, freshBlock, under] using named
      exact .inr ⟨above, aboveMember, rfl⟩

theorem attach (known : workspace.ParentsKnown) (target : workspace.contains parent = true) :
    (workspace.attach parent slot child).ParentsKnown := by
  intro low high link
  rw [contains_attach]
  rw [parentLink_attach] at link
  split at link
  · exact link.2 ▸ target
  · exact known low high link

theorem takeOff (known : workspace.ParentsKnown) : (workspace.takeOff id place).ParentsKnown := by
  obtain _ | ⟨parent, slot⟩ := place
  · exact known
  · intro low high link
    rw [contains_takeOff]
    exact known low high (parentLink_detach.1 link).2

theorem insert (known : workspace.ParentsKnown) (spec : BlockSpec) (place : Place) :
    (workspace.insert spec place).ParentsKnown := by
  have alone : (workspace.putTree none spec).ParentsKnown :=
    @putTree workspace none known spec (by simp)
  obtain _ | ⟨parent, slot⟩ := place
  · exact alone
  · simp only [Workspace.insert]
    split
    next target =>
      have stored := @putTree workspace (some (parent, slot)) known spec (by simpa using target)
      refine stored.attach ?_
      rw [putTree_eq_foldl, contains_foldl_put]
      exact .inl target
    next => exact alone

theorem reparent (known : workspace.ParentsKnown) (source target : Place) :
    (workspace.reparent id source target).ParentsKnown := by
  have freed : (workspace.takeOff id source).ParentsKnown := known.takeOff
  rcases workspace.reparent_cases id source target with
    ⟨-, same⟩ | ⟨-, same | ⟨parent, slot, -, inside, -, same⟩⟩ <;> rw [same]
  · exact known
  · exact freed
  · exact freed.attach inside

theorem of_same (known : workspace.ParentsKnown)
    (same : ∀ id, (after.find? id).map (·.parent) = (workspace.find? id).map (·.parent)) :
    after.ParentsKnown := by
  rintro child parent ⟨block, found, named⟩
  have before := same child
  rw [found, Option.map_some, eq_comm, Option.map_eq_some_iff] at before
  obtain ⟨old, foundOld, namedOld⟩ := before
  have target := known child parent ⟨old, foundOld, namedOld.trans named⟩
  have kept := congrArg Option.isSome (same parent)
  rw [Option.isSome_map, Option.isSome_map] at kept
  exact kept.trans target

theorem setField (known : workspace.ParentsKnown) (name : String) (value : Option String) :
    (workspace.setField id name value).ParentsKnown := by
  refine known.of_same fun other => ?_
  rw [find?_setField, Option.map_map]
  rfl

theorem delete (known : workspace.ParentsKnown) : (workspace.delete id).ParentsKnown := by
  refine known.of_same fun other => ?_
  rw [find?_delete, Option.map_map]
  rfl

end ParentsKnown

theorem Edited.parentsKnown (edited : Edited workspace) : workspace.ParentsKnown := by
  induction edited with
  | empty => simp [ParentsKnown, ParentLink]
  | insert _ spec place ih => exact ih.insert spec place
  | reparent _ id source target ih => exact ih.reparent source target
  | setField _ id name value ih => exact ih.setField name value
  | delete _ id ih => exact ih.delete

end Workspace

end RobotPuzzle
