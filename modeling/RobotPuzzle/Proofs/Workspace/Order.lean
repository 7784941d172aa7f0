import RobotPuzzle.Proofs.Duplicates
import RobotPuzzle.Proofs.Workspace.Orderly

/-!
The order of the blocks is that of their first appearance: changes keep it, and a tree of fresh ids
comes behind all that was there, each of its blocks before those below it.
-/

namespace RobotPuzzle

namespace BlockSpec

def Led (known : List String) : List (BlockSpec × Place) → Prop
  | [] => True
  | entry :: rest =>
    (∀ parent ∈ entry.2.map (·.1), parent ∈ known) ∧ Led (entry.1.id :: known) rest

variable {known more : List String} {entries others : List (BlockSpec × Place)}

theorem Led.mono (led : Led known entries) (subset : known ⊆ more) : Led more entries := by
  induction entries generalizing known more with
  | nil => trivial
  | cons first rest ih =>
      obtain ⟨stands, later⟩ := led
      exact ⟨fun parent named => subset (stands parent named),
        ih later (List.cons_subset_cons _ subset)⟩

theorem Led.append (led : Led known entries) (ledOthers : Led known others) :
    Led known (entries ++ others) := by
  induction entries generalizing known with
  | nil => exact ledOthers
  | cons first rest ih =>
      exact ⟨led.1, ih led.2 (ledOthers.mono (List.subset_cons_self _ _))⟩

theorem led_placed (spec : BlockSpec) : ∀ (place : Place) (known : List String),
    (∀ parent ∈ place.map (·.1), parent ∈ known) → Led known (spec.placed place) := by
  induction spec using induction with
  | step spec ih =>
      intro place known stands
      rw [placed_eq]
      refine ⟨stands, ?_⟩
      have below : ∀ children ⊆ spec.children,
          Led (spec.id :: known) (placedBelow spec.id children) := by
        intro children subset
        induction children with
        | nil => trivial
        | cons child rest shift =>
            obtain ⟨inSlot, restSubset⟩ := List.cons_subset.1 subset
            refine (ih child inSlot _ _ ?_).append (shift restSubset)
            simp
      exact below spec.children (List.Subset.refl _)

theorem Led.idxOf_lt {entry : BlockSpec × Place} {parent : String} (led : Led known entries)
    (distinct : (entries.map (·.1.id)).Nodup) (member : entry ∈ entries)
    (under : entry.2.map (·.1) = some parent) (new : parent ∉ known) :
    (entries.map (·.1.id)).idxOf parent < (entries.map (·.1.id)).idxOf entry.1.id := by
  induction entries generalizing known with
  | nil => simp at member
  | cons first rest ih =>
      obtain ⟨apart, distinctRest⟩ := List.nodup_cons.1 distinct
      rcases List.mem_cons.1 member with rfl | inRest
      · exact absurd (led.1 parent under) new
      · have different : first.1.id ≠ entry.1.id := fun same =>
          apart (List.mem_map.2 ⟨entry, inRest, same.symm⟩)
        rw [List.map_cons, List.idxOf_cons_ne _ different]
        by_cases here : first.1.id = parent
        · rw [here, List.idxOf_cons_self]
          omega
        · rw [List.idxOf_cons_ne _ here]
          have further := ih led.2 distinctRest inRest (by simp [new, Ne.symm here])
          omega

end BlockSpec

namespace Workspace

def liveIds (workspace : Workspace) : List String :=
  (workspace.blocks.filter fun block => !block.deleted).map (·.id)

variable {workspace : Workspace} {id : String} {spec : BlockSpec} {place : Place}

theorem mem_ids_iff : id ∈ workspace.ids ↔ workspace.contains id = true := by
  rw [← not_iff_not, ← contains_eq_false_iff, Bool.not_eq_true]

theorem mem_liveIds_iff : id ∈ workspace.liveIds ↔ ∃ block, workspace.live? id = some block := by
  simp only [liveIds, List.mem_map, List.mem_filter, Bool.not_eq_true', live?_eq_some_iff,
    find?_eq_some_iff]
  constructor
  · rintro ⟨block, ⟨member, alive⟩, same⟩
    exact ⟨block, ⟨member, same⟩, alive⟩
  · rintro ⟨block, ⟨member, same⟩, alive⟩
    exact ⟨block, ⟨member, alive⟩, same⟩

theorem nodup_liveIds (workspace : Workspace) : workspace.liveIds.Nodup :=
  workspace.distinct.sublist (List.filter_sublist.map _)

@[simp] theorem ids_map (workspace : Workspace) (change : Block → Block) :
    (workspace.map change).ids = workspace.ids := by
  simp [ids, map, Function.comp_def]

@[simp] theorem ids_update (workspace : Workspace) (target : String) (change : Block → Block) :
    (workspace.update target change).ids = workspace.ids :=
  workspace.ids_map _

@[simp] theorem ids_attach (workspace : Workspace) (parent : String) (slot : Slot)
    (child : String) : (workspace.attach parent slot child).ids = workspace.ids := by
  simp [attach]

@[simp] theorem ids_setField (workspace : Workspace) (target name : String)
    (value : Option String) : (workspace.setField target name value).ids = workspace.ids := by
  simp [setField]

@[simp] theorem ids_delete (workspace : Workspace) (target : String) :
    (workspace.delete target).ids = workspace.ids := by
  simp [delete]

@[simp] theorem ids_takeOff (workspace : Workspace) (target : String) (place : Place) :
    (workspace.takeOff target place).ids = workspace.ids := by
  obtain _ | ⟨parent, slot⟩ := place <;> simp [takeOff, detach]

@[simp] theorem ids_reparent (workspace : Workspace) (target : String) (source place : Place) :
    (workspace.reparent target source place).ids = workspace.ids := by
  rcases workspace.reparent_cases target source place with
    ⟨-, same⟩ | ⟨-, same | ⟨parent, slot, -, -, -, same⟩⟩ <;> rw [same]
  · rw [ids_takeOff]
  · rw [ids_attach, ids_takeOff]

@[simp] theorem contains_reparent (workspace : Workspace) (target : String)
    (source place : Place) (other : String) :
    (workspace.reparent target source place).contains other = workspace.contains other := by
  rw [Bool.eq_iff_iff, ← mem_ids_iff, ← mem_ids_iff, ids_reparent]

theorem ids_put (workspace : Workspace) (block : Block) : (workspace.put block).ids =
    if workspace.contains block.id = true then workspace.ids else workspace.ids ++ [block.id] := by
  simp only [put]
  split
  · simp
  · simp [ids]

theorem eraseDups_ids (workspace : Workspace) : workspace.ids.eraseDups = workspace.ids :=
  eraseDups_of_nodup workspace.distinct

theorem ids_putAll (workspace : Workspace) (entries : List (BlockSpec × Place)) :
    (entries.foldl (fun workspace entry => workspace.put (placedBlock entry)) workspace).ids =
      (workspace.ids ++ entries.map (·.1.id)).eraseDups := by
  induction entries generalizing workspace with
  | nil => simp [eraseDups_ids]
  | cons first rest ih =>
      have same : (placedBlock first).id = first.1.id := rfl
      rw [List.foldl_cons, ih, ids_put, List.map_cons, same]
      split
      next known => rw [eraseDups_append_of_mem (mem_ids_iff.2 known)]
      next => rw [List.append_assoc, List.singleton_append]

theorem ids_insert_eq (workspace : Workspace) (spec : BlockSpec) (place : Place) :
    (workspace.insert spec place).ids = (workspace.ids ++ spec.ids).eraseDups := by
  have tree : ∀ stands : Place, (workspace.putTree (stands.map (·.1)) spec).ids =
      (workspace.ids ++ spec.ids).eraseDups := by
    intro stands
    rw [putTree_eq_foldl, ids_putAll, BlockSpec.map_id_placed]
  obtain _ | ⟨parent, slot⟩ := place
  · exact tree none
  · have hung := tree (some (parent, slot))
    simp only [insert]
    split
    · rw [ids_attach]
      exact hung
    · exact tree none

theorem ids_insert (distinct : spec.ids.Nodup)
    (fresh : ∀ id ∈ spec.ids, workspace.contains id = false) (place : Place) :
    (workspace.insert spec place).ids = workspace.ids ++ spec.ids := by
  have apart : ∀ id ∈ workspace.ids, id ∉ spec.ids := fun id known inTree =>
    contains_eq_false_iff.1 (fresh id inTree) known
  rw [ids_insert_eq, eraseDups_of_nodup]
  exact List.nodup_append.2 ⟨workspace.distinct, distinct, fun id known other inTree same =>
    apart id known (same ▸ inTree)⟩

def ParentsFirst (workspace : Workspace) : Prop :=
  ∀ child parent, workspace.ParentLink child parent →
    workspace.ids.idxOf parent < workspace.ids.idxOf child

theorem ParentsFirst.insert (first : workspace.ParentsFirst) (orderly : workspace.Orderly)
    (distinct : spec.Distinct) (fresh : ∀ id ∈ spec.ids, workspace.contains id = false)
    (known : ∀ above ∈ place.map (·.1), workspace.contains above = true) :
    (workspace.insert spec place).ParentsFirst := by
  have old : ∀ id ∈ spec.ids, id ∉ workspace.ids := fun id inTree =>
    contains_eq_false_iff.1 (fresh id inTree)
  intro child parent link
  rw [ids_insert distinct.ids fresh place]
  rcases (parentLink_insert distinct (fits_of_fresh fresh known)).1 link with
    ⟨entry, member, rfl, named⟩ | ⟨-, oldLink⟩
  · have inTree := BlockSpec.mem_ids_of_mem_placed member
    rw [List.idxOf_append_of_notMem (old _ inTree)]
    by_cases isOld : parent ∈ workspace.ids
    · have bound := List.idxOf_lt_length_of_mem isOld
      rw [List.idxOf_append_of_mem isOld]
      omega
    · have led := BlockSpec.led_placed spec place workspace.ids fun above stands =>
        mem_ids_iff.2 (known above stands)
      have distinctIds := distinct.ids
      rw [← BlockSpec.map_id_placed spec place] at distinctIds
      have earlier := led.idxOf_lt distinctIds member named isOld
      rw [BlockSpec.map_id_placed] at earlier
      rw [List.idxOf_append_of_notMem isOld]
      omega
  · have isOld := mem_ids_iff.2 (orderly.parent_known oldLink)
    have isOldToo : child ∈ workspace.ids := by
      obtain ⟨block, found, -⟩ := oldLink
      exact mem_ids_iff.2 (contains_iff.2 ⟨block, found⟩)
    rw [List.idxOf_append_of_mem isOld, List.idxOf_append_of_mem isOldToo]
    exact first child parent oldLink

end Workspace

end RobotPuzzle
