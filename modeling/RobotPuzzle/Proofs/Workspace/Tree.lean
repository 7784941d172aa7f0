import Mathlib.Data.List.Nodup
import RobotPuzzle.Proofs.Workspace.Links

/-! The blocks of a tree with their places, and the workspace after a tree was put into it. -/

namespace RobotPuzzle

/-- A slot of a parent, or none for a block that stands alone. -/
abbrev Place : Type := Option (String × Slot)

namespace BlockSpec

mutual

def placed (place : Place) : BlockSpec → List (BlockSpec × Place)
  | ⟨id, type, fields, children⟩ => (⟨id, type, fields, children⟩, place) :: placedBelow id children

def placedBelow (parent : String) : List (Slot × BlockSpec) → List (BlockSpec × Place)
  | [] => []
  | (slot, child) :: rest => child.placed (some (parent, slot)) ++ placedBelow parent rest

end

def blocks (spec : BlockSpec) : List BlockSpec := (spec.placed none).map (·.1)

def ids (spec : BlockSpec) : List String := spec.blocks.map (·.id)

structure Distinct (spec : BlockSpec) : Prop where
  ids : spec.ids.Nodup
  slots : ∀ block ∈ spec.blocks, (block.children.map (·.1)).Nodup

instance (spec : BlockSpec) : Decidable spec.Distinct :=
  decidable_of_iff
    (spec.ids.Nodup ∧ ∀ block ∈ spec.blocks, (block.children.map (·.1)).Nodup)
    ⟨fun ⟨ids, slots⟩ => ⟨ids, slots⟩, fun ⟨ids, slots⟩ => ⟨ids, slots⟩⟩

variable {spec : BlockSpec} {place : Place} {entry : BlockSpec × Place}

theorem placed_eq (spec : BlockSpec) (place : Place) :
    spec.placed place = (spec, place) :: placedBelow spec.id spec.children := by
  cases spec
  rw [placed]

theorem map_placed (spec : BlockSpec) (place : Place) :
    (spec.placed place).map (·.1) = spec.blocks := by
  simp [blocks, placed_eq]

theorem map_id_placed (spec : BlockSpec) (place : Place) :
    (spec.placed place).map (·.1.id) = spec.ids := by
  rw [ids, ← map_placed spec place, List.map_map]
  rfl

theorem mem_blocks_of_mem_placed (member : entry ∈ spec.placed place) : entry.1 ∈ spec.blocks := by
  rw [← map_placed spec place]
  exact List.mem_map_of_mem member

theorem mem_ids_of_mem_placed (member : entry ∈ spec.placed place) : entry.1.id ∈ spec.ids :=
  List.mem_map_of_mem (mem_blocks_of_mem_placed member)

theorem exists_of_mem_ids {id : String} (place : Place) (member : id ∈ spec.ids) :
    ∃ entry ∈ spec.placed place, entry.1.id = id := by
  rw [ids, ← map_placed spec place] at member
  simpa using member

theorem mem_placedBelow_iff {parent : String} {children : List (Slot × BlockSpec)} :
    entry ∈ placedBelow parent children ↔
      ∃ child ∈ children, entry ∈ child.2.placed (some (parent, child.1)) := by
  induction children with
  | nil => simp [placedBelow]
  | cons first rest ih => simp [placedBelow, ih]

theorem mem_placed_iff : entry ∈ spec.placed place ↔ entry = (spec, place) ∨
    ∃ child ∈ spec.children, entry ∈ child.2.placed (some (spec.id, child.1)) := by
  rw [placed_eq, List.mem_cons, mem_placedBelow_iff]

theorem head_mem_placed (spec : BlockSpec) (place : Place) : (spec, place) ∈ spec.placed place :=
  mem_placed_iff.2 (.inl rfl)

theorem id_mem_ids (spec : BlockSpec) : spec.id ∈ spec.ids :=
  mem_ids_of_mem_placed (spec.head_mem_placed none)

mutual

theorem induction {property : BlockSpec → Prop}
    (step : ∀ spec, (∀ child ∈ spec.children, property child.2) → property spec) :
    ∀ spec, property spec
  | ⟨_, _, _, children⟩ => step _ (induction_children step children)

theorem induction_children {property : BlockSpec → Prop}
    (step : ∀ spec, (∀ child ∈ spec.children, property child.2) → property spec) :
    ∀ children : List (Slot × BlockSpec), ∀ child ∈ children, property child.2
  | [] => by simp
  | (slot, first) :: rest => by
      rw [List.forall_mem_cons]
      exact ⟨induction step first, induction_children step rest⟩

end

theorem placed_induction (property : BlockSpec × Place → Prop)
    (below : ∀ above, property above → ∀ child ∈ above.1.children,
      property (child.2, some (above.1.id, child.1))) (spec : BlockSpec) :
    ∀ place, property (spec, place) → ∀ entry ∈ spec.placed place, property entry := by
  induction spec using induction with
  | step spec ih =>
      intro place head entry member
      rcases mem_placed_iff.1 member with rfl | ⟨child, inSlot, member⟩
      · exact head
      · exact ih child inSlot _ (below _ head child inSlot) entry member

theorem mem_placed_of_child (spec : BlockSpec) : ∀ place, ∀ above ∈ spec.placed place,
    ∀ child ∈ above.1.children, (child.2, some (above.1.id, child.1)) ∈ spec.placed place := by
  induction spec using induction with
  | step spec ih =>
      intro place above member child inSlot
      refine mem_placed_iff.2 (.inr ?_)
      rcases mem_placed_iff.1 member with rfl | ⟨next, nextInSlot, member⟩
      · exact ⟨child, inSlot, head_mem_placed _ _⟩
      · exact ⟨next, nextInSlot, ih next nextInSlot _ above member child inSlot⟩

theorem eq_head_or_child (member : entry ∈ spec.placed place) : entry = (spec, place) ∨
    ∃ above ∈ spec.placed place, ∃ slot, (slot, entry.1) ∈ above.1.children ∧
      entry.2 = some (above.1.id, slot) := by
  have both := placed_induction
    (fun entry => entry ∈ spec.placed place ∧ (entry = (spec, place) ∨
      ∃ above ∈ spec.placed place, ∃ slot, (slot, entry.1) ∈ above.1.children ∧
        entry.2 = some (above.1.id, slot)))
    (by
      intro above here child inSlot
      refine ⟨mem_placed_of_child spec place above here.1 child inSlot, .inr ?_⟩
      exact ⟨above, here.1, child.1, inSlot, rfl⟩)
    spec place ⟨head_mem_placed spec place, .inl rfl⟩ entry member
  exact both.2

theorem Distinct.eq_of_id (distinct : spec.Distinct) {other : BlockSpec × Place}
    (member : entry ∈ spec.placed place) (otherMember : other ∈ spec.placed place)
    (same : entry.1.id = other.1.id) : entry = other := by
  have nodup := distinct.ids
  rw [← map_id_placed spec place] at nodup
  exact List.inj_on_of_nodup_map nodup member otherMember same

theorem Distinct.eq_of_place (distinct : spec.Distinct) {other : BlockSpec × Place}
    (outside : ∀ above ∈ place.map (·.1), above ∉ spec.ids) (member : entry ∈ spec.placed place)
    (otherMember : other ∈ spec.placed place) (stands : entry.2 ≠ none)
    (same : entry.2 = other.2) : entry = other := by
  have apart : ∀ above ∈ spec.placed place, ∀ slot, place ≠ some (above.1.id, slot) := by
    rintro above aboveMember slot rfl
    exact outside above.1.id rfl (mem_ids_of_mem_placed aboveMember)
  rcases eq_head_or_child member with rfl | ⟨above, aboveMember, slot, inSlot, under⟩ <;>
    rcases eq_head_or_child otherMember with
      rfl | ⟨otherAbove, otherAboveMember, otherSlot, otherInSlot, otherUnder⟩
  · rfl
  · exact absurd (same.trans otherUnder) (apart otherAbove otherAboveMember otherSlot)
  · exact absurd (same.symm.trans under) (apart above aboveMember slot)
  · obtain ⟨sameAbove, rfl⟩ : above.1.id = otherAbove.1.id ∧ slot = otherSlot := by
      simpa [under, otherUnder] using same
    obtain rfl := distinct.eq_of_id aboveMember otherAboveMember sameAbove
    have sameEntry := List.inj_on_of_nodup_map
      (distinct.slots above.1 (mem_blocks_of_mem_placed aboveMember)) inSlot otherInSlot rfl
    exact Prod.ext (Prod.mk.inj sameEntry).2 same

end BlockSpec

namespace Workspace

variable {workspace : Workspace} {spec : BlockSpec} {place : Place} {entry : BlockSpec × Place}

def placedBlock (entry : BlockSpec × Place) : Block := freshBlock entry.1 (entry.2.map (·.1))

mutual

theorem putTree_eq_foldl (place : Place) : ∀ (spec : BlockSpec) (workspace : Workspace),
    workspace.putTree (place.map (·.1)) spec =
      (spec.placed place).foldl (fun workspace entry => workspace.put (placedBlock entry)) workspace
  | ⟨id, type, fields, children⟩, workspace => by
      rw [putTree, BlockSpec.placed, List.foldl_cons, putTrees_eq_foldl id children]
      rfl

theorem putTrees_eq_foldl (parent : String) :
    ∀ (children : List (Slot × BlockSpec)) (workspace : Workspace),
      workspace.putTrees parent children =
        (BlockSpec.placedBelow parent children).foldl
          (fun workspace entry => workspace.put (placedBlock entry)) workspace
  | [], _ => rfl
  | (slot, child) :: rest, workspace => by
      rw [putTrees, BlockSpec.placedBelow, List.foldl_append, putTrees_eq_foldl parent rest,
        ← putTree_eq_foldl (some (parent, slot)) child]
      rfl

end

theorem find?_foldl_put_of_not_mem {entries : List (BlockSpec × Place)} {id : String}
    (outside : ∀ entry ∈ entries, entry.1.id ≠ id) :
    (entries.foldl (fun workspace entry => workspace.put (placedBlock entry)) workspace).find? id =
      workspace.find? id := by
  induction entries generalizing workspace with
  | nil => rfl
  | cons first rest ih =>
      rw [List.forall_mem_cons] at outside
      rw [List.foldl_cons, ih outside.2, find?_put, if_neg]
      exact outside.1.symm

theorem find?_putTree_of_not_mem (workspace : Workspace) (place : Place) {id : String}
    (outside : id ∉ spec.ids) :
    (workspace.putTree (place.map (·.1)) spec).find? id = workspace.find? id := by
  rw [putTree_eq_foldl]
  refine find?_foldl_put_of_not_mem ?_
  rintro entry member rfl
  exact outside (BlockSpec.mem_ids_of_mem_placed member)

theorem find?_putTree_of_mem (workspace : Workspace) (distinct : spec.Distinct)
    (member : entry ∈ spec.placed place) :
    (workspace.putTree (place.map (·.1)) spec).find? entry.1.id = some (placedBlock entry) := by
  have nodup := distinct.ids
  rw [← BlockSpec.map_id_placed spec place] at nodup
  rw [putTree_eq_foldl]
  obtain ⟨before, after, split⟩ := List.append_of_mem member
  rw [split, List.map_append, List.map_cons, List.nodup_append, List.nodup_cons] at nodup
  rw [split, List.foldl_append, List.foldl_cons, find?_foldl_put_of_not_mem, find?_put]
  · simp [placedBlock, freshBlock]
  · intro other otherMember same
    exact nodup.2.1.1 (List.mem_map.2 ⟨other, otherMember, same⟩)

theorem get?_placedBlock {slot : Slot} {child : String} (distinct : spec.Distinct)
    (member : entry ∈ spec.placed place) :
    (placedBlock entry).children.get? slot = some child ↔
      ∃ below, (slot, below) ∈ entry.1.children ∧ below.id = child := by
  have slots := distinct.slots entry.1 (BlockSpec.mem_blocks_of_mem_placed member)
  have keys : ((entry.1.children.map fun child => (child.1, child.2.id)).map (·.1)).Nodup := by
    simpa [Function.comp_def] using slots
  simp [placedBlock, freshBlock, SortedMap.get?_ofList keys]

theorem holds_putTree (workspace : Workspace) (parent child : String) (slot : Slot)
    (distinct : spec.Distinct) (outside : ∀ above ∈ place.map (·.1), above ∉ spec.ids)
    (inTree : parent ∈ spec.ids) :
    (workspace.putTree (place.map (·.1)) spec).Holds parent slot child ↔
      ∃ entry ∈ spec.placed place, entry.1.id = child ∧ entry.2 = some (parent, slot) := by
  constructor
  · rintro ⟨block, found, held⟩
    obtain ⟨above, member, rfl⟩ := BlockSpec.exists_of_mem_ids place inTree
    rw [find?_putTree_of_mem workspace distinct member] at found
    obtain rfl := Option.some.inj found
    obtain ⟨below, inSlot, rfl⟩ := (get?_placedBlock distinct member).1 held
    exact ⟨_, BlockSpec.mem_placed_of_child spec place above member (slot, below) inSlot, rfl, rfl⟩
  · rintro ⟨entry, member, rfl, stands⟩
    rcases BlockSpec.eq_head_or_child member with rfl | ⟨above, aboveMember, other, inSlot, under⟩
    · exact absurd inTree (outside parent (by simp [show place = _ from stands]))
    · obtain ⟨rfl, rfl⟩ : above.1.id = parent ∧ other = slot := by simpa [stands] using under.symm
      exact ⟨_, find?_putTree_of_mem workspace distinct aboveMember,
        (get?_placedBlock distinct aboveMember).2 ⟨entry.1, inSlot, rfl⟩⟩

theorem holds_putTree_of_not_mem (workspace : Workspace) (place : Place) (parent child : String)
    (slot : Slot) (outside : parent ∉ spec.ids) :
    (workspace.putTree (place.map (·.1)) spec).Holds parent slot child ↔
      workspace.Holds parent slot child := by
  simp only [Holds, find?_putTree_of_not_mem workspace place outside]

theorem exists_placed_iff {parent child : String} {slot : Slot} (outside : parent ∉ spec.ids) :
    (∃ entry ∈ spec.placed place, entry.1.id = child ∧ entry.2 = some (parent, slot)) ↔
      place = some (parent, slot) ∧ child = spec.id := by
  constructor
  · rintro ⟨entry, member, rfl, stands⟩
    rcases BlockSpec.eq_head_or_child member with rfl | ⟨above, aboveMember, other, -, under⟩
    · exact ⟨stands, rfl⟩
    · obtain ⟨rfl, -⟩ : above.1.id = parent ∧ other = slot := by simpa [stands] using under.symm
      exact absurd (BlockSpec.mem_ids_of_mem_placed aboveMember) outside
  · rintro ⟨rfl, rfl⟩
    exact ⟨_, spec.head_mem_placed _, rfl, rfl⟩

/-- What a new tree with this head changes of the block it hangs on. -/
def link (place : Place) (child : String) (block : Block) : Block :=
  { block with
    children :=
      match place with
      | none => block.children
      | some (parent, slot) =>
        if block.id = parent then block.children.insert slot child else block.children }

section Insert

variable (distinct : spec.Distinct)
  (fits : ∀ above ∈ place.map (·.1), above ∉ spec.ids ∧ workspace.contains above = true)

include distinct fits

theorem find?_insert_of_mem (member : entry ∈ spec.placed place) :
    (workspace.insert spec place).find? entry.1.id = some (placedBlock entry) := by
  have found := find?_putTree_of_mem workspace distinct member
  obtain _ | ⟨parent, slot⟩ := place
  · exact found
  · obtain ⟨outside, known⟩ := fits parent rfl
    have below : entry.1.id ≠ parent := by
      rintro rfl
      exact outside (BlockSpec.mem_ids_of_mem_placed member)
    simp only [Option.map_some] at found
    simp only [insert, known, ↓reduceIte, find?_attach, found, Option.map_some, below]
    by_cases head : entry.1.id = spec.id
    · have same := distinct.eq_of_id member (spec.head_mem_placed _) head
      simp [same, placedBlock, freshBlock]
    · simp [head]

omit distinct in
theorem find?_insert_of_not_mem {id : String} (outside : id ∉ spec.ids) :
    (workspace.insert spec place).find? id = (workspace.find? id).map (link place spec.id) := by
  have kept := find?_putTree_of_not_mem workspace place outside
  obtain _ | ⟨parent, slot⟩ := place
  · have same : link none spec.id = fun block => block := rfl
    simpa [insert, same] using kept
  · obtain ⟨-, known⟩ := fits parent rfl
    have different : id ≠ spec.id := by
      rintro rfl
      exact outside spec.id_mem_ids
    simp only [Option.map_some] at kept
    simp only [insert, known, ↓reduceIte, find?_attach, kept, different]
    cases found : workspace.find? id with
    | none => rfl
    | some block =>
        obtain rfl := id_of_find? found
        rfl

theorem find?_insert_cases {id : String} {block : Block}
    (found : (workspace.insert spec place).find? id = some block) :
    (∃ entry ∈ spec.placed place, entry.1.id = id ∧ block = placedBlock entry) ∨
      ∃ old, workspace.find? id = some old ∧ block = link place spec.id old := by
  by_cases inTree : id ∈ spec.ids
  · obtain ⟨entry, member, rfl⟩ := BlockSpec.exists_of_mem_ids place inTree
    rw [find?_insert_of_mem distinct fits member] at found
    exact .inl ⟨entry, member, rfl, (Option.some.inj found).symm⟩
  · rw [find?_insert_of_not_mem fits inTree, Option.map_eq_some_iff] at found
    obtain ⟨old, foundOld, rfl⟩ := found
    exact .inr ⟨old, foundOld, rfl⟩

theorem contains_insert {id : String} : (workspace.insert spec place).contains id = true ↔
    id ∈ spec.ids ∨ workspace.contains id = true := by
  by_cases inTree : id ∈ spec.ids
  · obtain ⟨entry, member, rfl⟩ := BlockSpec.exists_of_mem_ids place inTree
    simp [contains, find?_insert_of_mem distinct fits member, inTree]
  · simp [contains, find?_insert_of_not_mem fits inTree, inTree]

theorem parentLink_insert {child parent : String} :
    (workspace.insert spec place).ParentLink child parent ↔
      (∃ entry ∈ spec.placed place, entry.1.id = child ∧ entry.2.map (·.1) = some parent) ∨
        child ∉ spec.ids ∧ workspace.ParentLink child parent := by
  by_cases inTree : child ∈ spec.ids
  · obtain ⟨entry, member, rfl⟩ := BlockSpec.exists_of_mem_ids place inTree
    have found : (workspace.insert spec place).find? entry.1.id = some (placedBlock entry) :=
      find?_insert_of_mem distinct fits member
    constructor
    · rintro ⟨block, foundSame, named⟩
      obtain rfl := Option.some.inj (found.symm.trans foundSame)
      exact .inl ⟨entry, member, rfl, named⟩
    · rintro (⟨other, otherMember, same, named⟩ | ⟨outside, -⟩)
      · obtain rfl := distinct.eq_of_id member otherMember same.symm
        exact ⟨_, found, named⟩
      · exact absurd inTree outside
  · have old : (workspace.insert spec place).ParentLink child parent ↔
        workspace.ParentLink child parent := by
      simp [ParentLink, find?_insert_of_not_mem fits inTree, link]
    rw [old]
    constructor
    · exact fun link => .inr ⟨inTree, link⟩
    · rintro (⟨entry, member, rfl, -⟩ | ⟨-, link⟩)
      · exact absurd (BlockSpec.mem_ids_of_mem_placed member) inTree
      · exact link

theorem holds_insert {parent child : String} {slot : Slot} :
    (workspace.insert spec place).Holds parent slot child ↔
      (∃ entry ∈ spec.placed place, entry.1.id = child ∧ entry.2 = some (parent, slot)) ∨
        parent ∉ spec.ids ∧ place ≠ some (parent, slot) ∧ workspace.Holds parent slot child := by
  have outside : ∀ above ∈ place.map (·.1), above ∉ spec.ids := fun above stands =>
    (fits above stands).1
  have inside := holds_putTree workspace parent child slot distinct outside
  have beside := @holds_putTree_of_not_mem spec workspace place parent child slot
  obtain _ | ⟨above, aboveSlot⟩ := place
  · by_cases inTree : parent ∈ spec.ids
    · simpa [insert, inTree] using inside inTree
    · simpa [insert, inTree, exists_placed_iff inTree] using beside inTree
  · obtain ⟨apart, known⟩ := fits above rfl
    have stays := find?_putTree_of_not_mem workspace (some (above, aboveSlot)) apart
    simp only [Option.map_some] at inside beside stays
    have stillKnown : (workspace.putTree (some above) spec).contains above = true := by
      simpa [contains, stays] using known
    simp only [insert, known, stillKnown, ↓reduceIte, holds_attach]
    by_cases inTree : parent ∈ spec.ids
    · have elsewhere : parent ≠ above := by
        rintro rfl
        exact apart inTree
      simp [inTree, elsewhere, inside inTree]
    · by_cases here : parent = above ∧ slot = aboveSlot
      · simp [here, exists_placed_iff apart]
      · have other : ¬(above = parent ∧ aboveSlot = slot) := by
          rintro ⟨rfl, rfl⟩
          exact here ⟨rfl, rfl⟩
        simp [inTree, here, other, exists_placed_iff inTree, beside inTree]

end Insert

theorem insert_of_unknown {parent : String} {slot : Slot}
    (unknown : workspace.contains parent = false) :
    workspace.insert spec (some (parent, slot)) = workspace.insert spec none := by
  simp [insert, unknown]

theorem exists_known_place (workspace : Workspace) (spec : BlockSpec) (place : Place) :
    ∃ known : Place, (∀ above ∈ known.map (·.1), workspace.contains above = true) ∧
      workspace.insert spec place = workspace.insert spec known ∧
      ∀ id, (workspace.find? id).map (link known spec.id) =
        (workspace.find? id).map (link place spec.id) := by
  obtain _ | ⟨parent, slot⟩ := place
  · exact ⟨none, by simp, rfl, fun _ => rfl⟩
  by_cases known : workspace.contains parent = true
  · exact ⟨some (parent, slot), by simpa using known, rfl, fun _ => rfl⟩
  · refine ⟨none, by simp, insert_of_unknown (by simpa using known), ?_⟩
    intro id
    cases found : workspace.find? id with
    | none => rfl
    | some block =>
        have different : block.id ≠ parent := by
          rintro rfl
          rw [id_of_find? found] at known
          exact known (contains_iff.2 ⟨block, found⟩)
        simp [link, different]

theorem find?_insert_of_fresh (fresh : ∀ id ∈ spec.ids, workspace.contains id = false)
    (place : Place) {id : String} (outside : id ∉ spec.ids) :
    (workspace.insert spec place).find? id = (workspace.find? id).map (link place spec.id) := by
  obtain ⟨known, target, same, links⟩ := workspace.exists_known_place spec place
  have fits : ∀ above ∈ known.map (·.1), above ∉ spec.ids ∧ workspace.contains above = true := by
    refine fun above stands => ⟨fun inTree => ?_, target above stands⟩
    simpa [fresh above inTree] using target above stands
  rw [same, find?_insert_of_not_mem fits outside, links]

end Workspace

end RobotPuzzle
