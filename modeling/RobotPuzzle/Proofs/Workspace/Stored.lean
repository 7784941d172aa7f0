import RobotPuzzle.Proofs.Workspace.Drawing
import RobotPuzzle.Proofs.Workspace.Tree

/-!
A tree as it lies in a workspace: every block of it live and holding those below it. A walk and the
builder that come to its head find the whole tree and nothing else, whatever other links there are.
-/

namespace RobotPuzzle

namespace BlockSpec

mutual

def inOrder : BlockSpec → BlockSpec
  | ⟨id, type, fields, children⟩ =>
    ⟨id, type, fields, SortedMap.sortEntries (inOrderBelow children)⟩

def inOrderBelow : List (Slot × BlockSpec) → List (Slot × BlockSpec)
  | [] => []
  | (slot, child) :: rest => (slot, child.inOrder) :: inOrderBelow rest

end

mutual

def toShape : BlockSpec → Shape
  | ⟨_, type, fields, children⟩ =>
    ⟨Shape.typeOf type, Shape.nameOf type fields, toShapes children⟩

def toShapes : List (Slot × BlockSpec) → List (Slot × Shape)
  | [] => []
  | (slot, child) :: rest => (slot, child.toShape) :: toShapes rest

end

variable {spec block : BlockSpec}

theorem toShape_eq (spec : BlockSpec) : spec.toShape =
    ⟨Shape.typeOf spec.type, Shape.nameOf spec.type spec.fields,
      spec.children.map fun child => (child.1, child.2.toShape)⟩ := by
  have below : ∀ children, toShapes children =
      children.map fun child => (child.1, child.2.toShape) := by
    intro children
    induction children with
    | nil => rfl
    | cons first rest ih => rw [toShapes, ih, List.map_cons]
  cases spec
  rw [toShape, below]

theorem children_inOrder (spec : BlockSpec) : spec.inOrder.children =
    SortedMap.sortEntries (spec.children.map fun child => (child.1, child.2.inOrder)) := by
  have below : ∀ children, inOrderBelow children =
      children.map fun child => (child.1, child.2.inOrder) := by
    intro children
    induction children with
    | nil => rfl
    | cons first rest ih => rw [inOrderBelow, ih, List.map_cons]
  cases spec
  rw [inOrder, below]

@[simp] theorem id_inOrder (spec : BlockSpec) : spec.inOrder.id = spec.id := by
  cases spec
  rw [inOrder]

@[simp] theorem type_inOrder (spec : BlockSpec) : spec.inOrder.type = spec.type := by
  cases spec
  rw [inOrder]

@[simp] theorem fields_inOrder (spec : BlockSpec) : spec.inOrder.fields = spec.fields := by
  cases spec
  rw [inOrder]

theorem children_inOrder_perm (spec : BlockSpec) : spec.inOrder.children.Perm
    (spec.children.map fun child => (child.1, child.2.inOrder)) := by
  rw [children_inOrder]
  exact SortedMap.sortEntries_perm _

theorem blocks_eq (spec : BlockSpec) :
    spec.blocks = spec :: spec.children.flatMap fun child => child.2.blocks := by
  have below : ∀ children, (placedBelow spec.id children).map (·.1) =
      children.flatMap fun child => child.2.blocks := by
    intro children
    induction children with
    | nil => rfl
    | cons first rest ih => rw [placedBelow, List.map_append, map_placed, ih, List.flatMap_cons]
  rw [blocks, placed_eq, List.map_cons, below]

theorem ids_eq (spec : BlockSpec) :
    spec.ids = spec.id :: spec.children.flatMap fun child => child.2.ids := by
  rw [ids, blocks_eq, List.map_cons, List.map_flatMap]
  rfl

theorem mem_blocks_iff : block ∈ spec.blocks ↔
    block = spec ∨ ∃ child ∈ spec.children, block ∈ child.2.blocks := by
  rw [blocks_eq, List.mem_cons, List.mem_flatMap]

theorem mem_blocks_trans {above below : BlockSpec} (member : above ∈ spec.blocks)
    (inside : below ∈ above.blocks) : below ∈ spec.blocks := by
  induction spec using induction with
  | step spec ih =>
      rcases mem_blocks_iff.1 member with rfl | ⟨child, inSlot, inChild⟩
      · exact inside
      · exact mem_blocks_iff.2 (.inr ⟨child, inSlot, ih child inSlot inChild⟩)

theorem ids_inOrder_perm (spec : BlockSpec) : spec.inOrder.ids.Perm spec.ids := by
  induction spec using induction with
  | step spec ih =>
      have below : (spec.inOrder.children.flatMap fun child => child.2.ids).Perm
          (spec.children.flatMap fun child => child.2.ids) := by
        refine (spec.children_inOrder_perm.flatMap_right _).trans ?_
        rw [List.flatMap_map]
        exact .flatMap_left _ ih
      rw [ids_eq, ids_eq spec, id_inOrder]
      exact below.cons _

theorem exists_of_mem_blocks_inOrder (spec : BlockSpec) :
    ∀ block ∈ spec.inOrder.blocks, ∃ other ∈ spec.blocks, block = other.inOrder := by
  induction spec using induction with
  | step spec ih =>
      intro block member
      rcases mem_blocks_iff.1 member with rfl | ⟨child, inSlot, inChild⟩
      · exact ⟨spec, mem_blocks_iff.2 (.inl rfl), rfl⟩
      · obtain ⟨original, isChild, rfl⟩ :=
          List.mem_map.1 (spec.children_inOrder_perm.mem_iff.1 inSlot)
        obtain ⟨other, isBlock, same⟩ := ih original isChild block inChild
        exact ⟨other, mem_blocks_iff.2 (.inr ⟨original, isChild, isBlock⟩), same⟩

theorem next_last_perm (children : List (Slot × BlockSpec)) :
    ((children.filter fun child => child.1 != .next) ++
      children.filter fun child => child.1 == .next).Perm children :=
  List.perm_append_comm.trans (List.filter_append_perm (·.1 == Slot.next) children)

end BlockSpec

namespace Workspace

variable {workspace : Workspace} {spec : BlockSpec} {keep : Block → Bool}
  {seen entered more : List String}

/-- Every block of the tree is live, with its own type and fields and with its slots filled as in
the tree. -/
def Stores (workspace : Workspace) (spec : BlockSpec) : Prop :=
  ∀ block ∈ spec.blocks, ∃ stored, workspace.live? block.id = some stored ∧
    stored.type = block.type ∧ stored.fields = block.fields ∧
    stored.children.entries = block.children.map fun child => (child.1, child.2.id)

theorem Stores.part (stores : workspace.Stores spec) {block : BlockSpec}
    (member : block ∈ spec.blocks) : workspace.Stores block :=
  fun low inside => stores low (BlockSpec.mem_blocks_trans member inside)

theorem Stores.child (stores : workspace.Stores spec) {child : Slot × BlockSpec}
    (inSlot : child ∈ spec.children) : workspace.Stores child.2 :=
  fun block member => stores block (BlockSpec.mem_blocks_iff.2 (.inr ⟨child, inSlot, member⟩))

theorem Stores.head (stores : workspace.Stores spec) : ∃ stored,
    workspace.live? spec.id = some stored ∧ stored.type = spec.type ∧
      stored.fields = spec.fields ∧
      stored.children.entries = spec.children.map fun child => (child.1, child.2.id) :=
  stores spec (BlockSpec.mem_blocks_iff.2 (.inl rfl))

theorem fresh_cons {id : String} {ids : List String} (apart : id ∉ ids)
    (fresh : ∀ low ∈ ids, low ∉ seen) : ∀ low ∈ ids, low ∉ id :: seen := by
  intro low member inSeen
  rcases List.mem_cons.1 inSeen with rfl | before
  · exact apart member
  · exact fresh low member before

theorem fresh_append {ids rest : List String} (inside : entered ⊆ ids)
    (disjoint : ids.Disjoint rest) (fresh : ∀ id ∈ rest, id ∉ seen) : ∀ id ∈ rest, id ∉ entered.reverse ++ seen := by
  intro id member inSeen
  rcases List.mem_append.1 inSeen with early | before
  · exact disjoint (inside (List.mem_reverse.1 early)) member
  · exact fresh id member before

/-- A walk that comes to these heads takes the ids, unless it has seen one of them, and goes on. -/
def Takes (workspace : Workspace) (keep : Block → Bool) (heads ids : List String) : Prop :=
  ∀ seen, (∀ id ∈ ids, id ∉ seen) → ∀ stack, workspace.walk keep seen (heads ++ stack) =
    ids ++ workspace.walk keep (ids.reverse ++ seen) stack

namespace Takes

variable {heads ids others rest : List String} {id : String} {block : Block}

theorem nil : workspace.Takes keep [] [] := fun _ _ _ => rfl

theorem append (first : workspace.Takes keep heads ids)
    (second : workspace.Takes keep others rest) (disjoint : ids.Disjoint rest) :
    workspace.Takes keep (heads ++ others) (ids ++ rest) := by
  intro seen fresh stack
  obtain ⟨freshFirst, freshSecond⟩ := List.forall_mem_append.1 fresh
  have later := fresh_append (List.Subset.refl ids) disjoint freshSecond
  rw [List.append_assoc, first seen freshFirst, second _ later]
  simp

theorem enter (found : workspace.find? id = some block) (kept : keep block = true)
    (below : workspace.Takes keep block.held ids) (apart : id ∉ ids) :
    workspace.Takes keep [id] (id :: ids) := by
  intro seen fresh stack
  obtain ⟨headFresh, freshBelow⟩ := List.forall_mem_cons.1 fresh
  rw [List.singleton_append, walk_enter headFresh found kept,
    below _ (fresh_cons apart freshBelow)]
  simp

theorem flatMap {α : Type} {items : List α} {head : α → String} {all : α → List String}
    (each : ∀ item ∈ items, workspace.Takes keep [head item] (all item))
    (distinct : (items.flatMap all).Nodup) :
    workspace.Takes keep (items.map head) (items.flatMap all) := by
  induction items with
  | nil => exact nil
  | cons first rest ih =>
      rw [List.forall_mem_cons] at each
      rw [List.flatMap_cons] at distinct ⊢
      obtain ⟨-, distinctRest, disjoint⟩ := List.nodup_append'.1 distinct
      exact each.1.append (ih each.2 distinctRest) disjoint

end Takes

theorem Stores.takes (stores : workspace.Stores spec) (distinct : spec.ids.Nodup)
    (keeps : ∀ block, block.deleted = false → keep block = true) :
    workspace.Takes keep [spec.id] spec.ids := by
  induction spec using BlockSpec.induction with
  | step spec ih =>
      obtain ⟨stored, found, -, -, slots⟩ := stores.head
      obtain ⟨known, alive⟩ := live?_eq_some_iff.1 found
      have held : stored.held = spec.children.map (·.2.id) := by
        rw [Block.held, SortedMap.values, slots, List.map_map]
        rfl
      rw [BlockSpec.ids_eq] at distinct ⊢
      obtain ⟨apart, distinctBelow⟩ := List.nodup_cons.1 distinct
      have each : ∀ child ∈ spec.children, workspace.Takes keep [child.2.id] child.2.ids :=
        fun child inSlot => ih child inSlot (stores.child inSlot)
          ((List.nodup_flatMap.1 distinctBelow).1 child inSlot)
      exact .enter known (keeps stored alive) (held ▸ .flatMap each distinctBelow) apart

theorem Takes.walk_eq {heads ids : List String} (takes : workspace.Takes keep heads ids) :
    workspace.walk keep [] heads = ids := by
  have all := takes [] (by simp) []
  rwa [List.append_nil, Workspace.walk, List.append_nil] at all

theorem Stores.descendants_eq (stores : workspace.Stores spec) (distinct : spec.ids.Nodup) :
    workspace.descendants spec.id = spec.ids := by
  refine (stores.takes distinct ?_).walk_eq
  intro block alive
  rw [alive, Bool.not_false]

theorem Stores.cascade_eq (stores : workspace.Stores spec) (distinct : spec.ids.Nodup) :
    workspace.cascade spec.id = spec.ids :=
  (stores.takes distinct fun _ _ => rfl).walk_eq

def Pictures (workspace : Workspace) (ids : List String) (entries : List (Slot × String))
    (shapes : List (Slot × Shape)) : Prop :=
  ∀ seen, (∀ id ∈ ids, id ∉ seen) → ∃ entered ⊆ ids, workspace.Builds seen entries shapes entered

theorem Builds.append {entries others : List (Slot × String)} {shapes later : List (Slot × Shape)}
    (builds : workspace.Builds seen entries shapes entered)
    (second : workspace.Builds (entered.reverse ++ seen) others later more) :
    workspace.Builds seen (entries ++ others) (shapes ++ later) (entered ++ more) := by
  induction builds with
  | done => exact second
  | pass passed _ ih => exact .pass passed (ih second)
  | enter found fresh slots chain _ _ _ ih =>
      have rest := ih (by simpa using second)
      simpa using Builds.enter found fresh slots chain rest

namespace Pictures

variable {ids rest : List String} {id : String} {block : Block} {slot : Slot}
  {entries others : List (Slot × String)} {shapes later inner next : List (Slot × Shape)}

theorem nil : workspace.Pictures [] [] [] := fun _ _ => ⟨[], List.Subset.refl _, .done⟩

theorem mono (pictures : workspace.Pictures ids entries shapes) (subset : ids ⊆ rest) :
    workspace.Pictures rest entries shapes := by
  intro seen fresh
  obtain ⟨entered, inside, builds⟩ := pictures seen fun id member => fresh id (subset member)
  exact ⟨entered, List.Subset.trans inside subset, builds⟩

theorem append (first : workspace.Pictures ids entries shapes)
    (second : workspace.Pictures rest others later) (disjoint : ids.Disjoint rest) :
    workspace.Pictures (ids ++ rest) (entries ++ others) (shapes ++ later) := by
  intro seen fresh
  obtain ⟨freshFirst, freshSecond⟩ := List.forall_mem_append.1 fresh
  obtain ⟨entered, inside, builds⟩ := first seen freshFirst
  obtain ⟨more, insideToo, buildsMore⟩ := second _ (fresh_append inside disjoint freshSecond)
  refine ⟨entered ++ more, ?_, builds.append buildsMore⟩
  exact List.append_subset.2 ⟨List.subset_append_of_subset_left _ inside,
    List.subset_append_of_subset_right _ insideToo⟩

theorem flatMap {α : Type} {items : List α} {entry : α → Slot × String} {shape : α → Slot × Shape}
    {all : α → List String}
    (each : ∀ item ∈ items, workspace.Pictures (all item) [entry item] [shape item])
    (distinct : (items.flatMap all).Nodup) :
    workspace.Pictures (items.flatMap all) (items.map entry) (items.map shape) := by
  induction items with
  | nil => exact nil
  | cons first rest ih =>
      rw [List.forall_mem_cons] at each
      rw [List.flatMap_cons] at distinct ⊢
      obtain ⟨-, distinctRest, disjoint⟩ := List.nodup_append'.1 distinct
      exact each.1.append (ih each.2 distinctRest) disjoint

theorem enter (found : workspace.live? id = some block)
    (slots : workspace.Pictures ids (block.children.erase .next).entries inner)
    (chain : workspace.Pictures rest (slotEntry block .next) next)
    (distinct : (id :: (ids ++ rest)).Nodup) :
    workspace.Pictures (id :: (ids ++ rest)) [(slot, id)] [(slot, ⟨block.shortType, block.shapeName,
      Shape.withNext inner (next.head?.map (·.2))⟩)] := by
  intro seen fresh
  obtain ⟨apart, distinctBelow⟩ := List.nodup_cons.1 distinct
  obtain ⟨-, -, disjoint⟩ := List.nodup_append'.1 distinctBelow
  obtain ⟨headFresh, freshBelow⟩ := List.forall_mem_cons.1 fresh
  obtain ⟨freshSlots, freshChain⟩ := List.forall_mem_append.1 (fresh_cons apart freshBelow)
  obtain ⟨below, inside, builds⟩ := slots _ freshSlots
  obtain ⟨behind, insideToo, buildsChain⟩ := chain _ (fresh_append inside disjoint freshChain)
  rw [entries_erase_next] at builds
  refine ⟨id :: (below ++ (behind ++ [])), ?_, .enter found headFresh builds buildsChain .done⟩
  rw [List.append_nil]
  exact List.cons_subset_cons _ (List.append_subset.2
    ⟨List.subset_append_of_subset_left _ inside, List.subset_append_of_subset_right _ insideToo⟩)

end Pictures

theorem withNext_filter {children : List (Slot × Shape)}
    (ordered : children.Pairwise fun earlier later => compare earlier.1 later.1 = .lt) :
    Shape.withNext (children.filter fun child => child.1 != .next)
      ((children.filter fun child => child.1 == .next).head?.map (·.2)) = children := by
  let map : SortedMap Slot Shape := ⟨children, ordered⟩
  have others : (map.erase .next).entries = children.filter fun child => child.1 != .next :=
    entries_erase_next map
  have absent : ∀ entry ∈ (map.erase .next).entries, entry.1 ≠ .next := by
    intro entry member
    rw [others, List.mem_filter] at member
    simpa using member.2
  have next : (children.filter fun child => child.1 == .next).head?.map (·.2) = map.get? .next := by
    rw [map.filter_entries .next]
    cases map.get? .next <;> rfl
  rw [← others, next]
  cases held : map.get? .next with
  | none => rw [Shape.withNext, SortedMap.erase_eq_self held]
  | some shape =>
      have same : (map.erase .next).insert .next shape = map := by
        rw [SortedMap.insert_erase, SortedMap.insert_eq_self held]
      rw [Shape.withNext_eq_insertEntry absent]
      exact congrArg SortedMap.entries same

section Slots

variable {stored : Block}

theorem erase_next_of_slots
    (slots : stored.children.entries = spec.children.map fun child => (child.1, child.2.id)) :
    (stored.children.erase .next).entries =
      (spec.children.filter fun child => child.1 != .next).map
        fun child => (child.1, child.2.id) := by
  rw [entries_erase_next, slots, List.filter_map]
  rfl

theorem slotEntry_next_of_slots
    (slots : stored.children.entries = spec.children.map fun child => (child.1, child.2.id)) :
    slotEntry stored .next =
      (spec.children.filter fun child => child.1 == .next).map
        fun child => (child.1, child.2.id) := by
  rw [slotEntry, ← SortedMap.filter_entries, slots, List.filter_map]
  rfl

theorem toShape_of_slots (type : stored.type = spec.type) (fields : stored.fields = spec.fields)
    (slots : stored.children.entries = spec.children.map fun child => (child.1, child.2.id)) :
    spec.toShape = ⟨stored.shortType, stored.shapeName, Shape.withNext
      ((spec.children.filter fun child => child.1 != .next).map
        fun child => (child.1, child.2.toShape))
      (((spec.children.filter fun child => child.1 == .next).map
        fun child => (child.1, child.2.toShape)).head?.map (·.2))⟩ := by
  have ordered : (spec.children.map fun child => (child.1, child.2.toShape)).Pairwise
      fun earlier later => compare earlier.1 later.1 = .lt := by
    have order := stored.children.ordered
    rw [slots, List.pairwise_map] at order
    exact List.pairwise_map.2 order
  have whole := withNext_filter ordered
  rw [List.filter_map, List.filter_map] at whole
  rw [BlockSpec.toShape_eq, Shape.shortType_eq_typeOf, Shape.shapeName_eq_nameOf, type, fields]
  exact congrArg _ whole.symm

end Slots

theorem Stores.pictures (stores : workspace.Stores spec) (distinct : spec.ids.Nodup) (slot : Slot) :
    workspace.Pictures spec.ids [(slot, spec.id)] [(slot, spec.toShape)] := by
  induction spec using BlockSpec.induction generalizing slot with
  | step spec ih =>
      obtain ⟨stored, found, type, fields, slots⟩ := stores.head
      rw [BlockSpec.ids_eq] at distinct
      have distinctBelow := (List.nodup_cons.1 distinct).2
      have each : ∀ child ∈ spec.children,
          workspace.Pictures child.2.ids [(child.1, child.2.id)] [(child.1, child.2.toShape)] :=
        fun child inSlot => ih child inSlot (stores.child inSlot)
          ((List.nodup_flatMap.1 distinctBelow).1 child inSlot) child.1
      -- The builder takes the next block last, wherever it stands among the children.
      have perm := (BlockSpec.next_last_perm spec.children).flatMap_right fun child => child.2.ids
      rw [List.flatMap_append] at perm
      have distinctSplit := (perm.cons spec.id).nodup_iff.2 distinct
      obtain ⟨distinctOthers, distinctNext, -⟩ :=
        List.nodup_append'.1 (List.nodup_cons.1 distinctSplit).2
      have others := Pictures.flatMap
        (fun child member => each child (List.mem_of_mem_filter member)) distinctOthers
      have next := Pictures.flatMap
        (fun child member => each child (List.mem_of_mem_filter member)) distinctNext
      rw [← erase_next_of_slots slots] at others
      rw [← slotEntry_next_of_slots slots] at next
      rw [BlockSpec.ids_eq, toShape_of_slots type fields slots]
      exact (Pictures.enter found others next distinctSplit).mono (perm.cons spec.id).subset

theorem Stores.shape?_eq (stores : workspace.Stores spec) (distinct : spec.ids.Nodup) :
    workspace.shape? spec.id = some spec.toShape := by
  obtain ⟨entered, -, builds⟩ := stores.pictures distinct .next [] (by simp)
  obtain ⟨_, -, draws⟩ := workspace.drawsTo_iff spec.id
  exact ((draws (some spec.toShape) entered).1 builds).1.symm

theorem Stores.holds (stores : workspace.Stores spec) {child : Slot × BlockSpec}
    (inSlot : child ∈ spec.children) : workspace.Holds spec.id child.1 child.2.id := by
  obtain ⟨stored, found, -, -, slots⟩ := stores.head
  refine ⟨stored, (live?_eq_some_iff.1 found).1, SortedMap.get?_eq_some_iff.2 ?_⟩
  rw [slots]
  exact List.mem_map.2 ⟨child, inSlot, rfl⟩

section Treelike

variable (treelike : workspace.Treelike)

include treelike

theorem Stores.parentLink (stores : workspace.Stores spec) {child : Slot × BlockSpec}
    (inSlot : child ∈ spec.children) : workspace.ParentLink child.2.id spec.id := by
  obtain ⟨stored, found, -⟩ := (stores.child inSlot).head
  exact treelike.parentLink (stores.holds inSlot) (live?_eq_some_iff.1 found).1

theorem Stores.below (stores : workspace.Stores spec) :
    ∀ low ∈ spec.ids, workspace.Below spec.id low := by
  induction spec using BlockSpec.induction with
  | step spec ih =>
      intro low member
      rw [BlockSpec.ids_eq, List.mem_cons, List.mem_flatMap] at member
      rcases member with rfl | ⟨child, inSlot, inChild⟩
      · exact .refl
      · exact (ih child inSlot (stores.child inSlot) low inChild).tail
          (stores.parentLink treelike inSlot)

theorem Stores.nodup_ids (stores : workspace.Stores spec) : spec.ids.Nodup := by
  induction spec using BlockSpec.induction with
  | step spec ih =>
      obtain ⟨stored, -, -, -, slots⟩ := stores.head
      rw [BlockSpec.ids_eq, List.nodup_cons, List.nodup_flatMap]
      refine ⟨?_, fun child inSlot => ih child inSlot (stores.child inSlot), ?_⟩
      · rw [List.mem_flatMap]
        rintro ⟨child, inSlot, again⟩
        exact treelike.acyclic.not_below (stores.parentLink treelike inSlot)
          ((stores.child inSlot).below treelike _ again)
      · have order := stored.children.ordered
        rw [slots, List.pairwise_map] at order
        refine order.imp_of_mem ?_
        intro first second inSlot otherInSlot isLt id member memberToo
        have different : first.2.id ≠ second.2.id := by
          intro same
          have sameSlot := (treelike.holds_unique (stores.holds inSlot)
            (same ▸ stores.holds otherInSlot)).2
          simp [sameSlot, Std.compare_self] at isLt
        exact treelike.acyclic.siblings_disjoint (stores.parentLink treelike inSlot)
          (stores.parentLink treelike otherInSlot) different
          ((stores.child inSlot).below treelike id member)
          ((stores.child otherInSlot).below treelike id memberToo)

theorem Stores.distinct (stores : workspace.Stores spec) : spec.Distinct := by
  refine ⟨stores.nodup_ids treelike, ?_⟩
  intro tree member
  obtain ⟨stored, -, -, -, slots⟩ := stores tree member
  have keys := stored.children.keys_nodup
  rw [slots, List.map_map] at keys
  exact keys

end Treelike

end Workspace

end RobotPuzzle
