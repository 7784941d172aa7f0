import RobotPuzzle.Proofs.Workspace.Links
import RobotPuzzle.Workspace.Shape

/-!
The shape of a block is the live tree below it: in a workspace whose links form trees, the builder
and its seen ids leave nothing out, and the late place of the next block is its place in slot order.
-/

namespace RobotPuzzle

theorem Slot.compare_next (slot : Slot) : compare Slot.next slot = compare 3 slot.rank := by
  cases slot <;> rfl

theorem Shape.withNext_eq_insertEntry {children : List (Slot × Shape)}
    (absent : ∀ entry ∈ children, entry.1 ≠ .next) (next : Shape) :
    Shape.withNext children (some next) = SortedMap.insertEntry .next next children := by
  induction children with
  | nil => rfl
  | cons first rest ih =>
      obtain ⟨place, shape⟩ := first
      rw [List.forall_mem_cons] at absent
      have tail := ih absent.2
      simp only [Shape.withNext] at tail ⊢
      simp only [SortedMap.insertEntry]
      split
      next isLt =>
        have later : ¬place.rank < Slot.next.rank := by
          rw [Slot.compare_next, Nat.compare_eq_lt] at isLt
          simp only [Slot.rank] at isLt ⊢
          omega
        simp [later]
      next isEq => exact absurd (Std.compare_eq_iff_eq.1 isEq).symm absent.1
      next isGt =>
        have earlier : place.rank < Slot.next.rank := by
          rw [Slot.compare_next, Nat.compare_eq_gt] at isGt
          exact isGt
        simp [earlier, tail]

namespace Workspace

/-- The shape that shows in a slot, read off the tree: a slot shows nothing when it is empty or its
block is deleted. -/
inductive Depicts (workspace : Workspace) : Option String → Option Shape → Prop
  | missing : Depicts workspace none none
  | gone {id} (dead : workspace.live? id = none) : Depicts workspace (some id) none
  | shown {id block} {children : SortedMap Slot Shape} (found : workspace.live? id = some block)
      (below : ∀ slot, Depicts workspace (block.children.get? slot) (children.get? slot)) :
      Depicts workspace (some id) (some ⟨block.shortType, block.shapeName, children.entries⟩)

variable {workspace : Workspace}

theorem Depicts.eq_none {shape : Option Shape} (depicts : workspace.Depicts none shape) :
    shape = none := by
  cases depicts
  rfl

structure Drawn (workspace : Workspace) (id : String) (seen : List String)
    (result : Option Shape × List String) : Prop where
  depicts : workspace.Depicts (some id) result.1
  grows : seen ⊆ result.2
  inside : ∀ low ∈ result.2, low ∈ seen ∨
    ∃ block, workspace.live? id = some block ∧ workspace.Below id low

structure DrawnAll (workspace : Workspace) (entries : List (Slot × String)) (seen : List String)
    (result : List (Slot × Shape) × List String) : Prop where
  ordered : result.1.Pairwise fun earlier later => compare earlier.1 later.1 = .lt
  depicts : ∀ slot, workspace.Depicts (entries.lookup slot) (result.1.lookup slot)
  grows : seen ⊆ result.2
  inside : ∀ low ∈ result.2, low ∈ seen ∨ ∃ slot id block, (slot, id) ∈ entries ∧
    workspace.live? id = some block ∧ workspace.Below id low

theorem lookup_slot_cons {ν : Type} (slot : Slot) (value : ν) (entries : List (Slot × ν))
    (other : Slot) : List.lookup other ((slot, value) :: entries) =
      if other = slot then some value else entries.lookup other := by
  by_cases here : other = slot
  · simp [here]
  · rw [List.lookup_cons, beq_false_of_ne here, if_neg here]

theorem DrawnAll.later {entries : List (Slot × String)} {seen : List String}
    {result : List (Slot × Shape) × List String} {slot : Slot}
    (drawn : workspace.DrawnAll entries seen result)
    (before : ∀ entry ∈ entries, compare slot entry.1 = .lt) :
    ∀ entry ∈ result.1, compare slot entry.1 = .lt := by
  intro entry member
  cases held : entries.lookup entry.1 with
  | none =>
      have hidden := (held ▸ drawn.depicts entry.1).eq_none
      simpa using List.lookup_eq_none_iff.1 hidden entry member
  | some id =>
      obtain ⟨front, back, split, -⟩ := List.lookup_eq_some_iff.1 held
      exact before (entry.1, id) (by simp [split])

theorem Drawn.cons {build : List String → String → Option Shape × List String} {slot : Slot}
    {id : String} {rest : List (Slot × String)} {seen : List String}
    (head : workspace.Drawn id seen (build seen id))
    (tail : workspace.DrawnAll rest (build seen id).2 (shapesOf build (build seen id).2 rest))
    (before : ∀ entry ∈ rest, compare slot entry.1 = .lt) :
    workspace.DrawnAll ((slot, id) :: rest) seen (shapesOf build seen ((slot, id) :: rest)) := by
  simp only [shapesOf]
  generalize build seen id = first at head tail ⊢
  obtain ⟨shape, more⟩ := first
  generalize shapesOf build more rest = others at tail ⊢
  obtain ⟨shapes, last⟩ := others
  have later := tail.later before
  have grows : seen ⊆ last := fun _ member => tail.grows (head.grows member)
  have inside : ∀ low ∈ last, low ∈ seen ∨ ∃ place child block,
      (place, child) ∈ (slot, id) :: rest ∧ workspace.live? child = some block ∧
        workspace.Below child low := by
    intro low member
    rcases tail.inside low member with early | ⟨place, child, block, inRest, found, below⟩
    · rcases head.inside low early with early | ⟨block, found, below⟩
      · exact .inl early
      · exact .inr ⟨slot, id, block, by simp, found, below⟩
    · exact .inr ⟨place, child, block, by simp [inRest], found, below⟩
  cases shape with
  | none =>
      refine ⟨tail.ordered, ?_, grows, inside⟩
      intro other
      rw [lookup_slot_cons]
      split
      next here =>
        subst here
        have absent : shapes.lookup other = none := by
          rw [List.lookup_eq_none_iff]
          intro entry member
          have different : other ≠ entry.1 := by
            rintro rfl
            simpa [Std.compare_self] using later entry member
          simpa using different
        rw [absent]
        exact head.depicts
      next => exact tail.depicts other
  | some shape =>
      refine ⟨List.pairwise_cons.2 ⟨later, tail.ordered⟩, ?_, grows, inside⟩
      intro other
      rw [lookup_slot_cons, lookup_slot_cons]
      split
      next => exact head.depicts
      next => exact tail.depicts other

theorem shapesOf_drawn {build : List String → String → Option Shape × List String}
    {entries : List (Slot × String)} (seen : List String)
    (ordered : entries.Pairwise fun earlier later => compare earlier.1 later.1 = .lt)
    (drawn : ∀ slot id more, (slot, id) ∈ entries → seen ⊆ more →
      (∀ low ∈ more, low ∈ seen ∨ ∃ other sibling block, other ≠ slot ∧
        (other, sibling) ∈ entries ∧ workspace.live? sibling = some block ∧
        workspace.Below sibling low) →
      workspace.Drawn id more (build more id)) :
    workspace.DrawnAll entries seen (shapesOf build seen entries) := by
  induction entries generalizing seen with
  | nil => exact ⟨.nil, fun _ => .missing, fun _ member => member, fun _ member => .inl member⟩
  | cons first rest ih =>
      obtain ⟨slot, id⟩ := first
      obtain ⟨before, ordered⟩ := List.pairwise_cons.1 ordered
      have head := drawn slot id seen (by simp) (fun _ member => member) fun _ => .inl
      have tail : workspace.DrawnAll rest (build seen id).2
          (shapesOf build (build seen id).2 rest) := by
        refine ih _ ordered ?_
        intro other child more member grows only
        refine drawn other child more (by simp [member])
          (fun _ known => grows (head.grows known)) ?_
        intro low lowMember
        have different : slot ≠ other := by
          rintro rfl
          simpa [Std.compare_self] using before _ member
        rcases only low lowMember with early | ⟨place, sibling, block, apart, inRest, found, below⟩
        · rcases head.inside low early with early | ⟨block, found, below⟩
          · exact .inl early
          · exact .inr ⟨slot, id, block, different, by simp, found, below⟩
        · exact .inr ⟨place, sibling, block, apart, by simp [inRest], found, below⟩
      exact head.cons tail before

theorem entries_erase_next {ν : Type} (children : SortedMap Slot ν) :
    (children.erase .next).entries = children.entries.filter fun entry => entry.1 != .next := by
  simp only [SortedMap.erase]
  refine List.filter_congr fun entry _ => ?_
  rw [Bool.eq_iff_iff, bne_iff_ne, bne_iff_ne, Ne, Ne, Std.compare_eq_iff_eq, eq_comm]

theorem mem_entries_erase_next {children : SortedMap Slot String} {slot : Slot} {id : String} :
    (slot, id) ∈ (children.erase .next).entries ↔
      slot ≠ .next ∧ children.get? slot = some id := by
  rw [← SortedMap.get?_eq_some_iff, SortedMap.get?_erase]
  by_cases isNext : slot = .next <;> simp [isNext]

theorem Depicts.block {id : String} {block : Block} {inner : List (Slot × Shape)}
    {next : Option Shape} (found : workspace.live? id = some block)
    (ordered : inner.Pairwise fun earlier later => compare earlier.1 later.1 = .lt)
    (others : ∀ slot, workspace.Depicts ((block.children.erase .next).entries.lookup slot)
      (inner.lookup slot))
    (nextShown : workspace.Depicts (block.children.get? .next) next) :
    workspace.Depicts (some id)
      (some ⟨block.shortType, block.shapeName, Shape.withNext inner next⟩) := by
  -- The other slots are in order already; putting the next block in keeps them so.
  let map : SortedMap Slot Shape := ⟨inner, ordered⟩
  have depicts : ∀ slot, workspace.Depicts
      (if slot = .next then none else block.children.get? slot) (map.get? slot) := by
    intro slot
    rw [← SortedMap.get?_erase, ← SortedMap.lookup_entries, ← SortedMap.lookup_entries]
    exact others slot
  have noNext : map.get? .next = none := (depicts .next).eq_none
  cases next with
  | none =>
      have shown : workspace.Depicts (some id)
          (some ⟨block.shortType, block.shapeName, map.entries⟩) := by
        refine .shown found fun slot => ?_
        by_cases isNext : slot = .next
        · subst isNext
          rw [noNext]
          exact nextShown
        · simpa [isNext] using depicts slot
      exact shown
  | some shape =>
      have absent : ∀ entry ∈ inner, entry.1 ≠ .next := by
        intro entry member isNext
        have held : map.get? entry.1 = some entry.2 := SortedMap.get?_eq_some_iff.2 member
        simp [isNext, noNext] at held
      have shown : workspace.Depicts (some id)
          (some ⟨block.shortType, block.shapeName, (map.insert .next shape).entries⟩) := by
        refine .shown found fun slot => ?_
        rw [SortedMap.get?_insert]
        by_cases isNext : slot = .next
        · simpa [isNext] using nextShown
        · simpa [isNext] using depicts slot
      rw [Shape.withNext_eq_insertEntry absent]
      exact shown

/-- The builder draws every block below which nothing has been seen, after at least `seen`. -/
def Draws (workspace : Workspace) (build : List String → String → Option Shape × List String)
    (seen : List String) : Prop :=
  ∀ id more, seen ⊆ more →
    (∀ block, workspace.live? id = some block → ∀ low, workspace.Below id low → low ∉ more) →
    workspace.Drawn id more (build more id)

section

variable {build : List String → String → Option Shape × List String} {id : String}
  {seen : List String} {block : Block}

theorem slots_drawn (treelike : workspace.Treelike) (found : workspace.live? id = some block)
    (unseen : ∀ low, workspace.Below id low → low ∉ seen)
    (draws : workspace.Draws build (id :: seen)) :
    workspace.DrawnAll (block.children.erase .next).entries (id :: seen)
      (shapesOf build (id :: seen) (block.children.erase .next).entries) := by
  have foundAny := (live?_eq_some_iff.1 found).1
  refine shapesOf_drawn _ (block.children.erase .next).ordered ?_
  intro slot child more member grows only
  have holds : workspace.Holds id slot child :=
    ⟨block, foundAny, (mem_entries_erase_next.1 member).2⟩
  refine draws child more grows ?_
  intro held alive
  refine treelike.child_unseen unseen holds alive ?_
  intro low lowMember
  rcases only low lowMember with early | ⟨other, sibling, siblingBlock, different, inSlots, rest⟩
  · exact (List.mem_cons.1 early).imp_right .inl
  · have siblingHolds : workspace.Holds id other sibling :=
      ⟨block, foundAny, (mem_entries_erase_next.1 inSlots).2⟩
    exact .inr (.inr ⟨other, sibling, siblingBlock, different, siblingHolds, rest⟩)

theorem next_drawn {result : List (Slot × Shape) × List String} {next : String}
    (treelike : workspace.Treelike) (found : workspace.live? id = some block)
    (unseen : ∀ low, workspace.Below id low → low ∉ seen)
    (draws : workspace.Draws build (id :: seen))
    (others : workspace.DrawnAll (block.children.erase .next).entries (id :: seen) result)
    (held : block.children.get? .next = some next) :
    workspace.Drawn next result.2 (build result.2 next) := by
  have foundAny := (live?_eq_some_iff.1 found).1
  refine draws next result.2 others.grows ?_
  intro nextBlock alive
  refine treelike.child_unseen unseen ⟨block, foundAny, held⟩ alive ?_
  intro low member
  rcases others.inside low member with early | ⟨slot, sibling, siblingBlock, inSlots, rest⟩
  · exact (List.mem_cons.1 early).imp_right .inl
  · obtain ⟨different, holds⟩ := mem_entries_erase_next.1 inSlots
    exact .inr (.inr ⟨slot, sibling, siblingBlock, different, ⟨block, foundAny, holds⟩, rest⟩)

theorem DrawnAll.inside_block {result : List (Slot × Shape) × List String}
    (treelike : workspace.Treelike) (found : workspace.live? id = some block)
    (others : workspace.DrawnAll (block.children.erase .next).entries (id :: seen) result) :
    ∀ low ∈ result.2, low ∈ seen ∨
      ∃ block, workspace.live? id = some block ∧ workspace.Below id low := by
  intro low member
  rcases others.inside low member with early | ⟨slot, child, held, inSlots, alive, below⟩
  · rcases List.mem_cons.1 early with rfl | before
    · exact .inr ⟨block, found, .refl⟩
    · exact .inl before
  · have holds := (mem_entries_erase_next.1 inSlots).2
    exact .inr ⟨block, found, treelike.below_child found holds alive below⟩

end

theorem shapeFrom_drawn (treelike : workspace.Treelike) (depth : Nat) (seen : List String)
    (id : String)
    (unseen : ∀ block, workspace.live? id = some block → ∀ low, workspace.Below id low → low ∉ seen)
    (room : workspace.unseen seen ≤ depth) :
    workspace.Drawn id seen (workspace.shapeFrom depth seen id) := by
  induction depth generalizing seen id with
  | zero =>
      cases found : workspace.live? id with
      | none => exact ⟨.gone found, fun _ member => member, fun _ member => .inl member⟩
      | some block =>
          -- A live block that has not been seen needs at least one level.
          have less := unseen_cons_lt (live?_eq_some_iff.1 found).1 (unseen block found id .refl)
          omega
  | succ depth ih =>
      simp only [shapeFrom]
      cases found : workspace.live? id with
      | none => exact ⟨.gone found, fun _ member => member, fun _ member => .inl member⟩
      | some block =>
          have fresh : id ∉ seen := unseen block found id .refl
          have less := unseen_cons_lt (live?_eq_some_iff.1 found).1 fresh
          have draws : workspace.Draws (workspace.shapeFrom depth) (id :: seen) := by
            intro child more grows clear
            have shrinks : workspace.unseen more ≤ workspace.unseen (id :: seen) :=
              unseen_le_of_subset grows
            exact ih more child clear (by omega)
          have others := slots_drawn treelike found (unseen block found) draws
          simp only [fresh, ↓reduceIte, ← entries_erase_next]
          generalize shapesOf (workspace.shapeFrom depth) (id :: seen)
            (block.children.erase .next).entries = result at others ⊢
          have grows : seen ⊆ result.2 := fun _ member => others.grows (by simp [member])
          have inside := others.inside_block treelike found
          cases held : block.children.get? .next with
          | none =>
              have hidden : workspace.Depicts (block.children.get? .next) none := by
                rw [held]
                exact .missing
              exact ⟨.block found others.ordered others.depicts hidden, grows, inside⟩
          | some next =>
              have drawn := next_drawn treelike found (unseen block found) draws others held
              have shown : workspace.Depicts (block.children.get? .next)
                  (workspace.shapeFrom depth result.2 next).1 := by
                rw [held]
                exact drawn.depicts
              refine ⟨.block found others.ordered others.depicts shown,
                fun _ member => drawn.grows (grows member), ?_⟩
              intro low member
              rcases drawn.inside low member with early | ⟨nextBlock, alive, below⟩
              · exact inside low early
              · exact .inr ⟨block, found, treelike.below_child found held alive below⟩

theorem shape?_depicts (treelike : workspace.Treelike) (id : String) :
    workspace.Depicts (some id) (workspace.shape? id) :=
  (shapeFrom_drawn treelike _ [] id (by simp) (unseen_le_length [])).depicts

end Workspace

end RobotPuzzle
