import Mathlib.Logic.Relation
import RobotPuzzle.Proofs.SortedMap
import RobotPuzzle.Proofs.Workspace.Lookup

/-! Parent links and slots of a workspace, and what holds when the two ends agree. -/

namespace RobotPuzzle.Workspace

open Relation

def ParentLink (workspace : Workspace) (child parent : String) : Prop :=
  ∃ block, workspace.find? child = some block ∧ block.parent = some parent

def Below (workspace : Workspace) (root id : String) : Prop :=
  ReflTransGen workspace.ParentLink id root

def Acyclic (workspace : Workspace) : Prop := ∀ id, ¬TransGen workspace.ParentLink id id

def Holds (workspace : Workspace) (parent : String) (slot : Slot) (child : String) : Prop :=
  ∃ block, workspace.find? parent = some block ∧ block.children.get? slot = some child

/-- Parent links and slots agree, except that a deleted block may still name a parent that no
longer holds it. -/
structure Consistent (workspace : Workspace) : Prop where
  acyclic : workspace.Acyclic
  parent_of_holds : ∀ {parent slot child block}, workspace.Holds parent slot child →
    workspace.find? child = some block → block.parent = some parent
  holds_unique : ∀ {parent slot other otherSlot child}, workspace.Holds parent slot child →
    workspace.Holds other otherSlot child → parent = other ∧ slot = otherSlot
  holds_of_parent : ∀ {child block parent}, workspace.live? child = some block →
    block.parent = some parent → ∃ slot, workspace.Holds parent slot child

variable {workspace : Workspace}

theorem ParentLink.parent_eq {child parent : String} {block : Block}
    (link : workspace.ParentLink child parent) (found : workspace.find? child = some block) :
    block.parent = some parent := by
  obtain ⟨same, foundSame, named⟩ := link
  rw [Option.some.inj (found.symm.trans foundSame)]
  exact named

theorem ParentLink.unique {child parent other : String}
    (link : workspace.ParentLink child parent) (second : workspace.ParentLink child other) :
    parent = other := by
  obtain ⟨block, found, named⟩ := link
  obtain ⟨same, foundSame, namedOther⟩ := second
  simp_all

theorem Acyclic.not_below {child parent : String} (acyclic : workspace.Acyclic)
    (link : workspace.ParentLink child parent) : ¬workspace.Below child parent :=
  fun below => acyclic child (TransGen.head' link below)

theorem below_or_below {first second id : String} (below : workspace.Below first id)
    (belowToo : workspace.Below second id) :
    workspace.Below second first ∨ workspace.Below first second :=
  below.total_of_right_unique (fun _ _ _ link other => link.unique other) belowToo

theorem Acyclic.siblings_disjoint {first second parent id : String} (acyclic : workspace.Acyclic)
    (link : workspace.ParentLink first parent) (other : workspace.ParentLink second parent)
    (different : first ≠ second) (below : workspace.Below first id) :
    ¬workspace.Below second id := by
  have apart : ∀ {low high}, workspace.ParentLink low parent → workspace.ParentLink high parent →
      low ≠ high → ¬workspace.Below high low := by
    intro low high lowLink highLink unequal climb
    rcases climb.cases_head with same | ⟨next, step, rest⟩
    · exact unequal same
    · rw [step.unique lowLink] at rest
      exact acyclic.not_below highLink rest
  intro belowToo
  rcases below_or_below below belowToo with climb | climb
  · exact apart link other different climb
  · exact apart other link different.symm climb

theorem Below.eq_of_no_parent {root id : String} {block : Block}
    (found : workspace.find? id = some block) (alone : block.parent = none)
    (below : workspace.Below root id) : id = root := by
  rcases below.cases_head with same | ⟨next, ⟨linked, foundLinked, named⟩, -⟩
  · exact same
  · simp_all

theorem Below.root_unique {first second id : String} {firstBlock secondBlock : Block}
    (foundFirst : workspace.find? first = some firstBlock) (firstAlone : firstBlock.parent = none)
    (foundSecond : workspace.find? second = some secondBlock)
    (secondAlone : secondBlock.parent = none) (below : workspace.Below first id)
    (belowToo : workspace.Below second id) : first = second := by
  rcases below_or_below below belowToo with climb | climb
  · exact climb.eq_of_no_parent foundFirst firstAlone
  · exact (climb.eq_of_no_parent foundSecond secondAlone).symm

/-- Parent links make no cycle, and a block that a slot holds names the slot's block as its parent
and sits in no other slot. -/
structure Treelike (workspace : Workspace) : Prop where
  acyclic : workspace.Acyclic
  parent_of_holds : ∀ {parent slot child block}, workspace.Holds parent slot child →
    workspace.find? child = some block → block.parent = some parent
  holds_unique : ∀ {parent slot other otherSlot child}, workspace.Holds parent slot child →
    workspace.Holds other otherSlot child → parent = other ∧ slot = otherSlot

theorem Consistent.treelike (consistent : workspace.Consistent) : workspace.Treelike :=
  ⟨consistent.acyclic, consistent.parent_of_holds, consistent.holds_unique⟩

theorem Treelike.parentLink {parent child : String} {slot : Slot} {block : Block}
    (treelike : workspace.Treelike) (holds : workspace.Holds parent slot child)
    (found : workspace.find? child = some block) : workspace.ParentLink child parent :=
  ⟨block, found, treelike.parent_of_holds holds found⟩

theorem Treelike.below_child {id child low : String} {slot : Slot} {block held : Block}
    (treelike : workspace.Treelike) (found : workspace.live? id = some block)
    (holds : block.children.get? slot = some child) (alive : workspace.live? child = some held)
    (below : workspace.Below child low) : workspace.Below id low :=
  below.tail (treelike.parentLink ⟨block, (live?_eq_some_iff.1 found).1, holds⟩
    (live?_eq_some_iff.1 alive).1)

theorem Consistent.parentLink {parent child : String} {slot : Slot} {block : Block}
    (consistent : workspace.Consistent) (holds : workspace.Holds parent slot child)
    (found : workspace.find? child = some block) : workspace.ParentLink child parent :=
  consistent.treelike.parentLink holds found

theorem Treelike.child_unseen {seen more : List String} {id child : String} {slot : Slot}
    {held : Block} (treelike : workspace.Treelike)
    (unseen : ∀ low, workspace.Below id low → low ∉ seen) (holds : workspace.Holds id slot child)
    (foundChild : workspace.live? child = some held)
    (only : ∀ low ∈ more, low = id ∨ low ∈ seen ∨ ∃ otherSlot sibling siblingBlock,
      otherSlot ≠ slot ∧ workspace.Holds id otherSlot sibling ∧
      workspace.live? sibling = some siblingBlock ∧ workspace.Below sibling low) :
    ∀ low, workspace.Below child low → low ∉ more := by
  have link := treelike.parentLink holds (live?_eq_some_iff.1 foundChild).1
  intro low below member
  rcases only low member with rfl | earlier | ⟨otherSlot, sibling, siblingBlock, otherPlace,
    siblingHolds, foundSibling, belowSibling⟩
  · exact treelike.acyclic.not_below link below
  · exact unseen low (below.tail link) earlier
  · have siblingLink := treelike.parentLink siblingHolds (live?_eq_some_iff.1 foundSibling).1
    have different : child ≠ sibling := by
      rintro rfl
      exact otherPlace (treelike.holds_unique siblingHolds holds).2
    exact treelike.acyclic.siblings_disjoint link siblingLink different below belowSibling

theorem holds_iff {parent child : String} {slot : Slot} : workspace.Holds parent slot child ↔
    ∃ block ∈ workspace.blocks, block.id = parent ∧ (slot, child) ∈ block.children.entries := by
  simp [Holds, find?_eq_some_iff, SortedMap.get?_eq_some_iff, and_assoc]

theorem holds_attach {parent child other : String} {slot otherSlot : Slot} {id : String} :
    (workspace.attach parent slot child).Holds other otherSlot id ↔
      if other = parent ∧ otherSlot = slot then
        workspace.contains parent = true ∧ id = child
      else workspace.Holds other otherSlot id := by
  simp only [Holds, find?_attach, contains_iff]
  by_cases here : other = parent ∧ otherSlot = slot
  · obtain ⟨rfl, rfl⟩ := here
    cases found : workspace.find? other <;> simp [eq_comm]
  · rw [if_neg here]
    cases found : workspace.find? other with
    | none => simp
    | some block =>
        by_cases atParent : other = parent
        · have otherKey : otherSlot ≠ slot := fun same => here ⟨atParent, same⟩
          simp [atParent, SortedMap.get?_insert, otherKey]
        · simp [atParent]

theorem holds_detach {child parent other : String} {slot otherSlot : Slot} {id : String} :
    (workspace.detach child parent slot).Holds other otherSlot id ↔
      workspace.Holds other otherSlot id ∧ ¬(other = parent ∧ otherSlot = slot ∧ id = child) := by
  simp only [Holds, find?_detach]
  cases found : workspace.find? other with
  | none => simp
  | some block =>
      simp only [Option.map_some, Option.some.injEq, exists_eq_left']
      by_cases emptied : other = parent ∧ block.children.get? slot = some child
      · obtain ⟨rfl, held⟩ := emptied
        by_cases atSlot : otherSlot = slot
        · subst atSlot
          simp [held, SortedMap.get?_erase, eq_comm]
        · simp [held, SortedMap.get?_erase, atSlot]
      · rw [if_neg emptied, iff_self_and]
        rintro held ⟨rfl, rfl, rfl⟩
        exact emptied ⟨rfl, held⟩

@[simp] theorem holds_setField {id name parent child : String} {value : Option String}
    {slot : Slot} : (workspace.setField id name value).Holds parent slot child ↔
      workspace.Holds parent slot child := by
  simp only [Holds, find?_setField]
  cases workspace.find? parent <;> simp

@[simp] theorem holds_delete {id parent child : String} {slot : Slot} :
    (workspace.delete id).Holds parent slot child ↔ workspace.Holds parent slot child := by
  simp only [Holds, find?_delete]
  cases workspace.find? parent <;> simp

@[simp] theorem parentLink_delete {id parent child : String} :
    (workspace.delete id).ParentLink child parent ↔ workspace.ParentLink child parent := by
  simp only [ParentLink, find?_delete]
  cases workspace.find? child <;> simp

theorem Acyclic.of_rank (rank : String → Nat)
    (descends : ∀ child parent, workspace.ParentLink child parent → rank parent < rank child) :
    workspace.Acyclic := by
  intro id cycle
  have below : ∀ low high, TransGen workspace.ParentLink low high → rank high < rank low := by
    intro low high path
    induction path with
    | single link => exact descends _ _ link
    | tail _ link ih => exact Nat.lt_trans (descends _ _ link) ih
  exact Nat.lt_irrefl _ (below id id cycle)

/-- Consistency by looking at every block and every slot, given an order of the ids. -/
theorem Consistent.of_blocks (order : List String)
    (parents : ∀ block ∈ workspace.blocks, ∀ parent ∈ block.parent,
      order.idxOf parent < order.idxOf block.id)
    (slots : ∀ block ∈ workspace.blocks, ∀ entry ∈ block.children.entries,
      ∀ child ∈ workspace.blocks, child.id = entry.2 → child.parent = some block.id)
    (single : ∀ block ∈ workspace.blocks, ∀ entry ∈ block.children.entries,
      ∀ other ∈ workspace.blocks, ∀ otherEntry ∈ other.children.entries,
        entry.2 = otherEntry.2 → block.id = other.id ∧ entry.1 = otherEntry.1)
    (attached : ∀ child ∈ workspace.blocks, child.deleted = false → ∀ parent ∈ child.parent,
      ∃ block ∈ workspace.blocks, block.id = parent ∧
        ∃ entry ∈ block.children.entries, entry.2 = child.id) :
    workspace.Consistent where
  acyclic := by
    refine .of_rank order.idxOf ?_
    rintro child parent ⟨block, found, named⟩
    obtain ⟨member, rfl⟩ := find?_eq_some_iff.1 found
    exact parents block member parent named
  parent_of_holds := by
    intro parent slot child held holds found
    obtain ⟨block, member, rfl, entry⟩ := holds_iff.1 holds
    obtain ⟨heldMember, rfl⟩ := find?_eq_some_iff.1 found
    exact slots block member _ entry held heldMember rfl
  holds_unique := by
    intro parent slot other otherSlot child holds holdsToo
    obtain ⟨block, member, rfl, entry⟩ := holds_iff.1 holds
    obtain ⟨otherBlock, otherMember, rfl, otherEntry⟩ := holds_iff.1 holdsToo
    exact single block member _ entry otherBlock otherMember _ otherEntry rfl
  holds_of_parent := by
    intro child held parent alive named
    obtain ⟨found, notDeleted⟩ := live?_eq_some_iff.1 alive
    obtain ⟨heldMember, rfl⟩ := find?_eq_some_iff.1 found
    obtain ⟨block, member, rfl, entry, entryMember, same⟩ :=
      attached held heldMember notDeleted parent named
    exact ⟨entry.1, holds_iff.2 ⟨block, member, rfl, same ▸ entryMember⟩⟩

/-- The way up leads to a live entry block through live blocks. -/
inductive Rooted (workspace : Workspace) : String → Prop
  | entry {id block} (found : workspace.live? id = some block) (start : block.kind = .start) :
      Rooted workspace id
  | under {id block parent} (found : workspace.live? id = some block)
      (named : block.parent = some parent) (above : Rooted workspace parent) :
      Rooted workspace id

/-- The first entry block on the way up is that many steps away. -/
inductive Climb (workspace : Workspace) : Nat → String → Prop
  | entry {id block} (found : workspace.live? id = some block) (start : block.kind = .start) :
      Climb workspace 0 id
  | under {steps id block parent} (found : workspace.live? id = some block)
      (notStart : block.kind ≠ .start) (named : block.parent = some parent)
      (above : Climb workspace steps parent) : Climb workspace (steps + 1) id

theorem Rooted.exists_climb {id : String} (rooted : workspace.Rooted id) :
    ∃ steps, workspace.Climb steps id := by
  induction rooted with
  | entry found start => exact ⟨0, .entry found start⟩
  | @under id block parent found named above ih =>
      obtain ⟨steps, climb⟩ := ih
      by_cases start : block.kind = .start
      · exact ⟨0, .entry found start⟩
      · exact ⟨steps + 1, .under found start named climb⟩

theorem Climb.unique {steps other : Nat} {id : String} (climb : workspace.Climb steps id)
    (second : workspace.Climb other id) : steps = other := by
  induction climb generalizing other with
  | entry found start =>
      cases second with
      | entry => rfl
      | under foundSame notStart =>
          obtain rfl := Option.some.inj (found.symm.trans foundSame)
          exact absurd start notStart
  | under found notStart named above ih =>
      cases second with
      | entry foundSame start =>
          obtain rfl := Option.some.inj (found.symm.trans foundSame)
          exact absurd start notStart
      | under foundSame _ namedSame otherAbove =>
          obtain rfl := Option.some.inj (found.symm.trans foundSame)
          obtain rfl := Option.some.inj (named.symm.trans namedSame)
          rw [ih otherAbove]

/-- A way up that ends at an entry block passes no block twice before it, whatever the links of
other blocks are. -/
theorem Climb.climbs {steps : Nat} {id : String} (climb : workspace.Climb steps id) :
    ∀ seen : List String, (∀ low ∈ seen, ∃ more, steps < more ∧ workspace.Climb more low) →
      workspace.climbs seen id = true := by
  induction climb with
  | entry found start =>
      intro seen _
      obtain ⟨found, alive⟩ := live?_eq_some_iff.1 found
      rw [Workspace.climbs]
      split <;> simp_all
  | @under steps id block parent found notStart named above ih =>
      intro seen below
      have fresh : id ∉ seen := by
        intro member
        obtain ⟨more, further, other⟩ := below id member
        exact absurd (other.unique (.under found notStart named above)) (by omega)
      have climbed : workspace.climbs (id :: seen) parent = true := by
        refine ih (id :: seen) ?_
        intro low member
        rcases List.mem_cons.1 member with rfl | earlier
        · exact ⟨steps + 1, by omega, .under found notStart named above⟩
        · obtain ⟨more, further, other⟩ := below low earlier
          exact ⟨more, by omega, other⟩
      obtain ⟨found, alive⟩ := live?_eq_some_iff.1 found
      rw [Workspace.climbs]
      split
      · simp_all
      · rename_i same foundSame
        obtain rfl : same = block := by simpa [found] using foundSame.symm
        simp only [alive, Bool.false_eq_true, notStart, fresh, ↓reduceIte, ↓reduceDIte]
        split
        · simp_all
        · rename_i next namedNext
          obtain rfl : next = parent := by simpa [named] using namedNext.symm
          exact climbed

theorem Rooted.isConnected {id : String} (rooted : workspace.Rooted id) :
    workspace.isConnected id = true := by
  obtain ⟨steps, climb⟩ := rooted.exists_climb
  exact climb.climbs [] (by simp)

end RobotPuzzle.Workspace
