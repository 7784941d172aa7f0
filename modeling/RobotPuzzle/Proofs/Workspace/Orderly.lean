import RobotPuzzle.Proofs.Workspace.Moves

/-!
What inserts and moves keep of the trees of a workspace, and which blocks they set adrift: a block
whose slot is given to another one still has its parent, which no longer holds it.
-/

namespace RobotPuzzle.Workspace

/-- The block names a parent that holds it in no slot. -/
def Adrift (workspace : Workspace) (id : String) : Prop :=
  ∃ parent, workspace.ParentLink id parent ∧ ∀ slot, ¬workspace.Holds parent slot id

structure Orderly (workspace : Workspace) : Prop extends workspace.Treelike where
  alive : ∀ {id block}, workspace.find? id = some block → block.deleted = false
  top : ∀ {id block}, workspace.find? id = some block → block.top = block.parent.isNone
  parent_known : ∀ {child parent}, workspace.ParentLink child parent →
    workspace.contains parent = true
  held_known : ∀ {parent slot child}, workspace.Holds parent slot child →
    workspace.contains child = true

variable {workspace : Workspace} {id parent child above : String} {slot : Slot} {place : Place}
  {spec : BlockSpec} {block : Block}

theorem Orderly.live?_eq (orderly : workspace.Orderly) (id : String) :
    workspace.live? id = workspace.find? id := by
  cases found : workspace.find? id with
  | none => simp [live?, found]
  | some block => simp [live?_eq_some_iff, found, orderly.alive found]

theorem Orderly.link_of_holds (orderly : workspace.Orderly)
    (holds : workspace.Holds parent slot child) : workspace.ParentLink child parent := by
  obtain ⟨block, found⟩ := contains_iff.1 (orderly.held_known holds)
  exact orderly.parentLink holds found

theorem ParentLink.not_adrift (link : workspace.ParentLink id parent)
    (holds : workspace.Holds parent slot id) : ¬workspace.Adrift id := by
  rintro ⟨other, second, none⟩
  rw [second.unique link] at none
  exact none slot holds

theorem Orderly.empty : empty.Orderly where
  acyclic := .of_grounded (by simp [contains])
  parent_of_holds := by simp [Holds]
  holds_unique := by simp [Holds]
  alive := by simp
  top := by simp
  parent_known := by simp [ParentLink]
  held_known := by simp [Holds]

def occupant? (workspace : Workspace) (place : Place) : Option String :=
  place.bind fun (parent, slot) => (workspace.find? parent).bind fun block =>
    block.children.get? slot

theorem occupant?_some_iff : workspace.occupant? (some (parent, slot)) = some id ↔
    workspace.Holds parent slot id := by
  simp [occupant?, Holds, Option.bind_eq_some_iff]

theorem Orderly.unheld_elsewhere_iff (orderly : workspace.Orderly) :
    (∃ parent, workspace.ParentLink id parent ∧
      ∀ slot, place ≠ some (parent, slot) → ¬workspace.Holds parent slot id) ↔
    workspace.occupant? place = some id ∨ workspace.Adrift id := by
  constructor
  · rintro ⟨parent, link, none⟩
    by_cases held : ∃ slot, workspace.Holds parent slot id
    · obtain ⟨slot, holds⟩ := held
      have taken : place = some (parent, slot) := by
        by_contra elsewhere
        exact none slot elsewhere holds
      rw [taken]
      exact .inl (occupant?_some_iff.2 holds)
    · exact .inr ⟨parent, link, not_exists.1 held⟩
  · rintro (occupant | ⟨parent, link, none⟩)
    · obtain _ | ⟨parent, slot⟩ := place
      · simp [occupant?] at occupant
      · have holds := occupant?_some_iff.1 occupant
        refine ⟨parent, orderly.link_of_holds holds, fun otherSlot elsewhere otherHolds => ?_⟩
        exact elsewhere (by rw [(orderly.holds_unique holds otherHolds).2])
    · exact ⟨parent, link, fun slot _ => none slot⟩

section Insert

variable (orderly : workspace.Orderly) (distinct : spec.Distinct)
  (fresh : ∀ id ∈ spec.ids, workspace.contains id = false)
  (known : ∀ above ∈ place.map (·.1), workspace.contains above = true)

include fresh

theorem not_mem_of_fresh (isKnown : workspace.contains id = true) : id ∉ spec.ids := by
  intro inTree
  simp [fresh id inTree] at isKnown

include known in
theorem fits_of_fresh :
    ∀ above ∈ place.map (·.1), above ∉ spec.ids ∧ workspace.contains above = true :=
  fun above stands => ⟨not_mem_of_fresh fresh (known above stands), known above stands⟩

include orderly distinct known

theorem Orderly.grounded_insert_of_known (isKnown : workspace.contains id = true) :
    (workspace.insert spec place).Grounded id := by
  have fits := fits_of_fresh fresh known
  have grounded := orderly.acyclic.grounded orderly.parent_known isKnown
  clear isKnown
  induction grounded with
  | @top id block found alone =>
      have outside := not_mem_of_fresh fresh (contains_iff.2 ⟨block, found⟩)
      have kept : (workspace.insert spec place).find? id = some (link place spec.id block) := by
        rw [find?_insert_of_not_mem fits outside, found]
        rfl
      exact .top kept alone
  | under link above ih =>
      obtain ⟨block, found, named⟩ := link
      have outside := not_mem_of_fresh fresh (contains_iff.2 ⟨block, found⟩)
      exact .under ((parentLink_insert distinct fits).2 (.inr ⟨outside, block, found, named⟩)) ih

theorem Orderly.grounded_insert (inside : (workspace.insert spec place).contains id = true) :
    (workspace.insert spec place).Grounded id := by
  have fits := fits_of_fresh fresh known
  have old : ∀ {id}, workspace.contains id = true → (workspace.insert spec place).Grounded id :=
    fun isKnown => orderly.grounded_insert_of_known distinct fresh known isKnown
  have placed : ∀ {entry : BlockSpec × Place} {above}, entry ∈ spec.placed place →
      entry.2.map (·.1) = some above → (workspace.insert spec place).ParentLink entry.1.id above :=
    fun member named => (parentLink_insert distinct fits).2 (.inl ⟨_, member, rfl, named⟩)
  have head : (workspace.insert spec place).Grounded spec.id := by
    have member := spec.head_mem_placed place
    cases named : place.map (·.1) with
    | none => exact .top (find?_insert_of_mem distinct fits member) named
    | some above => exact .under (placed member named) (old (known above named))
  -- From the head of the new tree the way up goes on from slot to slot.
  have tree := BlockSpec.placed_induction
    (fun entry => entry ∈ spec.placed place ∧ (workspace.insert spec place).Grounded entry.1.id)
    (by
      intro above ⟨member, grounded⟩ child inSlot
      have childMember := BlockSpec.mem_placed_of_child spec place above member child inSlot
      exact ⟨childMember, .under (placed childMember rfl) grounded⟩)
    spec place ⟨spec.head_mem_placed place, head⟩
  rcases (contains_insert distinct fits).1 inside with inTree | isKnown
  · obtain ⟨entry, member, rfl⟩ := BlockSpec.exists_of_mem_ids place inTree
    exact (tree entry member).2
  · exact old isKnown

theorem Orderly.treelike_insert : (workspace.insert spec place).Treelike := by
  have fits := fits_of_fresh fresh known
  have outside : ∀ {parent slot child}, workspace.Holds parent slot child → child ∉ spec.ids :=
    fun held => not_mem_of_fresh fresh (orderly.held_known held)
  refine ⟨.of_grounded fun id => orderly.grounded_insert distinct fresh known, ?_, ?_⟩
  · intro parent slot child block holds found
    rcases (holds_insert distinct fits).1 holds with ⟨entry, member, rfl, stands⟩ | ⟨-, -, held⟩
    · obtain rfl := Option.some.inj ((find?_insert_of_mem distinct fits member).symm.trans found)
      simp [placedBlock, freshBlock, stands]
    · rw [find?_insert_of_not_mem fits (outside held), Option.map_eq_some_iff] at found
      obtain ⟨old, foundOld, rfl⟩ := found
      have named : old.parent = some parent := orderly.parent_of_holds held foundOld
      exact named
  · intro parent slot other otherSlot child holds second
    rcases (holds_insert distinct fits).1 holds with ⟨entry, member, rfl, stands⟩ | ⟨-, -, held⟩ <;>
      rcases (holds_insert distinct fits).1 second with
        ⟨otherEntry, otherMember, same, otherStands⟩ | ⟨-, -, otherHeld⟩
    · obtain rfl := distinct.eq_of_id otherMember member same
      simpa [stands] using otherStands
    · exact absurd (BlockSpec.mem_ids_of_mem_placed member) (outside otherHeld)
    · exact absurd (same ▸ BlockSpec.mem_ids_of_mem_placed otherMember) (outside held)
    · exact orderly.holds_unique held otherHeld

theorem Orderly.insert : (workspace.insert spec place).Orderly := by
  have fits := fits_of_fresh fresh known
  have inTree : ∀ {entry}, entry ∈ spec.placed place →
      (workspace.insert spec place).contains entry.1.id = true :=
    fun member => (contains_insert distinct fits).2 (.inl (BlockSpec.mem_ids_of_mem_placed member))
  have before : ∀ {id}, workspace.contains id = true →
      (workspace.insert spec place).contains id = true :=
    fun isKnown => (contains_insert distinct fits).2 (.inr isKnown)
  refine ⟨orderly.treelike_insert distinct fresh known, ?_, ?_, ?_, ?_⟩
  · intro id block found
    rcases find?_insert_cases distinct fits found with ⟨entry, -, -, rfl⟩ | ⟨old, foundOld, rfl⟩
    · rfl
    · have alive : old.deleted = false := orderly.alive foundOld
      exact alive
  · intro id block found
    rcases find?_insert_cases distinct fits found with ⟨entry, -, -, rfl⟩ | ⟨old, foundOld, rfl⟩
    · rfl
    · have top : old.top = old.parent.isNone := orderly.top foundOld
      exact top
  · intro child parent link
    rcases (parentLink_insert distinct fits).1 link with ⟨entry, member, -, named⟩ | ⟨-, oldLink⟩
    · rcases BlockSpec.eq_head_or_child member with rfl | ⟨above, aboveMember, slot, -, under⟩
      · exact before (known parent named)
      · obtain rfl : above.1.id = parent := by simpa [under] using named
        exact inTree aboveMember
    · exact before (orderly.parent_known oldLink)
  · intro parent slot child holds
    rcases (holds_insert distinct fits).1 holds with ⟨entry, member, rfl, -⟩ | ⟨-, -, held⟩
    · exact inTree member
    · exact before (orderly.held_known held)

theorem Orderly.adrift_insert : (workspace.insert spec place).Adrift id ↔
    workspace.occupant? place = some id ∨ workspace.Adrift id := by
  have fits := fits_of_fresh fresh known
  rw [← orderly.unheld_elsewhere_iff]
  constructor
  · rintro ⟨parent, link, none⟩
    rcases (parentLink_insert distinct fits).1 link with ⟨entry, member, rfl, named⟩ | ⟨-, oldLink⟩
    · obtain ⟨⟨above, slot⟩, stands, rfl⟩ := Option.map_eq_some_iff.1 named
      exact absurd ((holds_insert distinct fits).2 (.inl ⟨entry, member, rfl, stands⟩)) (none slot)
    · have outside := not_mem_of_fresh fresh (orderly.parent_known oldLink)
      exact ⟨parent, oldLink, fun slot elsewhere held =>
        none slot ((holds_insert distinct fits).2 (.inr ⟨outside, elsewhere, held⟩))⟩
  · rintro ⟨parent, ⟨block, found, named⟩, none⟩
    have outside := not_mem_of_fresh fresh (contains_iff.2 ⟨block, found⟩)
    refine ⟨parent, (parentLink_insert distinct fits).2 (.inr ⟨outside, block, found, named⟩), ?_⟩
    intro slot holds
    rcases (holds_insert distinct fits).1 holds with ⟨entry, member, rfl, -⟩ | ⟨-, elsewhere, held⟩
    · exact outside (BlockSpec.mem_ids_of_mem_placed member)
    · exact none slot elsewhere held

end Insert

/-- The block has the parent that the place names and sits in no slot but the place's own. -/
structure StandsAt (workspace : Workspace) (id : String) (place : Place) : Prop where
  parent : ∃ block, workspace.find? id = some block ∧ block.parent = place.map (·.1)
  slot : ∀ {parent slot}, workspace.Holds parent slot id → place = some (parent, slot)

section TakeOff

variable {source : Place}

theorem StandsAt.known (stands : workspace.StandsAt id source) : workspace.contains id = true := by
  obtain ⟨block, found, -⟩ := stands.parent
  exact contains_iff.2 ⟨block, found⟩

theorem contains_takeOff {other : String} :
    (workspace.takeOff id source).contains other = workspace.contains other := by
  obtain _ | ⟨parent, slot⟩ := source <;> simp [takeOff, contains, find?_detach]

theorem StandsAt.parentLink_takeOff {low : String} (stands : workspace.StandsAt id source) :
    (workspace.takeOff id source).ParentLink low above ↔
      low ≠ id ∧ workspace.ParentLink low above := by
  obtain _ | ⟨parent, slot⟩ := source
  · obtain ⟨block, found, alone⟩ := stands.parent
    refine ⟨fun link => ⟨?_, link⟩, And.right⟩
    rintro rfl
    have named : block.parent = some above := ParentLink.parent_eq link found
    simp [alone] at named
  · exact parentLink_detach

theorem StandsAt.holds_takeOff {low : String} (stands : workspace.StandsAt id source) :
    (workspace.takeOff id source).Holds parent slot low ↔
      low ≠ id ∧ workspace.Holds parent slot low := by
  obtain _ | ⟨other, otherSlot⟩ := source
  · refine ⟨fun holds => ⟨?_, holds⟩, And.right⟩
    rintro rfl
    simpa using stands.slot holds
  · simp only [takeOff, holds_detach]
    constructor
    · rintro ⟨holds, elsewhere⟩
      refine ⟨?_, holds⟩
      rintro rfl
      have here := stands.slot holds
      simp only [Option.some.injEq, Prod.mk.injEq] at here
      exact elsewhere ⟨here.1.symm, here.2.symm, rfl⟩
    · rintro ⟨different, holds⟩
      exact ⟨holds, fun same => different same.2.2⟩

theorem StandsAt.below_takeOff {low : String} (stands : workspace.StandsAt id source) :
    (workspace.takeOff id source).Below id low ↔ workspace.Below id low :=
  ⟨fun below => below.of_links fun _ link => (stands.parentLink_takeOff.1 link).2,
    fun below => below.of_links fun different link =>
      stands.parentLink_takeOff.2 ⟨different, link⟩⟩

theorem StandsAt.adrift_takeOff {low : String} (stands : workspace.StandsAt id source) :
    (workspace.takeOff id source).Adrift low ↔ low ≠ id ∧ workspace.Adrift low := by
  simp only [Adrift, stands.parentLink_takeOff, stands.holds_takeOff]
  by_cases same : low = id <;> simp [same]

theorem Orderly.takeOff (orderly : workspace.Orderly) (stands : workspace.StandsAt id source) :
    (workspace.takeOff id source).Orderly := by
  have flags : ∀ {other block}, (workspace.takeOff id source).find? other = some block →
      block.deleted = false ∧ block.top = block.parent.isNone := by
    intro other block found
    obtain _ | ⟨parent, slot⟩ := source
    · exact ⟨orderly.alive found, orderly.top found⟩
    · rw [Workspace.takeOff, find?_detach, Option.map_eq_some_iff] at found
      obtain ⟨old, foundOld, rfl⟩ := found
      have alive := orderly.alive foundOld
      have top := orderly.top foundOld
      by_cases same : other = id <;> simp [same, alive, top]
  refine ⟨⟨orderly.acyclic.takeOff, ?_, ?_⟩, fun found => (flags found).1,
    fun found => (flags found).2, ?_, ?_⟩
  · intro parent slot child block holds found
    obtain ⟨different, oldHolds⟩ := stands.holds_takeOff.1 holds
    have link := stands.parentLink_takeOff.2 ⟨different, orderly.link_of_holds oldHolds⟩
    exact link.parent_eq found
  · intro parent slot other otherSlot child holds second
    exact orderly.holds_unique (stands.holds_takeOff.1 holds).2 (stands.holds_takeOff.1 second).2
  · intro child parent link
    rw [contains_takeOff]
    exact orderly.parent_known (stands.parentLink_takeOff.1 link).2
  · intro parent slot child holds
    rw [contains_takeOff]
    exact orderly.held_known (stands.holds_takeOff.1 holds).2

theorem StandsAt.alone_takeOff (stands : workspace.StandsAt id source) :
    ¬(workspace.takeOff id source).ParentLink id above :=
  fun link => (stands.parentLink_takeOff.1 link).1 rfl

end TakeOff

section Attach

theorem contains_attach {other : String} :
    (workspace.attach parent slot child).contains other = workspace.contains other := by
  simp [contains, find?_attach]

variable (orderly : workspace.Orderly) (alone : ∀ above, ¬workspace.ParentLink child above)
  (known : workspace.contains child = true) (targetKnown : workspace.contains parent = true)

include orderly alone in
theorem Orderly.ne_of_holds {low : String} (holds : workspace.Holds above slot low) :
    low ≠ child := by
  rintro rfl
  exact alone above (orderly.link_of_holds holds)

include orderly alone known

theorem Orderly.treelike_attach (outside : ¬workspace.Below child parent) :
    (workspace.attach parent slot child).Treelike := by
  refine ⟨orderly.acyclic.attach outside, ?_, ?_⟩
  · intro above otherSlot low block holds found
    refine ParentLink.parent_eq (parentLink_attach.2 ?_) found
    rw [holds_attach] at holds
    split at holds
    next here => simp [holds.2, known, here.1]
    next =>
      rw [if_neg (orderly.ne_of_holds alone holds)]
      exact orderly.link_of_holds holds
  · intro above otherSlot second secondSlot low holds holdsToo
    rw [holds_attach] at holds holdsToo
    split at holds <;> split at holdsToo
    next here there => simp [here, there]
    next => exact absurd holds.2 (orderly.ne_of_holds alone holdsToo)
    next => exact absurd holdsToo.2 (orderly.ne_of_holds alone holds)
    next => exact orderly.holds_unique holds holdsToo

include targetKnown

theorem Orderly.attach (outside : ¬workspace.Below child parent) :
    (workspace.attach parent slot child).Orderly := by
  have flags : ∀ {other block}, (workspace.attach parent slot child).find? other = some block →
      block.deleted = false ∧ block.top = block.parent.isNone := by
    intro other block found
    rw [find?_attach, Option.map_eq_some_iff] at found
    obtain ⟨old, foundOld, rfl⟩ := found
    have alive := orderly.alive foundOld
    have top := orderly.top foundOld
    by_cases isChild : other = child <;> simp [isChild, alive, top]
  refine ⟨orderly.treelike_attach alone known outside, fun found => (flags found).1,
    fun found => (flags found).2, ?_, ?_⟩
  · intro low above link
    rw [contains_attach]
    rw [parentLink_attach] at link
    split at link
    · rw [link.2]
      exact targetKnown
    · exact orderly.parent_known link
  · intro above otherSlot low holds
    rw [contains_attach]
    rw [holds_attach] at holds
    split at holds
    · rw [holds.2]
      exact known
    · exact orderly.held_known holds

theorem Orderly.adrift_attach : (workspace.attach parent slot child).Adrift id ↔
    id ≠ child ∧ (workspace.occupant? (some (parent, slot)) = some id ∨ workspace.Adrift id) := by
  rw [← orderly.unheld_elsewhere_iff]
  by_cases isChild : id = child
  · subst isChild
    have link : (workspace.attach parent slot id).ParentLink id parent :=
      parentLink_attach.2 (by simp [known])
    have holds : (workspace.attach parent slot id).Holds parent slot id :=
      holds_attach.2 (by simp [targetKnown])
    simp [link.not_adrift holds]
  · simp [Adrift, parentLink_attach, holds_attach, isChild, @eq_comm _ parent, @eq_comm _ slot]

end Attach

/-- What a move pushes out of a slot. A move into the block's own tree is refused. -/
def pushedOut (workspace : Workspace) (id : String) : Place → List String
  | none => []
  | some (parent, slot) =>
    if workspace.isAncestorOrSelf id [] parent then []
    else (workspace.occupant? (some (parent, slot))).toList

section Reparent

variable {source target : Place} (orderly : workspace.Orderly)
  (stands : workspace.StandsAt id source)
  (known : ∀ above ∈ target.map (·.1), workspace.contains above = true)

include orderly stands

theorem Orderly.isAncestorOrSelf_takeOff :
    (workspace.takeOff id source).isAncestorOrSelf id [] parent =
      workspace.isAncestorOrSelf id [] parent := by
  rw [Bool.eq_iff_iff, orderly.acyclic.isAncestorOrSelf_iff,
    (orderly.takeOff stands).acyclic.isAncestorOrSelf_iff]
  exact stands.below_takeOff

omit orderly in
theorem StandsAt.occupant?_takeOff {low : String} (different : low ≠ id) :
    (workspace.takeOff id source).occupant? (some (parent, slot)) = some low ↔
      workspace.occupant? (some (parent, slot)) = some low := by
  simp [occupant?_some_iff, stands.holds_takeOff, different]

include known

theorem Orderly.reparent : (workspace.reparent id source target).Orderly ∧
    ∀ low, (workspace.reparent id source target).Adrift low ↔
      low ≠ id ∧ (low ∈ workspace.pushedOut id target ∨ workspace.Adrift low) := by
  have freed := orderly.takeOff stands
  cases target with
  | none =>
      rw [reparent_none stands.known]
      exact ⟨freed, fun low => by simp [stands.adrift_takeOff, pushedOut]⟩
  | some place =>
      obtain ⟨parent, slot⟩ := place
      have same : (workspace.takeOff id source).isAncestorOrSelf id [] parent =
          workspace.isAncestorOrSelf id [] parent := orderly.isAncestorOrSelf_takeOff stands
      by_cases refused : workspace.isAncestorOrSelf id [] parent = true
      · rw [reparent_refused stands.known fun _ => same.trans refused]
        exact ⟨freed, fun low => by simp [stands.adrift_takeOff, pushedOut, refused]⟩
      · have accepted : (workspace.takeOff id source).isAncestorOrSelf id [] parent = false := by
          simpa [same] using refused
        have targetKnown : (workspace.takeOff id source).contains parent = true :=
          contains_takeOff.trans (known parent rfl)
        have movedKnown : (workspace.takeOff id source).contains id = true :=
          contains_takeOff.trans stands.known
        have outside : ¬(workspace.takeOff id source).Below id parent := fun below => by
          simp [freed.acyclic.isAncestorOrSelf_iff.2 below] at accepted
        have alone : ∀ above, ¬(workspace.takeOff id source).ParentLink id above :=
          fun _ => stands.alone_takeOff
        rw [reparent_some stands.known targetKnown accepted]
        refine ⟨freed.attach alone movedKnown targetKnown outside, fun low => ?_⟩
        rw [freed.adrift_attach alone movedKnown targetKnown, stands.adrift_takeOff]
        refine and_congr_right fun different => ?_
        rw [stands.occupant?_takeOff different]
        simp [pushedOut, refused, different]

end Reparent

end RobotPuzzle.Workspace
