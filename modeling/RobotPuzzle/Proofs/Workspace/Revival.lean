import RobotPuzzle.Proofs.Workspace.Connection
import RobotPuzzle.Proofs.Workspace.Coverage
import RobotPuzzle.Proofs.Workspace.Edits

/-!
A deleted block that comes back. Its old slot still holds it, so that it then sits in two slots, and
parents and slots disagree, unless it stood alone before or comes back to its own slot.
-/

namespace RobotPuzzle.Workspace

open Relation

variable {workspace : Workspace} {id root parent child : String} {slot : Slot} {spec : BlockSpec}
  {place : Place} {block : Block}

namespace LiveLinked

variable (linked : workspace.LiveLinked)

include linked

theorem eq_of_top (tidy : workspace.Tidy) (found : workspace.live? id = some block)
    (isTop : block.top = true) (path : ReflTransGen workspace.Hangs id root) : id = root := by
  rcases path.cases_head with same | ⟨parent, ⟨slot, holder, same, foundHolder, held, alive⟩, -⟩
  · exact same
  · obtain rfl := Option.some.inj (found.symm.trans alive)
    have alone : block.parent = none := by
      simpa [isTop] using (tidy.top (live?_eq_some_iff.1 found).1).symm
    simp [linked.parent_of_held foundHolder held alive] at alone

/-- A block is in the program of an entry and in a loose tree only if the whole program is in the
loose tree. -/
theorem entry_in_loose (tidy : workspace.Tidy) {entry loose : Block}
    (isStart : entry ∈ workspace.starts) (isLoose : loose ∈ workspace.loose)
    (inProgram : id ∈ workspace.descendants entry.id)
    (inLoose : id ∈ workspace.descendants loose.id) :
    entry.id ∈ workspace.descendants loose.id ∧ loose.id ∉ workspace.descendants entry.id := by
  obtain ⟨foundEntry, type⟩ := mem_starts_iff.1 isStart
  obtain ⟨foundLoose, isTop, notStart⟩ := mem_loose_iff.1 isLoose
  have apart : ¬ReflTransGen workspace.Hangs loose.id entry.id := by
    intro path
    have same := linked.eq_of_top tidy foundLoose isTop path
    rw [← same, foundLoose] at foundEntry
    obtain rfl := Option.some.inj foundEntry
    exact notStart type
  obtain ⟨-, up⟩ := mem_descendants_iff_hangs.1 inProgram
  obtain ⟨-, upToo⟩ := mem_descendants_iff_hangs.1 inLoose
  refine ⟨mem_descendants_iff_hangs.2 ⟨⟨entry, foundEntry⟩, ?_⟩, fun within =>
    apart (mem_descendants_iff_hangs.1 within).2⟩
  exact (up.total_of_right_unique linked.hangs_unique upToo).resolve_right apart

end LiveLinked

theorem mem_descendants_of_legs {low : String} (legs : ReflTransGen workspace.Leg root low)
    (alive : ∃ block, workspace.live? low = some block) : low ∈ workspace.descendants root := by
  refine mem_descendants_iff.2 ⟨alive, ReflTransGen.mono ?_ _ _ legs⟩
  intro above below leg
  cases leg with
  | next found held => exact ⟨_, _, found, held⟩
  | body found _ held => exact ⟨_, _, found, held⟩

/-- The block sits at the place and nowhere else: in the live trees of the blocks above the place
only, not in a program and in a loose tree at once, and with all blocks that next blocks and loop
bodies lead to from an entry compiled. -/
structure SitsAt (workspace : Workspace) (id : String) (place : Place) : Prop where
  held : ∀ parent slot, workspace.Holds parent slot id ↔ place = some (parent, slot)
  above : ∀ root, id ∈ workspace.descendants root → root = id ∨
    ∃ parent slot, place = some (parent, slot) ∧ parent ∈ workspace.descendants root
  apart : ∀ entry ∈ workspace.starts, ∀ loose ∈ workspace.loose,
    id ∈ workspace.descendants entry.id → id ∈ workspace.descendants loose.id →
      entry.id ∈ workspace.descendants loose.id ∧ loose.id ∉ workspace.descendants entry.id
  compiled : ∀ entry ∈ workspace.starts, ∃ script, workspace.compile = .ok script ∧
    ∀ low block, ReflTransGen workspace.Leg entry.id low → workspace.live? low = some block →
      block.Executable → ∃ instruction ∈ Script.nested script, instruction.block = low

theorem LiveLinked.sitsAt (linked : workspace.LiveLinked) (tidy : workspace.Tidy)
    (held : ∀ parent slot, workspace.Holds parent slot id ↔ place = some (parent, slot)) :
    workspace.SitsAt id place where
  held := held
  above := by
    intro root member
    obtain ⟨-, path⟩ := mem_descendants_iff_hangs.1 member
    rcases path.cases_head with same | ⟨parent, ⟨slot, holder, block, found, inSlot, -⟩, rest⟩
    · exact .inl same.symm
    · have holds : workspace.Holds parent slot id := ⟨holder, (live?_eq_some_iff.1 found).1, inSlot⟩
      exact .inr ⟨parent, slot, (held parent slot).1 holds,
        mem_descendants_iff_hangs.2 ⟨⟨holder, found⟩, rest⟩⟩
  apart := fun entry isStart loose isLoose inProgram inLoose =>
    linked.entry_in_loose tidy isStart isLoose inProgram inLoose
  compiled := by
    refine workspace.compile_covers fun entry isStart low block legs found => ?_
    have inProgram := mem_descendants_of_legs legs ⟨block, found⟩
    exact (linked.rooted_of_mem_descendants isStart inProgram).isConnected

theorem Treelike.below_of_mem_cascade (treelike : workspace.Treelike)
    (member : child ∈ workspace.cascade root) : workspace.Below root child := by
  obtain ⟨known, path⟩ := mem_cascade_iff.1 member
  clear member
  induction path with
  | refl => exact .refl
  | @tail above low _ leads ih =>
      obtain ⟨slot, holder, foundHolder, held⟩ := leads
      obtain ⟨block, found⟩ := known
      have holds : workspace.Holds above slot low := ⟨holder, foundHolder, held⟩
      exact .head (treelike.parentLink holds found) (ih ⟨holder, foundHolder⟩)

theorem held_of_mem_cascade (member : child ∈ workspace.cascade root) : child = root ∨
    ∃ parent slot, parent ∈ workspace.cascade root ∧ workspace.Holds parent slot child := by
  obtain ⟨-, path⟩ := mem_cascade_iff.1 member
  rcases path.cases_tail with same | ⟨parent, before, slot, holds⟩
  · exact .inl same
  · obtain ⟨holder, found, held⟩ := holds
    exact .inr ⟨parent, slot, mem_cascade_iff.2 ⟨⟨holder, found⟩, before⟩, holder, found, held⟩

theorem Treelike.holder_stays (treelike : workspace.Treelike)
    (alive : workspace.live? id = some block) (holds : workspace.Holds parent slot id) :
    parent ∉ workspace.cascade id := by
  have link := treelike.parentLink holds (live?_eq_some_iff.1 alive).1
  exact fun gone => treelike.acyclic.not_below link (treelike.below_of_mem_cascade gone)

def revive (workspace : Workspace) (id : String) (spec : BlockSpec) (place : Place) : Workspace :=
  (workspace.delete id).insert spec place

/-- A tree with which a block may come back, of new blocks and of those that go with it, and a
place: at the top, or a slot of a live block that stays, with nothing live in it. -/
structure Revival (workspace : Workspace) (id : String) (spec : BlockSpec) (place : Place) :
    Prop where
  head : spec.id = id
  distinct : spec.Distinct
  own : ∀ other ∈ spec.ids, workspace.contains other = true → other ∈ workspace.cascade id
  target : ∀ parent ∈ place.map (·.1), (workspace.live? parent).isSome ∧
    parent ∉ workspace.cascade id
  free : ∀ child, workspace.occupant? place = some child →
    (workspace.delete id).live? child = none

namespace Revival

variable (revival : workspace.Revival id spec place)

include revival

theorem not_mem_ids (known : workspace.contains parent = true)
    (stays : parent ∉ workspace.cascade id) : parent ∉ spec.ids :=
  fun inTree => stays (revival.own parent inTree known)

theorem fits : ∀ above ∈ place.map (·.1),
    above ∉ spec.ids ∧ (workspace.delete id).contains above = true := by
  intro above stands
  obtain ⟨alive, stays⟩ := revival.target above stands
  obtain ⟨block, found⟩ := Option.isSome_iff_exists.1 alive
  have known := contains_iff.2 ⟨block, (live?_eq_some_iff.1 found).1⟩
  exact ⟨revival.not_mem_ids known stays, contains_delete.trans known⟩

theorem holds_iff : (workspace.revive id spec place).Holds parent slot child ↔
    (∃ entry ∈ spec.placed place, entry.1.id = child ∧ entry.2 = some (parent, slot)) ∨
      parent ∉ spec.ids ∧ place ≠ some (parent, slot) ∧ workspace.Holds parent slot child := by
  rw [revive, holds_insert revival.distinct revival.fits, holds_delete]

theorem live?_of_mem {entry : BlockSpec × Place} (member : entry ∈ spec.placed place) :
    (workspace.revive id spec place).live? entry.1.id = some (placedBlock entry) :=
  live?_eq_some_iff.2 ⟨find?_insert_of_mem revival.distinct revival.fits member, rfl⟩

theorem live?_of_not_mem (outside : child ∉ spec.ids) :
    (workspace.revive id spec place).live? child =
      ((workspace.delete id).live? child).map (link place spec.id) :=
  live?_eq_map (find?_insert_of_not_mem revival.fits outside) fun _ => rfl

theorem live?_head : (workspace.revive id spec place).live? id = some (freshBlock spec
    (place.map (·.1))) := by
  have found := revival.live?_of_mem (spec.head_mem_placed place)
  rw [revival.head] at found
  exact found

theorem live_before (outside : parent ∉ spec.ids)
    (found : (workspace.revive id spec place).live? parent = some block) :
    parent ∉ workspace.cascade id ∧ ∃ old, workspace.live? parent = some old ∧
      block = link place spec.id old := by
  rw [revival.live?_of_not_mem outside, Option.map_eq_some_iff] at found
  obtain ⟨old, alive, rfl⟩ := found
  rw [live?_delete] at alive
  split at alive
  · cases alive
  next stays => exact ⟨stays, old, alive, rfl⟩

section

variable (consistent : workspace.Consistent) (alive : workspace.live? id = some block)

include consistent alive

/-- The block sits in its old slot and in its new place. -/
theorem holds_head_iff : (workspace.revive id spec place).Holds parent slot id ↔
    place = some (parent, slot) ∨ workspace.Holds parent slot id := by
  rw [revival.holds_iff]
  constructor
  · rintro (⟨entry, member, same, stands⟩ | ⟨-, -, holds⟩)
    · obtain rfl := revival.distinct.eq_of_id member (spec.head_mem_placed place)
        (same.trans revival.head.symm)
      exact .inl stands
    · exact .inr holds
  · intro either
    by_cases here : place = some (parent, slot)
    · exact .inl ⟨(spec, place), spec.head_mem_placed place, revival.head, here⟩
    · have holds := either.resolve_left here
      have known : workspace.contains parent = true := by
        obtain ⟨holder, found, -⟩ := holds
        exact contains_iff.2 ⟨holder, found⟩
      exact .inr ⟨revival.not_mem_ids known (consistent.treelike.holder_stays alive holds), here,
        holds⟩

theorem mem_descendants_holder {holder : Block} (found : workspace.live? parent = some holder)
    (holds : workspace.Holds parent slot id) :
    id ∈ (workspace.revive id spec place).descendants parent := by
  have stays := consistent.treelike.holder_stays alive holds
  have known := contains_iff.2 ⟨holder, (live?_eq_some_iff.1 found).1⟩
  have foundAfter : (workspace.revive id spec place).live? parent =
      some (link place spec.id holder) := by
    rw [revival.live?_of_not_mem (revival.not_mem_ids known stays), live?_delete, if_neg stays,
      found]
    rfl
  exact mem_descendants_of_holds (mem_descendants_self foundAfter)
    ((revival.holds_head_iff consistent alive).2 (.inr holds)) revival.live?_head

end

theorem liveLinked (tidy : workspace.Tidy) (consistent : workspace.Consistent)
    (same : ∀ parent slot, workspace.Holds parent slot id → place = some (parent, slot)) :
    (workspace.revive id spec place).LiveLinked := by
  refine ⟨fun {parent slot child holder block} foundHolder held found => ?_⟩
  have holds : (workspace.revive id spec place).Holds parent slot child :=
    ⟨holder, (live?_eq_some_iff.1 foundHolder).1, held⟩
  rcases revival.holds_iff.1 holds with ⟨entry, member, rfl, stands⟩ | ⟨outside, elsewhere, old⟩
  · obtain rfl := Option.some.inj ((revival.live?_of_mem member).symm.trans found)
    simp [placedBlock, freshBlock, stands]
  · obtain ⟨stays, -⟩ := revival.live_before outside foundHolder
    by_cases inTree : child ∈ spec.ids
    · -- A block of the old tree that is not its head was held within that tree, and by one slot.
      have gone := revival.own child inTree (tidy.held_known old)
      rcases held_of_mem_cascade gone with rfl | ⟨above, otherSlot, aboveGone, holdsToo⟩
      · exact absurd (same parent slot old) elsewhere
      · exact absurd ((consistent.holds_unique holdsToo old).1 ▸ aboveGone) stays
    · obtain ⟨-, before, foundBefore, rfl⟩ := revival.live_before inTree found
      have named : before.parent = some parent :=
        consistent.parent_of_holds old (live?_eq_some_iff.1 foundBefore).1
      exact named

end Revival

/-- A block that is deleted and comes back sits in its new place and in its old slot, and is still
in the live tree of the block that held it. So it has moved, with all that follows for the programs
and the compilation, exactly when it stood alone before or comes back to its own slot. -/
theorem revive_moves_iff (edited : Edited workspace) (consistent : workspace.Consistent)
    (alive : workspace.live? id = some block) (revival : workspace.Revival id spec place) :
    (∀ parent slot, (workspace.revive id spec place).Holds parent slot id ↔
        place = some (parent, slot) ∨ workspace.Holds parent slot id) ∧
      (∀ parent slot holder, workspace.live? parent = some holder →
        workspace.Holds parent slot id →
          id ∈ (workspace.revive id spec place).descendants parent) ∧
      ((workspace.revive id spec place).SitsAt id place ↔
        ∀ parent slot, workspace.Holds parent slot id → place = some (parent, slot)) := by
  have holds : ∀ parent slot, (workspace.revive id spec place).Holds parent slot id ↔
      place = some (parent, slot) ∨ workspace.Holds parent slot id :=
    fun _ _ => revival.holds_head_iff consistent alive
  refine ⟨holds, fun _ _ _ found held =>
    revival.mem_descendants_holder consistent alive found held, fun sits parent slot held => ?_,
    fun same => ?_⟩
  · exact (sits.held parent slot).1 ((holds parent slot).2 (.inr held))
  · have tidy : (workspace.revive id spec place).Tidy := edited.tidy.delete.insert spec place
    refine (revival.liveLinked edited.tidy consistent same).sitsAt tidy fun parent slot => ?_
    rw [holds]
    exact or_iff_left_of_imp (same parent slot)

def oneStep : Workspace :=
  (empty.insert (.leaf "s" "start") none).insert (.leaf "b" "forward") (some ("s", .next))

theorem consistent_oneStep : oneStep.Consistent :=
  .of_blocks oneStep.ids (by decide) (by decide) (by decide) (by decide)

theorem holds_oneStep : oneStep.Holds "s" .next "b" := ⟨_, rfl, rfl⟩

theorem own_oneStep : ∀ other ∈ (BlockSpec.leaf "b" "forward").ids,
    oneStep.contains other = true → other ∈ oneStep.cascade "b" := by
  intro other inTree _
  obtain rfl : other = "b" := by simpa [BlockSpec.leaf, BlockSpec.ids, BlockSpec.blocks,
    BlockSpec.placed, BlockSpec.placedBelow] using inTree
  exact mem_cascade_iff.2 ⟨⟨_, rfl⟩, .refl⟩

/-- The step is deleted and comes back at the top: the entry block still holds it. -/
theorem oneStep_not_moved : ¬∀ workspace id block spec place, Edited workspace →
    workspace.Consistent → workspace.live? id = some block → workspace.Revival id spec place →
      (workspace.revive id spec place).SitsAt id place := by
  intro always
  obtain ⟨block, alive⟩ : ∃ block, oneStep.live? "b" = some block := ⟨_, rfl⟩
  have revival : oneStep.Revival "b" (.leaf "b" "forward") none :=
    ⟨rfl, by decide, own_oneStep, by simp, by simp [occupant?]⟩
  have sits := always oneStep "b" block _ none (.insert (.insert .empty _ _) _ _)
    consistent_oneStep alive revival
  have holds := (revival.holds_head_iff consistent_oneStep alive).2 (.inr holds_oneStep)
  simpa using (sits.held "s" .next).1 holds

theorem revive_moves_iff_oneStep : ∃ block, Edited oneStep ∧ oneStep.Consistent ∧
    oneStep.live? "b" = some block ∧
      oneStep.Revival "b" (.leaf "b" "forward") (some ("s", .next)) ∧
        (oneStep.revive "b" (.leaf "b" "forward") (some ("s", .next))).SitsAt "b"
          (some ("s", .next)) := by
  obtain ⟨block, alive⟩ : ∃ block, oneStep.live? "b" = some block := ⟨_, rfl⟩
  have edited : Edited oneStep := .insert (.insert .empty _ _) _ _
  have stays : "s" ∉ oneStep.cascade "b" :=
    consistent_oneStep.treelike.holder_stays alive holds_oneStep
  have deleted : ∀ child, oneStep.occupant? (some ("s", .next)) = some child →
      (oneStep.delete "b").live? child = none := by
    intro child occupant
    have filled : oneStep.occupant? (some ("s", .next)) = some "b" := by decide
    obtain rfl := Option.some.inj (filled.symm.trans occupant)
    rw [live?_delete, if_pos (own_oneStep "b" (by decide) (by decide))]
  have revival : oneStep.Revival "b" (.leaf "b" "forward") (some ("s", .next)) :=
    ⟨rfl, by decide, own_oneStep, by simpa using ⟨by decide, stays⟩, deleted⟩
  have own : ∀ parent slot, oneStep.Holds parent slot "b" →
      some ("s", Slot.next) = some (parent, slot) := by
    intro parent slot holds
    obtain ⟨rfl, rfl⟩ := consistent_oneStep.holds_unique holds_oneStep holds
    rfl
  exact ⟨block, edited, consistent_oneStep, alive, revival,
    (revive_moves_iff edited consistent_oneStep alive revival).2.2.2 own⟩

end RobotPuzzle.Workspace
