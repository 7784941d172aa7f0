import RobotPuzzle.Proofs.Session.Attempts
import RobotPuzzle.Proofs.Workspace.Census
import RobotPuzzle.Proofs.Workspace.Connection
import RobotPuzzle.Proofs.Workspace.Displacement
import RobotPuzzle.Proofs.Workspace.Order
import RobotPuzzle.Proofs.Workspace.Origins

/-!
What an attempt runs against what its snapshot shows. All entry blocks are run and the main tree is
that of the first one, so the blocks of further programs run without being shown in it.
-/

namespace RobotPuzzle

namespace Workspace

open Relation

inductive Planted : Workspace → Prop
  | empty : Planted .empty
  | insert {workspace spec place} (before : Planted workspace) (distinct : spec.Distinct)
      (fresh : ∀ id ∈ spec.ids, workspace.contains id = false)
      (free : workspace.occupant? place = none) : Planted (workspace.insert spec place)

/-- `part` is the part of the shape of `root` where the slots from `root` down to the block lead. -/
inductive Part (workspace : Workspace) (root : String) (shape : Shape) : String → Shape → Prop
  | whole : Part workspace root shape root shape
  | child {id part slot block child low} (above : Part workspace root shape id part)
      (found : workspace.live? id = some block) (held : block.children.get? slot = some child)
      (shown : part.child? slot = some low) : Part workspace root shape child low

def Shows (workspace : Workspace) (root : String) (shape : Shape) (id : String) : Prop :=
  ∃ block part, workspace.live? id = some block ∧ workspace.Part root shape id part ∧
    part.type = block.shortType ∧ part.name = block.shapeName

variable {workspace : Workspace} {id root : String} {shape part : Shape} {block entry other : Block}
  {script : Script}

namespace Planted

theorem assembled (planted : Planted workspace) :
    Assembled workspace [] ∧ workspace.ParentsFirst := by
  induction planted with
  | empty => exact ⟨.empty, fun _ _ link => by simp [ParentLink] at link⟩
  | @insert workspace spec place _ distinct fresh free ih =>
      obtain ⟨assembled, first⟩ := ih
      have step : ∀ place : Place,
          (∀ above ∈ place.map (·.1), workspace.contains above = true) →
          workspace.occupant? place = none →
            Assembled (workspace.insert spec place) [] ∧
              (workspace.insert spec place).ParentsFirst := by
        intro place known free
        have after := Assembled.insert assembled distinct fresh known
        rw [free] at after
        exact ⟨after, first.insert assembled.adrift.1 distinct fresh known⟩
      obtain _ | ⟨parent, slot⟩ := place
      · exact step none (by simp) rfl
      · by_cases known : workspace.contains parent = true
        · exact step _ (by simpa using known) free
        · rw [insert_of_unknown (by simpa using known)]
          exact step none (by simp) rfl

theorem consistent (planted : Planted workspace) : workspace.Consistent := by
  obtain ⟨orderly, adrift⟩ := planted.assembled.1.adrift
  refine ⟨orderly.acyclic, orderly.parent_of_holds, orderly.holds_unique, ?_⟩
  intro child block parent alive named
  by_contra none
  have lost := (adrift child).1
    ⟨parent, ⟨block, (live?_eq_some_iff.1 alive).1, named⟩, not_exists.1 none⟩
  simp at lost

theorem mem_descendants_of_below (planted : Planted workspace)
    (alive : workspace.live? id = some block) (below : workspace.Below root id) :
    id ∈ workspace.descendants root := by
  have orderly := planted.assembled.1.adrift.1
  induction below using ReflTransGen.head_induction_on generalizing block with
  | refl => exact mem_descendants_self alive
  | @head low high link _ ih =>
      obtain ⟨holder, found⟩ := contains_iff.1 (orderly.parent_known link)
      have above := ih ((orderly.live?_eq high).trans found)
      obtain ⟨slot, holds⟩ := planted.consistent.holds_of_parent alive
        (link.parent_eq (live?_eq_some_iff.1 alive).1)
      exact mem_descendants_of_holds above holds alive

end Planted

theorem ParentsFirst.idxOf_le (first : workspace.ParentsFirst) (below : workspace.Below root id) :
    root = id ∨ workspace.ids.idxOf root < workspace.ids.idxOf id := by
  induction below using ReflTransGen.head_induction_on with
  | refl => exact .inl rfl
  | @head low high link _ ih =>
      have step := first low high link
      rcases ih with rfl | further
      · exact .inr step
      · exact .inr (by omega)

theorem idxOf_head_le {blocks : List Block} {keep : Block → Bool}
    (distinct : (blocks.map (·.id)).Nodup) (first : (blocks.filter keep).head? = some entry)
    (member : other ∈ blocks.filter keep) :
    (blocks.map (·.id)).idxOf entry.id ≤ (blocks.map (·.id)).idxOf other.id := by
  induction blocks with
  | nil => simp at member
  | cons block rest ih =>
      obtain ⟨apart, distinctRest⟩ := List.nodup_cons.1 distinct
      by_cases kept : keep block = true
      · obtain rfl : block = entry := by simpa [kept] using first
        simp
      · rw [List.filter_cons_of_neg kept] at first member
        have behind : ∀ kept ∈ rest.filter keep, block.id ≠ kept.id := by
          intro kept inRest same
          exact apart (List.mem_map.2 ⟨kept, (List.mem_filter.1 inRest).1, same.symm⟩)
        have earlier := ih distinctRest first member
        rw [List.map_cons, List.idxOf_cons_ne _ (behind entry (List.mem_of_head? first)),
          List.idxOf_cons_ne _ (behind other member)]
        omega

theorem Planted.eq_first_of_below (planted : Planted workspace)
    (first : workspace.starts.head? = some entry) (isStart : other ∈ workspace.starts)
    (below : workspace.Below other.id entry.id) : other = entry := by
  have order : workspace.ids.idxOf entry.id ≤ workspace.ids.idxOf other.id :=
    idxOf_head_le workspace.distinct first isStart
  rcases planted.assembled.2.idxOf_le below with same | further
  · obtain ⟨found, -⟩ := mem_starts_iff.1 isStart
    obtain ⟨foundEntry, -⟩ := mem_starts_iff.1 (List.mem_of_head? first)
    rw [same, foundEntry] at found
    exact (Option.some.inj found).symm
  · omega

theorem Depicts.of_part (depicts : workspace.Depicts (some root) (some shape))
    (isPart : workspace.Part root shape id part) : workspace.Depicts (some id) (some part) := by
  induction isPart with
  | whole => exact depicts
  | @child id part slot block child low above found held shown ih =>
      cases ih with
      | @shown _ same children foundSame below =>
          obtain rfl := Option.some.inj (found.symm.trans foundSame)
          have filled : children.get? slot = some low :=
            (SortedMap.lookup_entries _ _).symm.trans shown
          have here := below slot
          rw [held, filled] at here
          exact here

theorem Depicts.live {low : Shape} (depicts : workspace.Depicts (some id) (some low)) :
    ∃ block, workspace.live? id = some block ∧ low.type = block.shortType ∧
      low.name = block.shapeName := by
  cases depicts with
  | shown found below => exact ⟨_, found, rfl, rfl⟩

/-- A shape shows the blocks of the live tree below its block, each where the tree has it. -/
theorem Treelike.shows_iff (treelike : workspace.Treelike)
    (drawn : workspace.shape? root = some shape) :
    workspace.Shows root shape id ↔ id ∈ workspace.descendants root := by
  have depicts : workspace.Depicts (some root) (some shape) :=
    drawn ▸ workspace.shape?_depicts treelike root
  constructor
  · rintro ⟨block, part, -, isPart, -⟩
    induction isPart with
    | whole =>
        obtain ⟨block, found, -⟩ := depicts.live
        exact mem_descendants_self found
    | child above found held shown ih =>
        obtain ⟨childBlock, alive, -⟩ := (depicts.of_part (above.child found held shown)).live
        exact mem_descendants_child ih found held alive
  · intro member
    have isPart : ∃ part, workspace.Part root shape id part := by
      refine descendants_induction ⟨shape, .whole⟩ ?_ member
      rintro parent slot child block ⟨holder, foundHolder, held⟩ alive ⟨part, above⟩
      cases depicts.of_part above with
      | @shown _ same children found below =>
          obtain rfl := Option.some.inj (foundHolder.symm.trans (live?_eq_some_iff.1 found).1)
          have here := below slot
          rw [held] at here
          cases shown : children.get? slot with
          | none =>
              rw [shown] at here
              cases here with
              | gone dead => simp [dead] at alive
          | some low =>
              exact ⟨low, above.child found held ((SortedMap.lookup_entries _ _).trans shown)⟩
    obtain ⟨part, isPart⟩ := isPart
    obtain ⟨block, found, type, name⟩ := (depicts.of_part isPart).live
    exact ⟨block, part, found, isPart, type, name⟩

theorem exists_origin (compiled : workspace.compile = .ok script) :
    ∀ instruction ∈ Script.nested script, ∃ entry ∈ workspace.starts,
      workspace.Origin entry.id instruction := by
  obtain ⟨last, emits⟩ := compileEntries_emits [] fun entry (member : entry ∈ workspace.starts) =>
    (mem_starts_iff.1 member).1
  rw [compile, entries_eq_starts] at compiled
  cases listed : workspace.starts with
  | nil => simp [listed] at compiled
  | cons first others =>
      rw [listed] at compiled emits
      obtain rfl := Except.ok.inj compiled
      exact emits.origin

theorem exists_first (compiled : workspace.compile = .ok script) :
    ∃ entry shape, workspace.starts.head? = some entry ∧
      workspace.shape? entry.id = some shape ∧ workspace.programShape.main = some shape := by
  cases listed : workspace.starts with
  | nil => simp [compile, entries_eq_starts, listed] at compiled
  | cons entry others =>
      have isStart : entry ∈ workspace.starts := by simp [listed]
      obtain ⟨shape, shown⟩ := exists_shape (mem_starts_iff.1 isStart).1
      exact ⟨entry, shape, rfl, shown, by simp [programShape, entries_eq_starts, listed, shown]⟩

theorem Planted.shows_iff (planted : Planted workspace)
    (compiled : workspace.compile = .ok script) (first : workspace.starts.head? = some entry)
    (drawn : workspace.shape? entry.id = some shape) :
    ∀ instruction ∈ Script.nested script, workspace.Shows entry.id shape instruction.block ↔
      ∀ other ∈ workspace.starts, instruction.block ∈ workspace.descendants other.id →
        workspace.Shows entry.id shape other.id := by
  have treelike := planted.consistent.treelike
  intro instruction member
  simp only [treelike.shows_iff drawn]
  obtain ⟨source, isStart, origin⟩ := exists_origin compiled instruction member
  constructor
  · intro shown other isOther below
    obtain ⟨foundEntry, -⟩ := mem_starts_iff.1 (List.mem_of_head? first)
    obtain ⟨foundOther, -⟩ := mem_starts_iff.1 isOther
    rcases below_or_below (treelike.below_of_mem_descendants shown)
      (treelike.below_of_mem_descendants below) with up | down
    · rw [planted.eq_first_of_below first isOther up]
      exact mem_descendants_self foundEntry
    · exact planted.mem_descendants_of_below foundOther down
  · intro all
    have above := treelike.below_of_mem_descendants (all source isStart origin.below)
    obtain ⟨⟨block, alive⟩, -⟩ := mem_descendants_iff.1 origin.below
    exact planted.mem_descendants_of_below alive
      ((treelike.below_of_mem_descendants origin.below).trans above)

end Workspace

namespace Session

open Workspace

/-- An attempt runs the programs of all entry blocks and books the tree of the first one as its main
program. Of the blocks that it runs this tree shows those that are in no tree of an entry block
which it does not show. -/
theorem snapshot_shows_iff {session : Session} {script : Script}
    (planted : Planted session.recorder.workspace)
    (compiled : session.recorder.workspace.compile = .ok script) (time : Instant) :
    (session.execute time).2.result = .ofScript session.maxSteps script session.world ∧
      ∃ entry main success,
        session.recorder.workspace.starts.head? = some entry ∧
        session.recorder.workspace.programShape.main = some main ∧
        (session.execute time).1.recorder.record.snapshots =
          session.recorder.record.snapshots ++
            [⟨session.recorder.workspace.programShape, success⟩] ∧
        (session.execute time).2.fingerprint = main.fingerprint ∧
        ∀ instruction ∈ Script.nested script,
          session.recorder.workspace.Shows entry.id main instruction.block ↔
            ∀ other ∈ session.recorder.workspace.starts,
              instruction.block ∈ session.recorder.workspace.descendants other.id →
                session.recorder.workspace.Shows entry.id main other.id := by
  obtain ⟨entry, main, first, drawn, shown⟩ := exists_first compiled
  refine ⟨?_, entry, main, _, first, shown, rfl, ?_, planted.shows_iff compiled first drawn⟩
  · simp [execute, attempt, compiled]
  · simp [execute, Recorder.fingerprint, Recorder.program, Recorder.beginExecution, shown]

def twoEntries : Workspace :=
  (empty.insert (.leaf "s" "start") none).insert
    ⟨"e", "start", ∅, [(.next, .leaf "f" "forward")]⟩ none

/-- The step is run, and the main tree is the bare entry block. -/
theorem twoEntries_not_shown : ¬∀ workspace script entry main, Planted workspace →
    workspace.compile = .ok script → workspace.starts.head? = some entry →
      workspace.programShape.main = some main → ∀ instruction ∈ Script.nested script,
        workspace.Shows entry.id main instruction.block := by
  intro shown
  have planted : Planted twoEntries :=
    .insert (.insert .empty (by decide) (by decide) rfl) (by decide) (by decide) rfl
  have compiled : twoEntries.compile = .ok [.act (.move .forward) "f"] := by with_unfolding_all rfl
  obtain ⟨entry, main, first, drawn, isMain⟩ := exists_first compiled
  have step := shown twoEntries _ entry main planted compiled first isMain
    (.act (.move .forward) "f") (by simp [Script.nested, Instruction.nested])
  rw [planted.consistent.treelike.shows_iff drawn] at step
  have alone : twoEntries.descendants "s" = ["s"] := by decide +kernel
  have head : entry.id = "s" := by
    have named : twoEntries.starts.head?.map (·.id) = some "s" := by decide
    simpa [first] using named
  simp [head, alone, Instruction.block] at step

def oneProgram : Workspace :=
  (empty.insert (.leaf "start" "start") none).insert (.leaf "step" "forward")
    (some ("start", .next))

theorem snapshot_shows_iff_oneProgram : Planted oneProgram ∧
    oneProgram.compile = .ok [.act (.move .forward) "step"] ∧
      ∃ session : Session, session.recorder.workspace = oneProgram ∧
        ∃ entry main success, (session.execute ⟨3, 0⟩).1.recorder.record.snapshots =
            [⟨oneProgram.programShape, success⟩] ∧
          oneProgram.programShape.main = some main ∧ oneProgram.Shows entry main "step" := by
  have planted : Planted oneProgram :=
    .insert (.insert .empty (by decide) (by decide) rfl) (by decide) (by decide) (by decide)
  have compiled : oneProgram.compile = .ok [.act (.move .forward) "step"] := by with_unfolding_all rfl
  obtain ⟨loaded, -⟩ : ∃ session, load nearGoal 10 ⟨0, 0⟩ = .ok session := ⟨_, rfl⟩
  obtain ⟨-, entry, main, success, first, isMain, booked, -, shows⟩ :=
    @snapshot_shows_iff { loaded with recorder := ⟨oneProgram, .start 3, ∅⟩ } _ planted compiled
      ⟨3, 0⟩
  refine ⟨planted, compiled, _, rfl, entry.id, main, success, booked, isMain, ?_⟩
  refine (shows (.act (.move .forward) "step") (by simp [Script.nested, Instruction.nested])).2 ?_
  -- There is only one entry block, and its tree shows it.
  intro other isStart _
  obtain ⟨only, listed⟩ : ∃ only, oneProgram.starts = [only] :=
    List.length_eq_one_iff.1 (by decide)
  obtain ⟨found, -⟩ := mem_starts_iff.1 (List.mem_of_head? first)
  have drawn : oneProgram.shape? entry.id = some main := by
    simpa [programShape, entries_eq_starts, first] using isMain
  obtain rfl : entry = other := by simp_all
  exact (planted.consistent.treelike.shows_iff drawn).2 (mem_descendants_self found)

end Session

end RobotPuzzle
