import RobotPuzzle.Proofs.Script.Anonymous
import RobotPuzzle.Proofs.Workspace.Depiction
import RobotPuzzle.Proofs.Workspace.Reach
import RobotPuzzle.Proofs.Workspace.Readback
import RobotPuzzle.Proofs.Workspace.Translation

/-!
Programs with the same fingerprint do the same: the fingerprint can be read back to the shape, and
the shape fixes every instruction up to the ids of the blocks.
-/

namespace RobotPuzzle

/-- The block is of a known type other than the entry's, and its loop field cannot close the
parenthesis around it. -/
def Block.Plain (block : Block) : Prop :=
  block.kind ≠ .start ∧ block.kind ≠ .other ∧
    ∀ times ∈ block.fields.get? timesField, ')' ∉ times.toList

instance (block : Block) : Decidable block.Plain :=
  inferInstanceAs (Decidable (_ ∧ _ ∧ ∀ times ∈ block.fields.get? timesField, ')' ∉ times.toList))

def Block.times (block : Block) : String := (block.fields.get? timesField).getD "0"

theorem Block.shapeName_loop {block : Block} (loop : block.kind = .loop) :
    block.shapeName = "r(" ++ block.times ++ ")" := by
  simp [Block.shapeName, Block.shortType, loop, Kind.shortName?, Block.times]

theorem Block.loopCount_eq (block : Block) : block.loopCount =
    ((Text.numeral? UInt32.size (Text.trim block.times.toList)).getD 0).toUInt32 := by
  have zero : ((Text.numeral? UInt32.size (Text.trim "0".toList)).getD 0).toUInt32 = 0 := by
    decide
  rw [Block.loopCount, Block.times]
  cases block.fields.get? timesField with
  | none => exact zero.symm
  | some text => rfl

theorem Block.loopCount_eq_of_shapeName {block second : Block} (loop : block.kind = .loop)
    (loopToo : second.kind = .loop) (same : block.shapeName = second.shapeName) :
    block.loopCount = second.loopCount := by
  have times : block.times = second.times := by
    rw [Block.shapeName_loop loop, Block.shapeName_loop loopToo] at same
    rw [← String.toList_inj] at same ⊢
    simpa using same
  rw [Block.loopCount_eq, Block.loopCount_eq, times]

theorem Block.action?_of_lookup (block : Block) {action : Action}
    (type : Workspace.actionTypes.lookup block.type = some action) :
    block.kind.action? = some action := by
  have noStart : Workspace.actionTypes.lookup "start" = none := rfl
  have noLoop : Workspace.actionTypes.lookup "repeat" = none := rfl
  rcases Workspace.Block.kind_cases block with ⟨same, -⟩ | ⟨same, -⟩ | ⟨_, same, acts⟩ | ⟨same, -⟩
  · cases (same ▸ type).symm.trans noStart
  · cases (same ▸ type).symm.trans noLoop
  · exact type.symm.trans same ▸ acts
  · cases type.symm.trans same.2.2

theorem Kind.eq_of_shortName? {kind second : Kind} (notStart : kind ≠ .start)
    (notStartToo : second ≠ .start) (known : kind ≠ .other)
    (same : kind.shortName? = second.shortName?) : kind = second := by
  cases kind <;> cases second <;> simp_all [Kind.shortName?]

namespace Block.Plain

variable {block second : Block}

theorem shortName (plain : block.Plain) : block.kind.shortName? = some block.shortType := by
  have known := plain.2.1
  simp only [Block.shortType]
  cases kind : block.kind <;> simp_all [Kind.shortName?]

theorem kind_eq (plain : block.Plain) (plainToo : second.Plain)
    (same : block.shortType = second.shortType) : block.kind = second.kind := by
  refine Kind.eq_of_shortName? plain.1 plainToo.1 plain.2.1 ?_
  rw [plain.shortName, plainToo.shortName, same]

theorem usual (plain : block.Plain) : Shape.Usual block.shortType block.shapeName := by
  by_cases loop : block.kind = .loop
  · have named : block.shortType = "r" := by simp [Block.shortType, loop, Kind.shortName?]
    have free : ')' ∉ block.times.toList := by
      simp only [Block.times]
      cases held : block.fields.get? timesField with
      | none => decide
      | some times => exact plain.2.2 times held
    rw [named, Block.shapeName_loop loop]
    exact .loop free
  · have known : ∀ kind : Kind, kind ≠ .loop → ∀ name ∈ kind.shortName?,
        name ∈ Shape.shortNames := by
      intro kind notLoop
      cases kind <;> simp_all [Kind.shortName?, Shape.shortNames]
    simp only [Block.shapeName, loop, ↓reduceIte]
    exact .short (known block.kind loop _ plain.shortName)

end Block.Plain

namespace Workspace

/-- A consistent workspace with one live entry block, which stands alone, and with plain blocks
only below it, in the slots that show in a fingerprint. -/
structure OneProgram (workspace : Workspace) (entry : Block) : Prop where
  consistent : workspace.Consistent
  starts : workspace.starts = [entry]
  alone : entry.parent = none
  plain : ∀ id ∈ workspace.descendants entry.id, id ≠ entry.id →
    ∀ block, workspace.live? id = some block → block.Plain
  shown : ∀ id ∈ workspace.descendants entry.id, id ≠ entry.id →
    ∀ parent slot, workspace.Holds parent slot id → slot ∈ Shape.shownSlots

variable {workspace : Workspace} {entry : Block}

theorem Depicts.exists_block {root : Option String} {shape : Shape}
    (depicts : workspace.Depicts root (some shape)) :
    ∃ id block, ∃ children : SortedMap Slot Shape, root = some id ∧
      workspace.live? id = some block ∧
      shape = ⟨block.shortType, block.shapeName, children.entries⟩ ∧
      ∀ slot, workspace.Depicts (block.children.get? slot) (children.get? slot) := by
  cases depicts with
  | @shown id block children found below => exact ⟨id, block, children, rfl, found, rfl, below⟩

namespace OneProgram

theorem entry_live (one : workspace.OneProgram entry) :
    workspace.live? entry.id = some entry ∧ entry.type = "start" :=
  mem_starts_iff.1 (by simp [one.starts])

theorem entry_mem (one : workspace.OneProgram entry) :
    entry.id ∈ workspace.descendants entry.id :=
  mem_descendants_iff.2 ⟨⟨entry, one.entry_live.1⟩, .refl⟩

theorem startsAlone (one : workspace.OneProgram entry) : workspace.StartsAlone := by
  intro id block found isStart
  have member : block ∈ workspace.starts :=
    mem_starts_iff.2 ⟨(id_of_live? found).symm ▸ found, isStart⟩
  obtain rfl : block = entry := by simpa [one.starts] using member
  exact one.alone

theorem child_below (one : workspace.OneProgram entry) {id child : String} {slot : Slot}
    {block held : Block} (member : id ∈ workspace.descendants entry.id)
    (found : workspace.live? id = some block) (holds : block.children.get? slot = some child)
    (alive : workspace.live? child = some held) :
    child ∈ workspace.descendants entry.id ∧ child ≠ entry.id ∧ slot ∈ Shape.shownSlots := by
  have inTree := mem_descendants_child member found holds alive
  have holdsChild : workspace.Holds id slot child := ⟨block, (live?_eq_some_iff.1 found).1, holds⟩
  have different : child ≠ entry.id := by
    rintro rfl
    have named := one.consistent.parent_of_holds holdsChild (live?_eq_some_iff.1 one.entry_live.1).1
    simp [one.alone] at named
  exact ⟨inTree, different, one.shown child inTree different id slot holdsChild⟩

def InProgram (workspace : Workspace) (entry : Block) (root : Option String) : Prop :=
  ∀ id block, root = some id → workspace.live? id = some block →
    id ∈ workspace.descendants entry.id ∧ id ≠ entry.id

theorem slot_inProgram (one : workspace.OneProgram entry) {id : String} {block : Block}
    (member : id ∈ workspace.descendants entry.id) (found : workspace.live? id = some block)
    (slot : Slot) : InProgram workspace entry (block.children.get? slot) := by
  intro child held holds alive
  obtain ⟨inTree, different, -⟩ := one.child_below member found holds alive
  exact ⟨inTree, different⟩

theorem canonical_block (one : workspace.OneProgram entry) {id : String} {block : Block}
    {children : SortedMap Slot Shape} (member : id ∈ workspace.descendants entry.id)
    (found : workspace.live? id = some block)
    (usual : Shape.Usual block.shortType block.shapeName)
    (depicts : ∀ slot, workspace.Depicts (block.children.get? slot) (children.get? slot))
    (below : ∀ slot child, children.get? slot = some child → child.Canonical) :
    Shape.Canonical ⟨block.shortType, block.shapeName, children.entries⟩ := by
  refine .intro usual ?_ below
  intro slot child shows
  have childDepicts := depicts slot
  rw [shows] at childDepicts
  obtain ⟨top, held, _, holds, alive, -⟩ := childDepicts.exists_block
  exact (one.child_below member found holds alive).2.2

theorem canonical (one : workspace.OneProgram entry) {root : Option String}
    {shape : Option Shape} (depicts : workspace.Depicts root shape)
    (inside : InProgram workspace entry root) : ∀ shown, shape = some shown → shown.Canonical := by
  induction depicts with
  | missing => simp
  | gone dead => simp
  | @shown id block children found below ih =>
      obtain ⟨member, different⟩ := inside id block rfl found
      rintro shown ⟨⟩
      refine one.canonical_block member found (one.plain id member different block found).usual
        below ?_
      intro slot child shows
      exact ih slot (one.slot_inProgram member found slot) child shows

theorem entry_shape (one : workspace.OneProgram entry) :
    ∃ children : SortedMap Slot Shape,
      workspace.shape? entry.id = some ⟨entry.shortType, entry.shapeName, children.entries⟩ ∧
      Shape.Canonical ⟨entry.shortType, entry.shapeName, children.entries⟩ ∧
      ∀ slot, workspace.Depicts (entry.children.get? slot) (children.get? slot) := by
  obtain ⟨found, isStart⟩ := one.entry_live
  have usual : Shape.Usual entry.shortType entry.shapeName := by
    have kind : entry.kind = .start := (Block.kind_eq_start_iff entry).2 isStart
    have named : entry.shortType = "b" := by simp [Block.shortType, kind, Kind.shortName?]
    simp only [Block.shapeName, kind, reduceCtorEq, ↓reduceIte, named]
    exact .short (by decide)
  have depicts := shape?_depicts one.consistent.treelike entry.id
  cases shown : workspace.shape? entry.id with
  | none =>
      rw [shown] at depicts
      cases depicts with
      | gone dead => simp [found] at dead
  | some shape =>
      rw [shown] at depicts
      obtain ⟨id, block, children, same, foundSame, rfl, below⟩ := depicts.exists_block
      obtain rfl := Option.some.inj same
      obtain rfl := Option.some.inj (found.symm.trans foundSame)
      refine ⟨children, rfl, one.canonical_block one.entry_mem found usual below ?_, below⟩
      intro slot child shows
      exact one.canonical (below slot) (one.slot_inProgram one.entry_mem found slot) child shows

end OneProgram

theorem Translation.of_hidden {root : Option String} {script : Script}
    (hidden : workspace.Depicts root none) (translation : workspace.Translation root script) :
    script = [] := by
  cases hidden with
  | missing => cases translation; rfl
  | gone dead => cases translation <;> simp_all

theorem Translation.of_plain {id : String} {block : Block} {script : Script} (plain : block.Plain)
    (found : workspace.live? id = some block)
    (translation : workspace.Translation (some id) script) :
    ∃ rest, workspace.Translation (block.children.get? .next) rest ∧
      ((∃ action, block.kind.action? = some action ∧ script = .act action id :: rest) ∨
        (block.kind = .loop ∧ ∃ body, workspace.Translation (block.children.get? .doBody) body ∧
          script = .loop block.loopCount body id :: rest)) := by
  cases translation with
  | gone dead => simp [found] at dead
  | @act _ same action rest foundSame type next =>
      obtain rfl := Option.some.inj (found.symm.trans foundSame)
      exact ⟨rest, next, .inl ⟨action, block.action?_of_lookup type, rfl⟩⟩
  | @loop _ same body rest foundSame type inner next =>
      obtain rfl := Option.some.inj (found.symm.trans foundSame)
      have kind : block.kind = .loop := by simp [Block.kind, type, Kind.ofType]
      exact ⟨rest, next, .inr ⟨kind, body, inner, rfl⟩⟩
  | @unknown _ same rest foundSame type next =>
      obtain rfl := Option.some.inj (found.symm.trans foundSame)
      rcases Block.kind_cases block with ⟨typeToo, -⟩ | ⟨typeToo, -⟩ | ⟨_, typeToo, -⟩ | ⟨-, kind⟩
      · exact absurd typeToo type.1
      · exact absurd typeToo type.2.1
      · cases type.2.2.symm.trans typeToo
      · exact absurd kind plain.2.1

variable {first second : Workspace} {firstEntry secondEntry : Block}

/-- Trees with the same shape translate to the same program, up to the ids of the blocks. -/
theorem translations_anonymous_eq (one : first.OneProgram firstEntry)
    (oneToo : second.OneProgram secondEntry) {root otherRoot : Option String}
    {shape : Option Shape} {script otherScript : Script} (depicts : first.Depicts root shape)
    (depictsToo : second.Depicts otherRoot shape)
    (inside : OneProgram.InProgram first firstEntry root)
    (insideToo : OneProgram.InProgram second secondEntry otherRoot)
    (translation : first.Translation root script)
    (translationToo : second.Translation otherRoot otherScript) :
    Script.anonymous script = Script.anonymous otherScript := by
  induction depicts generalizing otherRoot script otherScript with
  | missing => rw [translation.of_hidden .missing, translationToo.of_hidden depictsToo]
  | gone dead => rw [translation.of_hidden (.gone dead), translationToo.of_hidden depictsToo]
  | @shown id block children found below ih =>
      -- The second root shows the same shape, so types, names and the shapes below agree.
      obtain ⟨otherId, otherBlock, otherChildren, rfl, foundToo, same, belowToo⟩ :=
        depictsToo.exists_block
      obtain ⟨types, names, entries⟩ := Shape.mk.inj same
      obtain rfl := SortedMap.ext_entries entries
      obtain ⟨member, different⟩ := inside id block rfl found
      obtain ⟨memberToo, differentToo⟩ := insideToo otherId otherBlock rfl foundToo
      have plain := one.plain id member different block found
      have plainToo := oneToo.plain otherId memberToo differentToo otherBlock foundToo
      have kinds := plain.kind_eq plainToo types
      have slots : ∀ slot {part otherPart}, first.Translation (block.children.get? slot) part →
          second.Translation (otherBlock.children.get? slot) otherPart →
          Script.anonymous part = Script.anonymous otherPart := fun slot =>
        ih slot (belowToo slot) (one.slot_inProgram member found slot)
          (oneToo.slot_inProgram memberToo foundToo slot)
      obtain ⟨rest, next, own⟩ := translation.of_plain plain found
      obtain ⟨otherRest, otherNext, otherOwn⟩ := translationToo.of_plain plainToo foundToo
      have rests := slots .next next otherNext
      rcases own with ⟨action, acts, rfl⟩ | ⟨loop, body, inner, rfl⟩ <;>
        rcases otherOwn with ⟨otherAction, actsToo, rfl⟩ | ⟨loopToo, otherBody, otherInner, rfl⟩
      · obtain rfl : action = otherAction := by simpa [← kinds, acts] using actsToo
        simp only [Script.anonymous, Instruction.anonymous, rests]
      · simp [kinds, loopToo, Kind.action?] at acts
      · simp [← kinds, loop, Kind.action?] at actsToo
      · simp only [Script.anonymous, Instruction.anonymous, rests,
          slots .doBody inner otherInner, Block.loopCount_eq_of_shapeName loop loopToo names]

theorem OneProgram.compile_eq (one : workspace.OneProgram entry) :
    ∃ script, workspace.compile = .ok script ∧
      workspace.Translation (entry.children.get? .next) script := by
  have translations : workspace.Translations [entry] (workspace.compileEntries [] [entry]) :=
    compileEntries_translations one.consistent one.startsAlone []
      (by simpa using one.entry_live) (by simp) (by simp)
  have compiled : workspace.compile = .ok (workspace.compileEntries [] [entry]) := by
    simp only [compile, entries_eq_starts, one.starts]
  refine ⟨_, compiled, ?_⟩
  generalize workspace.compileEntries [] [entry] = script at translations
  cases translations with
  | cons program others =>
      cases others
      simpa using program

/-- Workspaces with one program each and the same fingerprint of it compile to the same program up
to the ids of the blocks, so every run of the two from the same world under the same ceiling has the
same verdict, steps and world at the end, and the same log up to the ids of the blocks. -/
theorem fingerprint_fixes_behaviour (one : first.OneProgram firstEntry)
    (oneToo : second.OneProgram secondEntry)
    (same : (first.shape? firstEntry.id).map Shape.fingerprint =
      (second.shape? secondEntry.id).map Shape.fingerprint) :
    ∃ program otherProgram, first.compile = .ok program ∧ second.compile = .ok otherProgram ∧
      Script.anonymous program = Script.anonymous otherProgram ∧
      ∀ limit world, (Attempt.ofScript limit program world).anonymous =
        (Attempt.ofScript limit otherProgram world).anonymous := by
  obtain ⟨program, compiled, translation⟩ := one.compile_eq
  obtain ⟨otherProgram, compiledToo, translationToo⟩ := oneToo.compile_eq
  obtain ⟨children, shown, canonical, below⟩ := one.entry_shape
  obtain ⟨otherChildren, shownToo, canonicalToo, belowToo⟩ := oneToo.entry_shape
  have texts : Shape.render ⟨firstEntry.shortType, firstEntry.shapeName, children.entries⟩ =
      Shape.render ⟨secondEntry.shortType, secondEntry.shapeName, otherChildren.entries⟩ := by
    rw [shown, shownToo] at same
    simpa [Shape.fingerprint_eq_render] using same
  have shapes := (canonical.readable canonicalToo (by simp [Shape.StartsIn])
    (by simp [Shape.StartsIn]) (congrArg (·.toList ++ []) texts)).1
  obtain rfl := SortedMap.ext_entries (Shape.mk.inj shapes).2.2
  have programs : Script.anonymous program = Script.anonymous otherProgram :=
    translations_anonymous_eq one oneToo (below .next) (belowToo .next)
      (one.slot_inProgram one.entry_mem one.entry_live.1 .next)
      (oneToo.slot_inProgram oneToo.entry_mem oneToo.entry_live.1 .next) translation translationToo
  refine ⟨program, otherProgram, compiled, compiledToo, programs, ?_⟩
  intro limit world
  rw [← Attempt.ofScript_anonymous, ← Attempt.ofScript_anonymous, programs]

/-- One program by looking at every block, given the live tree below the entry. -/
theorem OneProgram.of_blocks {tree : List String} (consistent : workspace.Consistent)
    (starts : workspace.starts = [entry]) (alone : entry.parent = none)
    (whole : workspace.descendants entry.id = tree)
    (plain : ∀ block ∈ workspace.blocks, block.id ∈ tree → block.id ≠ entry.id → block.Plain)
    (shown : ∀ block ∈ workspace.blocks, ∀ held ∈ block.children.entries,
      held.2 ∈ tree → held.2 ≠ entry.id → held.1 ∈ Shape.shownSlots) :
    workspace.OneProgram entry where
  consistent := consistent
  starts := starts
  alone := alone
  plain := by
    intro id member different block found
    obtain ⟨inBlocks, rfl⟩ := find?_eq_some_iff.1 (live?_eq_some_iff.1 found).1
    exact plain block inBlocks (whole ▸ member) different
  shown := by
    intro id member different parent slot holds
    obtain ⟨block, inBlocks, -, held⟩ := holds_iff.1 holds
    exact shown block inBlocks (slot, id) held (whole ▸ member) different

def startBefore (id next : String) : Block :=
  ⟨id, "start", .ofList [(.next, next)], ∅, none, true, false⟩

def loopAndTurn : Workspace where
  blocks :=
    [startBefore "s" "r",
      ⟨"r", "repeat", .ofList [(.doBody, "f"), (.next, "t")], .ofList [("TIMES", "3")],
        some "s", false, false⟩,
      ⟨"f", "forward", .ofList [(.next, "x")], ∅, some "r", false, false⟩,
      ⟨"x", "pick_collectible", ∅, ∅, some "f", false, true⟩,
      ⟨"t", "turn_left", ∅, ∅, some "r", false, false⟩]
  distinct := by decide

def loopAndTurnRenamed : Workspace where
  blocks :=
    [⟨"d", "turn_left", ∅, ∅, some "b", false, false⟩,
      ⟨"n", "note", ∅, ∅, none, true, false⟩,
      ⟨"b", "repeat", .ofList [(.doBody, "c"), (.next, "d")], .ofList [("TIMES", "3")],
        some "a", false, false⟩,
      ⟨"c", "forward", ∅, ∅, some "b", false, false⟩,
      startBefore "a" "b"]
  distinct := by decide

theorem fingerprint_fixes_behaviour_renamed :
    loopAndTurn.OneProgram (startBefore "s" "r") ∧
      loopAndTurnRenamed.OneProgram (startBefore "a" "b") ∧
      (loopAndTurn.shape? "s").map Shape.fingerprint =
        (loopAndTurnRenamed.shape? "a").map Shape.fingerprint ∧
      ∃ program otherProgram, loopAndTurn.compile = .ok program ∧
        loopAndTurnRenamed.compile = .ok otherProgram ∧
        Script.anonymous program = Script.anonymous otherProgram ∧
        ∀ limit world, (Attempt.ofScript limit program world).anonymous =
          (Attempt.ofScript limit otherProgram world).anonymous := by
  have one : loopAndTurn.OneProgram (startBefore "s" "r") := by
    have whole : loopAndTurn.descendants "s" = ["s", "r", "f", "t"] := by decide +kernel
    exact .of_blocks (.of_blocks loopAndTurn.ids (by decide) (by decide) (by decide) (by decide))
      (by decide) rfl whole (by decide) (by decide)
  have oneToo : loopAndTurnRenamed.OneProgram (startBefore "a" "b") := by
    have whole : loopAndTurnRenamed.descendants "a" = ["a", "b", "c", "d"] := by decide +kernel
    exact .of_blocks (.of_blocks ["a", "b", "c", "d", "n"] (by decide) (by decide) (by decide)
      (by decide)) (by decide) rfl whole (by decide) (by decide)
  have same : (loopAndTurn.shape? "s").map Shape.fingerprint =
      (loopAndTurnRenamed.shape? "a").map Shape.fingerprint := congrArg _ rfl
  exact ⟨one, oneToo, same, fingerprint_fixes_behaviour one oneToo same⟩

end Workspace

end RobotPuzzle
