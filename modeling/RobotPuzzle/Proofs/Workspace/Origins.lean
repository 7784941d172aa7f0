import Mathlib.Data.List.Permutation
import RobotPuzzle.Proofs.Workspace.Reach
import RobotPuzzle.Proofs.Workspace.Translation

/-!
Where the instructions of a compiled program come from. Links may form cycles or share blocks: no
block gives two instructions, and each that gives one is live, of its instruction's kind, and
connected to an entry block, upwards and downwards.
-/

namespace RobotPuzzle

mutual

def Instruction.nested : Instruction → List Instruction
  | .act action block => [.act action block]
  | .loop count body block => .loop count body block :: Script.nested body

def Script.nested : List Instruction → List Instruction
  | [] => []
  | instruction :: rest => instruction.nested ++ Script.nested rest

end

theorem Script.nested_append (script rest : List Instruction) :
    Script.nested (script ++ rest) = Script.nested script ++ Script.nested rest := by
  induction script with
  | nil => rfl
  | cons first others ih => simp [Script.nested, ih]

namespace Workspace

/-- The live block of an instruction is of its kind, and a loop has the block's number of rounds. -/
inductive Gives (workspace : Workspace) : Instruction → Prop
  | act {id block action} (found : workspace.live? id = some block)
      (type : actionTypes.lookup block.type = some action) : Gives workspace (.act action id)
  | loop {id block body} (found : workspace.live? id = some block) (type : block.type = "repeat") :
      Gives workspace (.loop block.loopCount body id)

/-- The instruction comes from a connected block in the live tree below `entry`. -/
structure Origin (workspace : Workspace) (entry : String) (instruction : Instruction) : Prop where
  gives : workspace.Gives instruction
  connected : workspace.isConnected instruction.block = true
  below : instruction.block ∈ workspace.descendants entry

/-- What a part of the compilation gives: instructions of blocks that it marks as seen on its way,
each once and none that was seen before. -/
structure Emits (origin : Instruction → Prop) (seen : List String)
    (result : Script × List String) : Prop where
  grows : seen ⊆ result.2
  distinct : ((Script.nested result.1).map (·.block)).Nodup
  fresh : ∀ instruction ∈ Script.nested result.1, instruction.block ∉ seen
  marked : ∀ instruction ∈ Script.nested result.1, instruction.block ∈ result.2
  origin : ∀ instruction ∈ Script.nested result.1, origin instruction

variable {workspace : Workspace} {entry id : String} {seen more middle last : List String}
  {script rest : Script} {block : Block}

namespace Emits

variable {origin wider : Instruction → Prop}

theorem nothing (grows : seen ⊆ last) : Emits origin seen ([], last) :=
  ⟨grows, .nil, by simp [Script.nested], by simp [Script.nested], by simp [Script.nested]⟩

theorem weaken {result : Script × List String} (emits : Emits origin more result)
    (subset : seen ⊆ more) (implies : ∀ instruction, origin instruction → wider instruction) :
    Emits wider seen result where
  grows := List.Subset.trans subset emits.grows
  distinct := emits.distinct
  fresh instruction member inSeen := emits.fresh instruction member (subset inSeen)
  marked := emits.marked
  origin instruction member := implies instruction (emits.origin instruction member)

theorem append (first : Emits origin seen (script, middle))
    (second : Emits origin middle (rest, last)) :
    Emits origin seen (script ++ rest, last) := by
  refine ⟨List.Subset.trans first.grows second.grows, ?_, ?_, ?_, ?_⟩
  · simp only [Script.nested_append, List.map_append]
    refine List.nodup_append'.2 ⟨first.distinct, second.distinct, ?_⟩
    intro id early late
    obtain ⟨instruction, member, rfl⟩ := List.mem_map.1 early
    obtain ⟨other, otherMember, same⟩ := List.mem_map.1 late
    exact second.fresh other otherMember (same ▸ first.marked instruction member)
  all_goals
    simp only [Script.nested_append, List.mem_append]
    rintro instruction (early | late)
  · exact first.fresh instruction early
  · exact fun inSeen => second.fresh instruction late (first.grows inSeen)
  · exact second.grows (first.marked instruction early)
  · exact second.marked instruction late
  · exact first.origin instruction early
  · exact second.origin instruction late

theorem slot {chain : List String → String → Script × List String} {root : Option String}
    (emits : ∀ id, root = some id → Emits origin seen (chain seen id)) :
    Emits origin seen (compileSlot chain seen root) := by
  cases root with
  | none => exact nothing (List.Subset.refl seen)
  | some id => exact emits id rfl

theorem act {action : Action} (comes : origin (.act action id))
    (fresh : id ∉ seen) : Emits origin seen ([.act action id], id :: seen) := by
  refine ⟨List.subset_cons_self id seen, ?_, ?_, ?_, ?_⟩ <;>
    simp_all [Script.nested, Instruction.nested, Instruction.block]

theorem loop {count : UInt32} {body : Script}
    (comes : origin (.loop count body id)) (fresh : id ∉ seen)
    (inner : Emits origin (id :: seen) (body, last)) :
    Emits origin seen ([.loop count body id], last) := by
  have nested : Script.nested [.loop count body id] = .loop count body id :: Script.nested body := by
    simp [Script.nested, Instruction.nested]
  have outside : ∀ instruction ∈ Script.nested body, instruction.block ≠ id ∧
      instruction.block ∉ seen := by
    intro instruction member
    simpa using inner.fresh instruction member
  refine ⟨fun low member => inner.grows (List.mem_cons_of_mem _ member), ?_, ?_, ?_, ?_⟩
  · simp only [nested, List.map_cons, List.nodup_cons]
    refine ⟨?_, inner.distinct⟩
    intro again
    obtain ⟨instruction, member, same⟩ := List.mem_map.1 again
    exact (outside instruction member).1 same
  all_goals
    simp only [nested, List.forall_mem_cons]
  · exact ⟨fresh, fun instruction member => (outside instruction member).2⟩
  · exact ⟨inner.grows List.mem_cons_self, inner.marked⟩
  · exact ⟨comes, inner.origin⟩

end Emits

theorem compileBlock_emits {chain : List String → String → Script × List String}
    (found : workspace.live? id = some block) (member : id ∈ workspace.descendants entry)
    (fresh : id ∉ seen)
    (inner : Emits (workspace.Origin entry) (id :: seen)
      (compileSlot chain (id :: seen) (block.children.get? .doBody))) :
    Emits (workspace.Origin entry) seen (workspace.compileBlock chain (id :: seen) block) := by
  obtain rfl := id_of_live? found
  have skipped : Emits (workspace.Origin entry) seen ([], block.id :: seen) :=
    .nothing (List.subset_cons_self _ _)
  simp only [compileBlock]
  by_cases connected : workspace.isConnected block.id = true
  · simp only [connected, Bool.not_true, Bool.false_eq_true, ↓reduceIte]
    rcases Block.kind_cases block with ⟨-, kind⟩ | ⟨type, kind⟩ | ⟨action, type, acts⟩ | ⟨-, kind⟩
    · simpa [kind, Kind.action?] using skipped
    · simp only [kind, ↓reduceIte]
      exact .loop ⟨.loop found type, connected, member⟩ fresh inner
    · have notLoop : block.kind ≠ .loop := by
        intro same
        simp [same, Kind.action?] at acts
      simp only [notLoop, ↓reduceIte, acts]
      exact .act ⟨.act found type, connected, member⟩ fresh
    · simpa [kind, Kind.action?] using skipped
  · simpa [connected] using skipped

theorem compileChain_emits (depth : Nat) (seen : List String) (id : String)
    (below : ∀ block, workspace.live? id = some block → id ∈ workspace.descendants entry) :
    Emits (workspace.Origin entry) seen (workspace.compileChain depth seen id) := by
  induction depth generalizing seen id with
  | zero => exact .nothing (List.Subset.refl seen)
  | succ depth ih =>
      simp only [compileChain]
      cases found : workspace.live? id with
      | none => exact .nothing (List.Subset.refl seen)
      | some block =>
          by_cases known : id ∈ seen
          · simpa [known] using .nothing (List.Subset.refl seen)
          have member := below block found
          have slots : ∀ (slot : Slot) (more : List String), Emits (workspace.Origin entry) more
              (compileSlot (workspace.compileChain depth) more (block.children.get? slot)) := by
            intro slot more
            refine .slot fun child held => ih more child fun childBlock alive => ?_
            exact mem_descendants_child member found held alive
          simp only [known, ↓reduceIte]
          exact (compileBlock_emits found member known (slots .doBody (id :: seen))).append
            (slots .next _)

theorem compileEntries_emits {entries : List Block} (seen : List String)
    (alive : ∀ entry ∈ entries, workspace.live? entry.id = some entry) :
    ∃ last, Emits (fun instruction => ∃ entry ∈ entries, workspace.Origin entry.id instruction) seen
      (workspace.compileEntries seen entries, last) := by
  induction entries generalizing seen with
  | nil => exact ⟨seen, .nothing (List.Subset.refl seen)⟩
  | cons entry others ih =>
      obtain ⟨found, aliveOthers⟩ := List.forall_mem_cons.1 alive
      have root : entry.id ∈ workspace.descendants entry.id := mem_descendants_self found
      have program : Emits (workspace.Origin entry.id) (entry.id :: seen)
          (compileSlot (workspace.compileChain workspace.blocks.length) (entry.id :: seen)
            (entry.children.get? .next)) :=
        .slot fun child held => compileChain_emits _ _ child fun childBlock aliveChild =>
          mem_descendants_child root found held aliveChild
      simp only [compileEntries]
      obtain ⟨last, later⟩ := ih (compileSlot (workspace.compileChain workspace.blocks.length)
        (entry.id :: seen) (entry.children.get? .next)).2 aliveOthers
      refine ⟨last, (program.weaken (List.subset_cons_self _ _) ?_).append
        (later.weaken (List.Subset.refl _) ?_)⟩
      · intro instruction origin
        exact ⟨entry, List.mem_cons_self, origin⟩
      · rintro instruction ⟨other, member, origin⟩
        exact ⟨other, List.mem_cons_of_mem _ member, origin⟩

/-- Compilation fails exactly when no live block is an entry. Otherwise no block gives two
instructions of the program, at whatever depth, and each instruction is that of a live block of its
kind which is connected to an entry and lies in the live tree below one. -/
theorem compile_origins (workspace : Workspace) :
    ((∃ error, workspace.compile = .error error) ↔
        ∀ id block, workspace.live? id = some block → block.type ≠ "start") ∧
      ∀ script, workspace.compile = .ok script →
        ((Script.nested script).map (·.block)).Nodup ∧
          ∀ instruction ∈ Script.nested script, ∃ entry ∈ workspace.starts,
            workspace.Origin entry.id instruction := by
  simp only [compile, entries_eq_starts]
  cases starts : workspace.starts with
  | nil =>
      refine ⟨⟨?_, fun _ => ⟨_, rfl⟩⟩, by simp⟩
      intro _ id block found isStart
      have member : block ∈ workspace.starts :=
        mem_starts_iff.2 ⟨(id_of_live? found).symm ▸ found, isStart⟩
      simp [starts] at member
  | cons entry others =>
      have alive : ∀ start ∈ entry :: others, workspace.live? start.id = some start ∧
          start.type = "start" :=
        fun start member => mem_starts_iff.1 (starts ▸ member)
      constructor
      · refine ⟨by simp, fun none => ?_⟩
        obtain ⟨found, isStart⟩ := alive entry List.mem_cons_self
        exact absurd isStart (none entry.id entry found)
      · intro script compiled
        obtain ⟨last, emits⟩ := compileEntries_emits [] fun start member => (alive start member).1
        obtain rfl := Except.ok.inj compiled
        exact ⟨emits.distinct, emits.origin⟩

/-- The step in a loop's body leads back to the loop and hangs below a second entry as well, which
itself hangs below the loop; beside them a block that is its own parent. -/
def knotted : Workspace where
  blocks :=
    [⟨"s", "start", .ofList [(.next, "r")], ∅, none, true, false⟩,
      ⟨"r", "repeat", .ofList [(.doBody, "f"), (.next, "e")], .ofList [("TIMES", "3")], some "s",
        false, false⟩,
      ⟨"f", "forward", .ofList [(.next, "r")], ∅, some "r", false, false⟩,
      ⟨"e", "start", .ofList [(.doBody, "p"), (.next, "f")], ∅, some "r", false, false⟩,
      ⟨"p", "pick_collectible", .ofList [(.next, "p")], ∅, some "p", false, false⟩]
  distinct := by decide

theorem compile_origins_knotted : ∃ script, knotted.compile = .ok script ∧
    Script.nested script = [.loop 3 [.act (.move .forward) "f"] "r", .act (.move .forward) "f"] ∧
      ((Script.nested script).map (·.block)).Nodup ∧
      ∀ instruction ∈ Script.nested script, ∃ entry ∈ knotted.starts,
        knotted.Origin entry.id instruction := by
  have compiled : knotted.compile = .ok [.loop 3 [.act (.move .forward) "f"] "r"] := by cbv
  obtain ⟨distinct, origin⟩ := (compile_origins knotted).2 _ compiled
  exact ⟨_, compiled, rfl, distinct, origin⟩

end Workspace

end RobotPuzzle
