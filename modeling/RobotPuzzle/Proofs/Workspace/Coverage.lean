import RobotPuzzle.Proofs.Workspace.Origins

/-!
What compilation does not miss. However the links of a workspace are tangled, a connected block that
stands for an instruction gives it if next blocks and loop bodies lead to the block from an entry.
-/

namespace RobotPuzzle

def Block.Executable (block : Block) : Prop :=
  block.kind = .loop ∨ block.kind.action?.isSome = true

namespace Workspace

open Relation

/-- From a live block to its next block, and from a loop to the first block of its body. -/
inductive Leg (workspace : Workspace) : String → String → Prop
  | next {id child block} (found : workspace.live? id = some block)
      (held : block.children.get? .next = some child) : Leg workspace id child
  | body {id child block} (found : workspace.live? id = some block) (loop : block.kind = .loop)
      (held : block.children.get? .doBody = some child) : Leg workspace id child

structure Given (workspace : Workspace) (result : Script × List String) (id : String) : Prop where
  emitted : ∀ block, workspace.live? id = some block → block.Executable →
    id ∈ (Script.nested result.1).map (·.block)
  body : ∀ block child held, workspace.live? id = some block → block.kind = .loop →
    block.children.get? .doBody = some child → workspace.live? child = some held → child ∈ result.2

structure Done (workspace : Workspace) (result : Script × List String) (id : String) : Prop where
  given : workspace.isConnected id = true → workspace.Given result id
  next : ∀ block child held, workspace.live? id = some block →
    block.children.get? .next = some child → workspace.live? child = some held → child ∈ result.2

/-- A part of the compilation has seen the live roots, and is done with all that it was first to
see. -/
structure Covers (workspace : Workspace) (roots seen : List String)
    (result : Script × List String) : Prop where
  grows : seen ⊆ result.2
  started : ∀ id ∈ roots, ∀ block, workspace.live? id = some block → id ∈ result.2
  done : ∀ id ∈ result.2, id ∉ seen → workspace.Done result id

variable {workspace : Workspace} {id : String} {roots others seen middle last : List String}
  {script rest : Script} {block : Block} {result more : Script × List String}

theorem Given.of_block (found : workspace.live? id = some block)
    (emitted : block.Executable → id ∈ (Script.nested result.1).map (·.block))
    (body : block.kind = .loop → ∀ child held, block.children.get? .doBody = some child →
      workspace.live? child = some held → child ∈ result.2) : workspace.Given result id := by
  have one : ∀ other, workspace.live? id = some other → other = block := fun other same =>
    Option.some.inj (same.symm.trans found)
  constructor
  · intro other same executable
    exact emitted (one other same ▸ executable)
  · intro other child held same loop inSlot alive
    obtain rfl := one other same
    exact body loop child held inSlot alive

theorem Given.mono (given : workspace.Given result id)
    (nested : Script.nested result.1 ⊆ Script.nested more.1) (ids : result.2 ⊆ more.2) :
    workspace.Given more id where
  emitted block found executable :=
    List.map_subset _ nested (given.emitted block found executable)
  body block child held found loop inSlot alive :=
    ids (given.body block child held found loop inSlot alive)

theorem Done.mono (done : workspace.Done result id)
    (nested : Script.nested result.1 ⊆ Script.nested more.1) (ids : result.2 ⊆ more.2) :
    workspace.Done more id where
  given connected := (done.given connected).mono nested ids
  next block child held found inSlot alive := ids (done.next block child held found inSlot alive)

namespace Covers

theorem nothing (passed : ∀ id ∈ roots, ∀ block, workspace.live? id = some block → id ∈ seen) :
    workspace.Covers roots seen ([], seen) :=
  ⟨List.Subset.refl seen, passed, fun _ member fresh => absurd member fresh⟩

theorem append (first : workspace.Covers roots seen (script, middle))
    (second : workspace.Covers others middle (rest, last)) :
    workspace.Covers (roots ++ others) seen (script ++ rest, last) := by
  have front : Script.nested script ⊆ Script.nested (script ++ rest) := by
    simp [Script.nested_append]
  have back : Script.nested rest ⊆ Script.nested (script ++ rest) := by
    simp [Script.nested_append]
  refine ⟨List.Subset.trans first.grows second.grows, ?_, ?_⟩
  · intro id isRoot block found
    rcases List.mem_append.1 isRoot with early | late
    · exact second.grows (first.started id early block found)
    · exact second.started id late block found
  · intro id member fresh
    by_cases early : id ∈ middle
    · exact (first.done id early fresh).mono front second.grows
    · exact (second.done id member early).mono back (List.Subset.refl last)

theorem enter (found : workspace.live? id = some block)
    (below : workspace.Covers (block.children.get? .next).toList (id :: seen) result)
    (given : workspace.isConnected id = true → workspace.Given result id) :
    workspace.Covers [id] seen result := by
  have here : id ∈ result.2 := below.grows List.mem_cons_self
  refine ⟨fun _ member => below.grows (List.mem_cons_of_mem _ member), ?_, ?_⟩
  · intro root isRoot _ _
    obtain rfl := List.mem_singleton.1 isRoot
    exact here
  · intro other member fresh
    by_cases same : other = id
    · subst same
      refine ⟨given, fun same child held foundSame inSlot alive => ?_⟩
      obtain rfl := Option.some.inj (found.symm.trans foundSame)
      exact below.started child (by simp [inSlot]) held alive
    · exact below.done other member (by simp [same, fresh])

theorem slot {chain : List String → String → Script × List String} {root : Option String}
    (covers : ∀ id, root = some id → workspace.Covers [id] seen (chain seen id)) :
    workspace.Covers root.toList seen (compileSlot chain seen root) := by
  cases root with
  | none => exact nothing (by simp)
  | some id => exact covers id rfl

end Covers

theorem compileBlock_covers {chain : List String → String → Script × List String}
    (found : workspace.live? id = some block)
    (inner : workspace.Covers (block.children.get? .doBody).toList (id :: seen)
      (compileSlot chain (id :: seen) (block.children.get? .doBody))) :
    workspace.Covers [] (id :: seen) (workspace.compileBlock chain (id :: seen) block) ∧
      (workspace.isConnected id = true →
        workspace.Given (workspace.compileBlock chain (id :: seen) block) id) := by
  obtain rfl := id_of_live? found
  simp only [compileBlock]
  by_cases connected : workspace.isConnected block.id = true
  · simp only [connected, Bool.not_true, Bool.false_eq_true, ↓reduceIte]
    by_cases loop : block.kind = .loop
    · simp only [loop, ↓reduceIte]
      generalize compileSlot chain (block.id :: seen) (block.children.get? .doBody) = compiled
        at inner ⊢
      obtain ⟨body, middle⟩ := compiled
      have inside : Script.nested body ⊆ Script.nested [.loop block.loopCount body block.id] := by
        simp [Script.nested, Instruction.nested]
      refine ⟨⟨inner.grows, by simp, fun other member fresh =>
        (inner.done other member fresh).mono inside (List.Subset.refl middle)⟩, fun _ => ?_⟩
      refine .of_block found (fun _ => ?_) fun _ child held inSlot alive => ?_
      · simp [Script.nested, Instruction.nested, Instruction.block]
      · exact inner.started child (by simp [inSlot]) held alive
    · simp only [loop, ↓reduceIte]
      cases acts : block.kind.action? with
      | none =>
          refine ⟨.nothing (by simp), fun _ => .of_block found (fun executable => ?_) ?_⟩
          · simp [Block.Executable, loop, acts] at executable
          · exact fun isLoop => absurd isLoop loop
      | some action =>
          refine ⟨⟨List.Subset.refl _, by simp, fun other member fresh => absurd member fresh⟩,
            fun _ => .of_block found (fun _ => ?_) ?_⟩
          · simp [Script.nested, Instruction.nested, Instruction.block]
          · exact fun isLoop => absurd isLoop loop
  · simpa [connected] using Covers.nothing (by simp)

theorem compileChain_covers (depth : Nat) (seen : List String) (id : String)
    (room : workspace.unseen seen ≤ depth) :
    workspace.Covers [id] seen (workspace.compileChain depth seen id) := by
  induction depth generalizing seen id with
  | zero =>
      refine .nothing fun other isRoot block found => ?_
      by_contra fresh
      -- A live block that has not been seen needs at least one level.
      have less := unseen_cons_lt (live?_eq_some_iff.1 found).1 fresh
      omega
  | succ depth ih =>
      simp only [compileChain]
      cases found : workspace.live? id with
      | none => exact .nothing (by simp [found])
      | some block =>
          by_cases known : id ∈ seen
          · simpa [known] using .nothing (by simp [known])
          have less := unseen_cons_lt (live?_eq_some_iff.1 found).1 known
          have slots : ∀ (slot : Slot) (more : List String), id :: seen ⊆ more →
              workspace.Covers (block.children.get? slot).toList more
                (compileSlot (workspace.compileChain depth) more (block.children.get? slot)) := by
            intro slot more grows
            have shrinks : workspace.unseen more ≤ workspace.unseen (id :: seen) :=
              unseen_le_of_subset grows
            exact .slot fun child _ => ih more child (by omega)
          obtain ⟨own, given⟩ :=
            compileBlock_covers found (slots .doBody (id :: seen) (List.Subset.refl _))
          simp only [known, ↓reduceIte]
          have next := slots .next _ own.grows
          refine .enter found (own.append next) fun connected => (given connected).mono ?_ next.grows
          simp [Script.nested_append]

theorem compileEntries_covers {entries : List Block} (seen : List String)
    (starts : ∀ entry ∈ entries, workspace.live? entry.id = some entry ∧ entry.kind = .start) :
    ∃ last, workspace.Covers (entries.map (·.id)) seen
      (workspace.compileEntries seen entries, last) := by
  induction entries generalizing seen with
  | nil => exact ⟨seen, .nothing (by simp)⟩
  | cons entry others ih =>
      obtain ⟨⟨found, isStart⟩, startsOthers⟩ := List.forall_mem_cons.1 starts
      have chain : workspace.Covers (entry.children.get? .next).toList (entry.id :: seen)
          (compileSlot (workspace.compileChain workspace.blocks.length) (entry.id :: seen)
            (entry.children.get? .next)) :=
        .slot fun child _ => compileChain_covers _ _ child (unseen_le_length _)
      -- An entry block gives no instruction and has no body.
      have given : ∀ result, workspace.Given result entry.id := by
        refine fun result => .of_block found (fun executable => ?_) fun loop => ?_
        · simp [Block.Executable, isStart, Kind.action?] at executable
        · simp [isStart] at loop
      have program := chain.enter found fun _ => given _
      simp only [compileEntries]
      obtain ⟨last, later⟩ := ih (compileSlot (workspace.compileChain workspace.blocks.length)
        (entry.id :: seen) (entry.children.get? .next)).2 startsOthers
      exact ⟨last, program.append later⟩

/-- If all is connected that next blocks and loop bodies lead to from the entries, all of it that
stands for an instruction is in the program. -/
theorem compile_covers (workspace : Workspace)
    (connected : ∀ entry ∈ workspace.starts, ∀ id block, ReflTransGen workspace.Leg entry.id id →
      workspace.live? id = some block → workspace.isConnected id = true) :
    ∀ entry ∈ workspace.starts, ∃ script, workspace.compile = .ok script ∧
      ∀ id block, ReflTransGen workspace.Leg entry.id id → workspace.live? id = some block →
        block.Executable → ∃ instruction ∈ Script.nested script, instruction.block = id := by
  intro entry isEntry
  have starts : ∀ entry ∈ workspace.starts, workspace.live? entry.id = some entry ∧
      entry.kind = .start := by
    intro entry member
    obtain ⟨found, type⟩ := mem_starts_iff.1 member
    exact ⟨found, (Block.kind_eq_start_iff entry).2 type⟩
  obtain ⟨last, covers⟩ := compileEntries_covers [] starts
  have done : ∀ id ∈ last, workspace.Done (workspace.compileEntries [] workspace.starts, last) id :=
    fun id member => covers.done id member List.not_mem_nil
  have visited : ∀ id block, ReflTransGen workspace.Leg entry.id id →
      workspace.live? id = some block → id ∈ last := by
    intro id block path
    induction path generalizing block with
    | refl => exact fun found => covers.started _ (List.mem_map_of_mem isEntry) block found
    | tail above leg ih =>
        intro found
        cases leg with
        | next foundParent held =>
            exact (done _ (ih _ foundParent)).next _ _ _ foundParent held found
        | body foundParent loop held =>
            have given := (done _ (ih _ foundParent)).given
              (connected entry isEntry _ _ above foundParent)
            exact given.body _ _ _ foundParent loop held found
  refine ⟨workspace.compileEntries [] workspace.starts, ?_, ?_⟩
  · rw [compile, entries_eq_starts]
    cases listed : workspace.starts with
    | nil => simp [listed] at isEntry
    | cons => rfl
  · intro id block path found executable
    have given := (done id (visited id block path found)).given
      (connected entry isEntry id block path found)
    exact List.mem_map.1 (given.emitted block found executable)

end Workspace

end RobotPuzzle
