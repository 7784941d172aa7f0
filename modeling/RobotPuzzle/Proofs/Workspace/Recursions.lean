import RobotPuzzle.Proofs.Workspace.Loops
import RobotPuzzle.Workspace.Compile
import RobotPuzzle.Workspace.Shape

/-!
The recursions that draw and compile a workspace, with no bound on their depth and with the list of
the blocks that they enter. They come to an end on every workspace: a block is marked before
anything below it is followed, so none is entered twice.
-/

namespace RobotPuzzle.Workspace

variable {workspace : Workspace} {seen entered more : List String} {id : String} {block : Block}

structure Entered (workspace : Workspace) (seen entered : List String) : Prop where
  distinct : entered.Nodup
  fresh : ∀ id ∈ entered, id ∉ seen
  alive : ∀ id ∈ entered, ∃ block, workspace.live? id = some block

namespace Entered

theorem nil : workspace.Entered seen [] := ⟨.nil, by simp, by simp⟩

theorem cons (found : workspace.live? id = some block) (fresh : id ∉ seen)
    (rest : workspace.Entered (id :: seen) entered) : workspace.Entered seen (id :: entered) := by
  refine ⟨List.nodup_cons.2 ⟨fun again => ?_, rest.distinct⟩, ?_, ?_⟩
  · exact rest.fresh id again List.mem_cons_self
  · intro other member inSeen
    rcases List.mem_cons.1 member with rfl | later
    · exact fresh inSeen
    · exact rest.fresh other later (List.mem_cons_of_mem _ inSeen)
  · intro other member
    rcases List.mem_cons.1 member with rfl | later
    · exact ⟨block, found⟩
    · exact rest.alive other later

theorem append (first : workspace.Entered seen entered)
    (second : workspace.Entered (entered.reverse ++ seen) more) :
    workspace.Entered seen (entered ++ more) := by
  refine ⟨List.nodup_append'.2 ⟨first.distinct, second.distinct, ?_⟩, ?_, ?_⟩
  · intro id early late
    exact second.fresh id late (by simp [early])
  · intro id member inSeen
    rcases List.mem_append.1 member with early | late
    · exact first.fresh id early inSeen
    · exact second.fresh id late (by simp [inSeen])
  · intro id member
    exact (List.mem_append.1 member).elim (first.alive id) (second.alive id)

theorem of_subset {fewer : List String} (enters : workspace.Entered seen entered)
    (subset : fewer ⊆ seen) : workspace.Entered fewer entered :=
  ⟨enters.distinct, fun id member earlier => enters.fresh id member (subset earlier), enters.alive⟩

end Entered

def slotEntry (block : Block) (slot : Slot) : List (Slot × String) :=
  ((block.children.get? slot).map fun id => (slot, id)).toList

/-- Draws the entries of slots one after the other; in the end the entered blocks count as seen. A
block is entered if it is live and not seen: then its other slots come before its next block. -/
inductive Builds (workspace : Workspace) :
    List String → List (Slot × String) → List (Slot × Shape) → List String → Prop
  | done {seen : List String} : Builds workspace seen [] [] []
  | pass {seen : List String} {slot : Slot} {id : String} {rest : List (Slot × String)}
      {shapes : List (Slot × Shape)} {entered : List String}
      (passed : ∀ block, workspace.live? id = some block → id ∈ seen)
      (others : Builds workspace seen rest shapes entered) :
      Builds workspace seen ((slot, id) :: rest) shapes entered
  | enter {seen : List String} {slot : Slot} {id : String} {block : Block}
      {rest : List (Slot × String)} {inner next shapes : List (Slot × Shape)}
      {below behind later : List String}
      (found : workspace.live? id = some block) (fresh : id ∉ seen)
      (slots : Builds workspace (id :: seen)
        (block.children.entries.filter fun entry => entry.1 != .next) inner below)
      (chain : Builds workspace (below.reverse ++ id :: seen) (slotEntry block .next) next behind)
      (others : Builds workspace (behind.reverse ++ (below.reverse ++ id :: seen)) rest shapes
        later) :
      Builds workspace seen ((slot, id) :: rest)
        ((slot, ⟨block.shortType, block.shapeName,
          Shape.withNext inner (next.head?.map (·.2))⟩) :: shapes)
        (id :: (below ++ (behind ++ later)))

theorem Builds.enters {entries : List (Slot × String)} {shapes : List (Slot × Shape)}
    (builds : workspace.Builds seen entries shapes entered) : workspace.Entered seen entered := by
  induction builds with
  | done => exact .nil
  | pass _ _ ih => exact ih
  | enter found fresh _ _ _ inner next others =>
      exact .cons found fresh (inner.append (next.append others))

theorem Builds.unique {entries : List (Slot × String)} {shapes drawn : List (Slot × Shape)}
    (builds : workspace.Builds seen entries shapes entered)
    (again : workspace.Builds seen entries drawn more) : drawn = shapes ∧ more = entered := by
  induction builds generalizing drawn more with
  | done =>
      cases again
      exact ⟨rfl, rfl⟩
  | pass passed _ ih =>
      cases again with
      | pass _ others => exact ih others
      | enter found fresh => exact absurd (passed _ found) fresh
  | enter found fresh _ _ _ inner next others =>
      cases again with
      | pass passed => exact absurd (passed _ found) fresh
      | enter foundAgain _ slots chain rest =>
          obtain rfl := Option.some.inj (found.symm.trans foundAgain)
          obtain ⟨rfl, rfl⟩ := inner slots
          obtain ⟨rfl, rfl⟩ := next chain
          obtain ⟨rfl, rfl⟩ := others rest
          exact ⟨rfl, rfl⟩

theorem shapeFrom_pass (passed : ∀ block, workspace.live? id = some block → id ∈ seen)
    (depth : Nat) : workspace.shapeFrom depth seen id = (none, seen) := by
  cases depth with
  | zero => rfl
  | succ depth =>
      cases found : workspace.live? id with
      | none => simp [shapeFrom, found]
      | some block => simp [shapeFrom, found, passed block found]

theorem shapeFrom_enter (found : workspace.live? id = some block) (fresh : id ∉ seen)
    (depth : Nat) :
    workspace.shapeFrom (depth + 1) seen id =
      let inner := shapesOf (workspace.shapeFrom depth) (id :: seen)
        (block.children.entries.filter fun entry => entry.1 != .next)
      let next := shapesOf (workspace.shapeFrom depth) inner.2 (slotEntry block .next)
      (some ⟨block.shortType, block.shapeName,
        Shape.withNext inner.1 (next.1.head?.map (·.2))⟩, next.2) := by
  simp only [shapeFrom, found, fresh, ↓reduceIte, slotEntry]
  cases block.children.get? .next with
  | none => rfl
  | some next =>
      simp only [Option.map_some, Option.toList_some, shapesOf]
      split <;> simp_all

theorem shapesOf_builds (depth : Nat) (seen : List String) (entries : List (Slot × String))
    (room : workspace.unseen seen ≤ depth) :
    ∃ entered, (shapesOf (workspace.shapeFrom depth) seen entries).2 = entered.reverse ++ seen ∧
      workspace.Builds seen entries (shapesOf (workspace.shapeFrom depth) seen entries).1
        entered := by
  -- The depth falls on the way into a block, the list on the way past it.
  induction depth using Nat.strong_induction_on generalizing seen entries with
  | _ depth ih =>
    induction entries generalizing seen with
    | nil => exact ⟨[], rfl, .done⟩
    | cons entry rest others =>
        obtain ⟨slot, id⟩ := entry
        by_cases passed : ∀ block, workspace.live? id = some block → id ∈ seen
        · obtain ⟨entered, after, builds⟩ := others seen room
          exact ⟨entered, by simpa [shapesOf, shapeFrom_pass passed] using after,
            by simpa [shapesOf, shapeFrom_pass passed] using .pass passed builds⟩
        · push Not at passed
          obtain ⟨block, found, fresh⟩ := passed
          have less := unseen_cons_lt (live?_eq_some_iff.1 found).1 fresh
          obtain ⟨depth, rfl⟩ : ∃ rest, depth = rest + 1 := ⟨depth - 1, by omega⟩
          obtain ⟨below, afterSlots, slots⟩ := ih depth (Nat.lt_succ_self depth) (id :: seen)
            (block.children.entries.filter fun entry => entry.1 != .next) (by omega)
          have roomChain : workspace.unseen (below.reverse ++ id :: seen) ≤ depth :=
            (unseen_le_of_subset (List.subset_append_right _ _)).trans (by omega)
          obtain ⟨behind, afterChain, chain⟩ := ih depth (Nat.lt_succ_self depth)
            (below.reverse ++ id :: seen) (slotEntry block .next) roomChain
          have roomOthers : workspace.unseen (behind.reverse ++ (below.reverse ++ id :: seen)) ≤
              depth + 1 :=
            (unseen_le_of_subset (List.subset_append_right _ _)).trans (by omega)
          obtain ⟨later, afterOthers, builds⟩ :=
            others (behind.reverse ++ (below.reverse ++ id :: seen)) roomOthers
          refine ⟨id :: (below ++ (behind ++ later)), ?_, ?_⟩
          · simp [shapesOf, shapeFrom_enter found fresh, afterSlots, afterChain, afterOthers]
          · have enter : workspace.Builds seen ((slot, id) :: rest) _ _ :=
              .enter found fresh slots chain builds
            simpa [shapesOf, shapeFrom_enter found fresh, afterSlots, afterChain] using enter

def ownScript (workspace : Workspace) (block : Block) : Script :=
  if workspace.isConnected block.id then
    (block.kind.action?.map fun action => Instruction.act action block.id).toList
  else []

/-- Compiles the chain of next blocks that starts in a slot; in the end the entered blocks count as
seen. A block is entered if it is live and not seen: then its body comes before its next block. -/
inductive Compiles (workspace : Workspace) :
    List String → Option String → Script → List String → Prop
  | empty {seen : List String} : Compiles workspace seen none [] []
  | pass {seen : List String} {id : String}
      (passed : ∀ block, workspace.live? id = some block → id ∈ seen) :
      Compiles workspace seen (some id) [] []
  | single {seen : List String} {id : String} {block : Block} {rest : Script}
      {behind : List String} (found : workspace.live? id = some block) (fresh : id ∉ seen)
      (noBody : workspace.isConnected block.id = true → block.kind ≠ .loop)
      (chain : Compiles workspace (id :: seen) (block.children.get? .next) rest behind) :
      Compiles workspace seen (some id) (workspace.ownScript block ++ rest) (id :: behind)
  | loop {seen : List String} {id : String} {block : Block} {body rest : Script}
      {below behind : List String} (found : workspace.live? id = some block) (fresh : id ∉ seen)
      (connected : workspace.isConnected block.id = true) (isLoop : block.kind = .loop)
      (inner : Compiles workspace (id :: seen) (block.children.get? .doBody) body below)
      (chain : Compiles workspace (below.reverse ++ id :: seen) (block.children.get? .next) rest
        behind) :
      Compiles workspace seen (some id) (.loop block.loopCount body block.id :: rest)
        (id :: (below ++ behind))

theorem Compiles.enters {root : Option String} {script : Script}
    (compiles : workspace.Compiles seen root script entered) : workspace.Entered seen entered := by
  induction compiles with
  | empty | pass => exact .nil
  | single found fresh _ _ chain => exact .cons found fresh chain
  | loop found fresh _ _ _ _ inner chain => exact .cons found fresh (inner.append chain)

theorem Compiles.unique {root : Option String} {script other : Script}
    (compiles : workspace.Compiles seen root script entered)
    (again : workspace.Compiles seen root other more) : other = script ∧ more = entered := by
  induction compiles generalizing other more with
  | empty =>
      cases again
      exact ⟨rfl, rfl⟩
  | pass passed =>
      cases again with
      | pass => exact ⟨rfl, rfl⟩
      | single found fresh | loop found fresh => exact absurd (passed _ found) fresh
  | single found fresh noBody _ chain =>
      cases again with
      | pass passed => exact absurd (passed _ found) fresh
      | single foundAgain _ _ rest =>
          obtain rfl := Option.some.inj (found.symm.trans foundAgain)
          obtain ⟨rfl, rfl⟩ := chain rest
          exact ⟨rfl, rfl⟩
      | loop foundAgain _ connected isLoop =>
          obtain rfl := Option.some.inj (found.symm.trans foundAgain)
          exact absurd isLoop (noBody connected)
  | loop found fresh connected isLoop _ _ inner chain =>
      cases again with
      | pass passed => exact absurd (passed _ found) fresh
      | single foundAgain _ noBody =>
          obtain rfl := Option.some.inj (found.symm.trans foundAgain)
          exact absurd isLoop (noBody connected)
      | loop foundAgain _ _ _ body rest =>
          obtain rfl := Option.some.inj (found.symm.trans foundAgain)
          obtain ⟨rfl, rfl⟩ := inner body
          obtain ⟨rfl, rfl⟩ := chain rest
          exact ⟨rfl, rfl⟩

theorem compileBlock_single (noBody : workspace.isConnected block.id = true → block.kind ≠ .loop)
    (chain : List String → String → Script × List String) (seen : List String) :
    workspace.compileBlock chain seen block = (workspace.ownScript block, seen) := by
  by_cases connected : workspace.isConnected block.id = true
  · simp only [compileBlock, ownScript, connected, noBody connected, Bool.not_true,
      Bool.false_eq_true, ↓reduceIte]
    cases block.kind.action? <;> rfl
  · simp [compileBlock, ownScript, connected]

theorem compileSlot_pass (passed : ∀ block, workspace.live? id = some block → id ∈ seen)
    (depth : Nat) : compileSlot (workspace.compileChain depth) seen (some id) = ([], seen) := by
  cases depth with
  | zero => rfl
  | succ depth =>
      cases found : workspace.live? id with
      | none => simp [compileSlot, compileChain, found]
      | some block => simp [compileSlot, compileChain, found, passed block found]

theorem compileSlot_enter (found : workspace.live? id = some block) (fresh : id ∉ seen)
    (depth : Nat) :
    compileSlot (workspace.compileChain (depth + 1)) seen (some id) =
      let own := workspace.compileBlock (workspace.compileChain depth) (id :: seen) block
      let rest := compileSlot (workspace.compileChain depth) own.2 (block.children.get? .next)
      (own.1 ++ rest.1, rest.2) := by
  rw [compileSlot]
  simp only [compileChain, found, fresh, ↓reduceIte]

theorem compileSlot_compiles (depth : Nat) (seen : List String) (root : Option String)
    (room : workspace.unseen seen ≤ depth) :
    ∃ entered, (compileSlot (workspace.compileChain depth) seen root).2 = entered.reverse ++ seen ∧
      workspace.Compiles seen root (compileSlot (workspace.compileChain depth) seen root).1
        entered := by
  induction depth using Nat.strong_induction_on generalizing seen root with
  | _ depth ih =>
    cases root with
    | none => exact ⟨[], rfl, .empty⟩
    | some id =>
        by_cases passed : ∀ block, workspace.live? id = some block → id ∈ seen
        · rw [compileSlot_pass passed]
          exact ⟨[], rfl, .pass passed⟩
        push Not at passed
        obtain ⟨block, found, fresh⟩ := passed
        have less := unseen_cons_lt (live?_eq_some_iff.1 found).1 fresh
        obtain ⟨depth, rfl⟩ : ∃ rest, depth = rest + 1 := ⟨depth - 1, by omega⟩
        have deeper := ih depth (Nat.lt_succ_self depth)
        rw [compileSlot_enter found fresh]
        by_cases loop : workspace.isConnected block.id = true ∧ block.kind = .loop
        · obtain ⟨connected, isLoop⟩ := loop
          obtain ⟨below, afterBody, inner⟩ :=
            deeper (id :: seen) (block.children.get? .doBody) (by omega)
          have roomChain : workspace.unseen (below.reverse ++ id :: seen) ≤ depth :=
            (unseen_le_of_subset (List.subset_append_right _ _)).trans (by omega)
          obtain ⟨behind, afterChain, chain⟩ :=
            deeper (below.reverse ++ id :: seen) (block.children.get? .next) roomChain
          refine ⟨id :: (below ++ behind), ?_, ?_⟩
          · simp [compileBlock, connected, isLoop, afterBody, afterChain]
          · simpa [compileBlock, connected, isLoop, afterBody] using
              Compiles.loop found fresh connected isLoop inner chain
        · have noBody : workspace.isConnected block.id = true → block.kind ≠ .loop :=
            fun connected isLoop => loop ⟨connected, isLoop⟩
          obtain ⟨behind, afterChain, chain⟩ :=
            deeper (id :: seen) (block.children.get? .next) (by omega)
          rw [compileBlock_single noBody]
          exact ⟨id :: behind, by simp [afterChain], .single found fresh noBody chain⟩

inductive CompilesAll (workspace : Workspace) :
    List String → List Block → Script → List String → Prop
  | done {seen : List String} : CompilesAll workspace seen [] [] []
  | entry {seen : List String} {entry : Block} {rest : List Block} {program programs : Script}
      {below later : List String}
      (chain : workspace.Compiles (entry.id :: seen) (entry.children.get? .next) program below)
      (others : CompilesAll workspace (below.reverse ++ entry.id :: seen) rest programs later) :
      CompilesAll workspace seen (entry :: rest) (program ++ programs) (below ++ later)

theorem CompilesAll.enters {entries : List Block} {script : Script}
    (compiles : workspace.CompilesAll seen entries script entered) :
    workspace.Entered seen entered := by
  induction compiles with
  | done => exact .nil
  | entry chain _ ih =>
      refine (chain.enters.of_subset (List.subset_cons_self _ _)).append (ih.of_subset ?_)
      intro id member
      simp only [List.mem_append, List.mem_cons] at member ⊢
      tauto

theorem CompilesAll.unique {entries : List Block} {script other : Script}
    (compiles : workspace.CompilesAll seen entries script entered)
    (again : workspace.CompilesAll seen entries other more) : other = script ∧ more = entered := by
  induction compiles generalizing other more with
  | done =>
      cases again
      exact ⟨rfl, rfl⟩
  | entry chain _ ih =>
      obtain - | ⟨rest, others⟩ := again
      obtain ⟨rfl, rfl⟩ := chain.unique rest
      obtain ⟨rfl, rfl⟩ := ih others
      exact ⟨rfl, rfl⟩

theorem compileEntries_compiles (seen : List String) (entries : List Block) :
    ∃ entered, workspace.CompilesAll seen entries (workspace.compileEntries seen entries)
      entered := by
  induction entries generalizing seen with
  | nil => exact ⟨[], .done⟩
  | cons entry rest ih =>
      obtain ⟨below, after, chain⟩ := compileSlot_compiles workspace.blocks.length
        (entry.id :: seen) (entry.children.get? .next) (unseen_le_length _)
      obtain ⟨later, others⟩ := ih (below.reverse ++ entry.id :: seen)
      refine ⟨below ++ later, ?_⟩
      simp only [compileEntries, after]
      exact .entry chain others

def DrawsTo (workspace : Workspace) (id : String) (shape : Option Shape) (entered : List String) :
    Prop :=
  workspace.Builds [] [(.next, id)] (shape.map fun shape => (Slot.next, shape)).toList entered

inductive CompilesTo (workspace : Workspace) : Except CompileError Script → List String → Prop
  | noEntry (bare : workspace.entries = []) : CompilesTo workspace (.error .noEntry) []
  | program {script : Script} {entered : List String} (inhabited : workspace.entries ≠ [])
      (all : workspace.CompilesAll [] workspace.entries script entered) :
      CompilesTo workspace (.ok script) entered

theorem drawsTo_iff (workspace : Workspace) (id : String) :
    ∃ entered, workspace.Entered [] entered ∧ ∀ shape others,
      workspace.DrawsTo id shape others ↔ shape = workspace.shape? id ∧ others = entered := by
  obtain ⟨entered, -, builds⟩ := shapesOf_builds workspace.blocks.length [] [(.next, id)]
    (unseen_le_length _)
  have single : (shapesOf (workspace.shapeFrom workspace.blocks.length) [] [(.next, id)]).1 =
      ((workspace.shape? id).map fun shape => (Slot.next, shape)).toList := by
    simp only [shapesOf, shape?]
    split <;> simp_all
  rw [single] at builds
  refine ⟨entered, builds.enters, ?_⟩
  intro shape others
  constructor
  · intro draws
    obtain ⟨same, rfl⟩ := builds.unique draws
    refine ⟨?_, rfl⟩
    cases shape <;> cases shown : workspace.shape? id <;> simp_all
  · rintro ⟨rfl, rfl⟩
    exact builds

theorem CompilesTo.enters {outcome : Except CompileError Script}
    (compiles : workspace.CompilesTo outcome entered) : workspace.Entered [] entered := by
  cases compiles with
  | noEntry => exact .nil
  | program _ all => exact all.enters

theorem CompilesTo.unique {outcome other : Except CompileError Script}
    (compiles : workspace.CompilesTo outcome entered) (again : workspace.CompilesTo other more) :
    other = outcome ∧ more = entered := by
  cases compiles with
  | noEntry bare =>
      cases again with
      | noEntry => exact ⟨rfl, rfl⟩
      | program inhabited => contradiction
  | program inhabited all =>
      cases again with
      | noEntry bare => contradiction
      | program _ others =>
          obtain ⟨rfl, rfl⟩ := all.unique others
          exact ⟨rfl, rfl⟩

theorem compilesTo_iff (workspace : Workspace) :
    ∃ entered, workspace.Entered [] entered ∧ ∀ outcome others,
      workspace.CompilesTo outcome others ↔ outcome = workspace.compile ∧ others = entered := by
  obtain ⟨entered, all⟩ := workspace.compileEntries_compiles [] workspace.entries
  have compiles : workspace.CompilesTo workspace.compile entered := by
    cases listed : workspace.entries with
    | nil =>
        rw [listed] at all
        cases all
        rw [compile, listed]
        exact .noEntry listed
    | cons entry rest =>
        have same : workspace.compile = .ok (workspace.compileEntries [] workspace.entries) := by
          rw [compile, listed]
        rw [same]
        exact .program (by simp [listed]) all
  refine ⟨entered, compiles.enters, ?_⟩
  intro outcome others
  constructor
  · exact compiles.unique
  · rintro ⟨rfl, rfl⟩
    exact compiles

/-- Whatever the slots and parents of the blocks are, every traversal comes to an end with what its
function gives. The two searches pop at most one id for each occupied slot and one for the root, and
handle no id twice; the two ways up take at most two steps more than there are blocks; the two
recursions have one outcome, and enter every live block at most once. -/
theorem traversals_end (workspace : Workspace) (target id : String) :
    (∃ pops ≤ 1 + workspace.slotEntries, ∃ handled, handled.Nodup ∧
      Ends (Sweep.round workspace.gather) pops ⟨[], [id], []⟩
        (handled, workspace.descendants id)) ∧
    (∃ pops ≤ 1 + workspace.slotEntries, ∃ handled, handled.Nodup ∧
      Ends (Sweep.round strike) pops ⟨[], [id], (workspace, 0)⟩
        (handled, (workspace.delete id, workspace.deletionCount id))) ∧
    (∃ rounds, rounds + 1 ≤ workspace.blocks.length + 2 ∧
      Ends workspace.entryRound rounds ⟨[], workspace.live? id⟩ (workspace.isConnected id)) ∧
    (∃ rounds, rounds + 1 ≤ workspace.blocks.length + 2 ∧
      Ends (workspace.ancestorRound target) rounds ⟨[], some id⟩
        (workspace.isAncestorOrSelf target [] id)) ∧
    (∃ entered, workspace.Entered [] entered ∧ ∀ shape others,
      workspace.DrawsTo id shape others ↔ shape = workspace.shape? id ∧ others = entered) ∧
    ∃ entered, workspace.Entered [] entered ∧ ∀ outcome others,
      workspace.CompilesTo outcome others ↔ outcome = workspace.compile ∧ others = entered :=
  ⟨workspace.gather_ends id, workspace.strike_ends id, workspace.entry_ends id,
    workspace.ancestor_ends target id, workspace.drawsTo_iff id, workspace.compilesTo_iff⟩

end RobotPuzzle.Workspace
