import RobotPuzzle.Proofs.Workspace.Links
import RobotPuzzle.Workspace.Compile

/-!
Compilation is the plain translation of the trees below the entry blocks: no block of a consistent
workspace is dropped, cut off or put elsewhere by the walk and its seen ids.
-/

namespace RobotPuzzle.Workspace

def actionTypes : List (String × Action) :=
  [("forward", .move .forward), ("backward", .move .backward),
    ("jump_forward", .move .jumpForward), ("turn_left", .move .turnLeft),
    ("turn_right", .move .turnRight), ("pick_collectible", .pick),
    ("put_down_collectible", .putDown)]

/-- The program of the chain that begins in a slot, read off the tree. -/
inductive Translation (workspace : Workspace) : Option String → Script → Prop
  | missing : Translation workspace none []
  | gone {id} (dead : workspace.live? id = none) : Translation workspace (some id) []
  | act {id block action rest} (found : workspace.live? id = some block)
      (type : actionTypes.lookup block.type = some action)
      (next : Translation workspace (block.children.get? .next) rest) :
      Translation workspace (some id) (.act action id :: rest)
  | loop {id block body rest} (found : workspace.live? id = some block)
      (type : block.type = "repeat")
      (inner : Translation workspace (block.children.get? .doBody) body)
      (next : Translation workspace (block.children.get? .next) rest) :
      Translation workspace (some id) (.loop block.loopCount body id :: rest)
  | unknown {id block rest} (found : workspace.live? id = some block)
      (type : block.type ≠ "start" ∧ block.type ≠ "repeat" ∧ actionTypes.lookup block.type = none)
      (next : Translation workspace (block.children.get? .next) rest) :
      Translation workspace (some id) rest

inductive Translations (workspace : Workspace) : List Block → Script → Prop
  | nil : Translations workspace [] []
  | cons {entry rest head tail}
      (program : Translation workspace (entry.children.get? .next) head)
      (others : Translations workspace rest tail) :
      Translations workspace (entry :: rest) (head ++ tail)

def starts (workspace : Workspace) : List Block :=
  workspace.blocks.filter fun block => !block.deleted && block.type == "start"

theorem Block.kind_cases (block : Block) :
    block.type = "start" ∧ block.kind = .start ∨
      block.type = "repeat" ∧ block.kind = .loop ∨
      (∃ action, actionTypes.lookup block.type = some action ∧
        block.kind.action? = some action) ∨
      (block.type ≠ "start" ∧ block.type ≠ "repeat" ∧ actionTypes.lookup block.type = none) ∧
        block.kind = .other := by
  simp only [Block.kind, Kind.ofType]
  split
  case h_10 => simp_all [actionTypes, List.lookup_eq_none_iff]
  all_goals simp_all [actionTypes, List.lookup_cons, Kind.action?]

theorem Block.kind_eq_start_iff (block : Block) : block.kind = .start ↔ block.type = "start" := by
  simp only [Block.kind, Kind.ofType]
  split <;> simp_all

theorem entries_eq_starts (workspace : Workspace) : workspace.entries = workspace.starts := by
  simp only [entries, starts]
  congr 1
  funext block
  congr 1
  rw [Bool.eq_iff_iff, beq_iff_eq, beq_iff_eq]
  exact Block.kind_eq_start_iff block

variable {workspace : Workspace}

theorem Translation.unique {root : Option String} {script other : Script}
    (first : workspace.Translation root script) (second : workspace.Translation root other) :
    script = other := by
  have noAction : actionTypes.lookup "repeat" = none := rfl
  induction first generalizing other with
  | missing => cases second; rfl
  | gone dead => cases second <;> simp_all
  | act found type next ih =>
      cases second with
      | gone dead => simp_all
      | act foundSame otherType otherNext =>
          obtain rfl := Option.some.inj (found.symm.trans foundSame)
          rw [Option.some.inj (type.symm.trans otherType), ih otherNext]
      | loop foundSame otherType =>
          obtain rfl := Option.some.inj (found.symm.trans foundSame)
          cases (otherType ▸ type).symm.trans noAction
      | unknown foundSame otherType =>
          obtain rfl := Option.some.inj (found.symm.trans foundSame)
          cases type.symm.trans otherType.2.2
  | loop found type inner next innerIh nextIh =>
      cases second with
      | gone dead => simp_all
      | act foundSame otherType =>
          obtain rfl := Option.some.inj (found.symm.trans foundSame)
          cases (type ▸ otherType).symm.trans noAction
      | loop foundSame otherType otherInner otherNext =>
          obtain rfl := Option.some.inj (found.symm.trans foundSame)
          rw [innerIh otherInner, nextIh otherNext]
      | unknown foundSame otherType => simp_all
  | unknown found type next ih =>
      cases second with
      | gone dead => simp_all
      | act foundSame otherType =>
          obtain rfl := Option.some.inj (found.symm.trans foundSame)
          cases type.2.2.symm.trans otherType
      | loop foundSame otherType => simp_all
      | unknown foundSame otherType otherNext =>
          obtain rfl := Option.some.inj (found.symm.trans foundSame)
          exact ih otherNext

theorem Translations.unique {entries : List Block} {script other : Script}
    (first : workspace.Translations entries script)
    (second : workspace.Translations entries other) : script = other := by
  induction first generalizing other with
  | nil => cases second; rfl
  | cons program others ih =>
      cases second with
      | cons otherProgram otherOthers => rw [program.unique otherProgram, ih otherOthers]

def StartsAlone (workspace : Workspace) : Prop :=
  ∀ id block, workspace.live? id = some block → block.type = "start" → block.parent = none

/-- Nothing below `id` has been seen, and the way up from it leads to an entry block. -/
structure Ready (workspace : Workspace) (seen : List String) (id : String) : Prop where
  rooted : workspace.Rooted id
  unseen : ∀ low, workspace.Below id low → low ∉ seen

structure Compiled (workspace : Workspace) (root : Option String) (seen : List String)
    (result : Script × List String) : Prop where
  translation : workspace.Translation root result.1
  grows : seen ⊆ result.2
  inside : ∀ low ∈ result.2, low ∈ seen ∨
    ∃ top block, root = some top ∧ workspace.live? top = some block ∧ workspace.Below top low

theorem Compiled.slot {chain : List String → String → Script × List String} {seen : List String}
    {root : Option String}
    (compiled : ∀ id, root = some id → workspace.Compiled (some id) seen (chain seen id)) :
    workspace.Compiled root seen (compileSlot chain seen root) := by
  cases root with
  | none => exact ⟨.missing, fun _ member => member, fun _ member => .inl member⟩
  | some id => exact compiled id rfl

theorem Ready.child {seen more : List String} {id child : String} {slot : Slot}
    {held : Block} (consistent : workspace.Consistent) (alone : workspace.StartsAlone)
    (ready : workspace.Ready seen id) (holds : workspace.Holds id slot child)
    (foundChild : workspace.live? child = some held)
    (only : ∀ low ∈ more, low = id ∨ low ∈ seen ∨ ∃ otherSlot sibling siblingBlock,
      otherSlot ≠ slot ∧ workspace.Holds id otherSlot sibling ∧
      workspace.live? sibling = some siblingBlock ∧ workspace.Below sibling low) :
    workspace.Ready more child ∧ held.type ≠ "start" := by
  have named := consistent.parent_of_holds holds (live?_eq_some_iff.1 foundChild).1
  refine ⟨⟨.under foundChild named ready.rooted, ?_⟩, ?_⟩
  · exact consistent.treelike.child_unseen ready.unseen holds foundChild only
  · intro isStart
    simp [alone child held foundChild isStart] at named

theorem compileBlock_compiled {chain : List String → String → Script × List String}
    {seen : List String} {id : String} {block : Block} (ready : workspace.Ready seen id)
    (found : workspace.live? id = some block) (notStart : block.type ≠ "start")
    (body : workspace.Compiled (block.children.get? .doBody) (id :: seen)
      (compileSlot chain (id :: seen) (block.children.get? .doBody))) :
    (∀ rest, workspace.Translation (block.children.get? .next) rest →
      workspace.Translation (some id)
        ((workspace.compileBlock chain (id :: seen) block).1 ++ rest)) ∧
    id :: seen ⊆ (workspace.compileBlock chain (id :: seen) block).2 ∧
    ∀ low ∈ (workspace.compileBlock chain (id :: seen) block).2, low ∈ id :: seen ∨
      ∃ child held, block.children.get? .doBody = some child ∧
        workspace.live? child = some held ∧ workspace.Below child low := by
  have connected : workspace.isConnected id = true := ready.rooted.isConnected
  simp only [compileBlock, id_of_live? found, connected, Bool.not_true, Bool.false_eq_true,
    ↓reduceIte]
  rcases Block.kind_cases block with ⟨type, -⟩ | ⟨type, kind⟩ | ⟨action, type, acts⟩ |
    ⟨type, kind⟩
  · exact absurd type notStart
  · simp only [kind, ↓reduceIte]
    exact ⟨fun rest next => .loop found type body.translation next, body.grows, body.inside⟩
  · have notLoop : block.kind ≠ .loop := by
      intro same
      simp [same, Kind.action?] at acts
    simp only [notLoop, ↓reduceIte, acts]
    exact ⟨fun rest next => .act found type next, fun _ member => member,
      fun _ member => .inl member⟩
  · have notLoop : block.kind ≠ .loop := by simp [kind]
    have noAction : block.kind.action? = none := by simp [kind, Kind.action?]
    simp only [notLoop, ↓reduceIte, noAction]
    exact ⟨fun rest next => .unknown found type next, fun _ member => member,
      fun _ member => .inl member⟩

theorem compileChain_compiled (consistent : workspace.Consistent) (alone : workspace.StartsAlone)
    (depth : Nat) (seen : List String) (id : String)
    (ready : ∀ block, workspace.live? id = some block →
      workspace.Ready seen id ∧ block.type ≠ "start")
    (room : workspace.unseen seen < depth) :
    workspace.Compiled (some id) seen (workspace.compileChain depth seen id) := by
  induction depth generalizing seen id with
  | zero => omega
  | succ depth ih =>
      simp only [compileChain]
      cases found : workspace.live? id with
      | none => exact ⟨.gone found, fun _ member => member, fun _ member => .inl member⟩
      | some block =>
          obtain ⟨here, notStart⟩ := ready block found
          have fresh : id ∉ seen := here.unseen id .refl
          obtain ⟨foundAny, -⟩ := live?_eq_some_iff.1 found
          have less := unseen_cons_lt foundAny fresh
          have holds : ∀ {slot child}, block.children.get? slot = some child →
              workspace.Holds id slot child := fun held => ⟨block, foundAny, held⟩
          have body : workspace.Compiled (block.children.get? .doBody) (id :: seen)
              (compileSlot (workspace.compileChain depth) (id :: seen)
                (block.children.get? .doBody)) := by
            refine .slot fun child held => ih (id :: seen) child ?_ (by omega)
            intro childBlock foundChild
            refine here.child consistent alone (holds held) foundChild ?_
            intro low member
            rcases List.mem_cons.1 member with same | earlier
            · exact .inl same
            · exact .inr (.inl earlier)
          obtain ⟨own, grows, inside⟩ := compileBlock_compiled here found notStart body
          simp only [fresh, ↓reduceIte]
          generalize workspace.compileBlock (workspace.compileChain depth) (id :: seen) block =
            result at own grows inside ⊢
          obtain ⟨script, more⟩ := result
          have next : workspace.Compiled (block.children.get? .next) more
              (compileSlot (workspace.compileChain depth) more (block.children.get? .next)) := by
            have shrinks : workspace.unseen more ≤ workspace.unseen (id :: seen) :=
              unseen_le_of_subset grows
            refine .slot fun child held => ih more child ?_ (by omega)
            intro childBlock foundChild
            refine here.child consistent alone (holds held) foundChild ?_
            intro low member
            rcases inside low member with earlier | ⟨sibling, siblingBlock, heldToo, alive, below⟩
            · rcases List.mem_cons.1 earlier with same | before
              · exact .inl same
              · exact .inr (.inl before)
            · exact .inr (.inr ⟨.doBody, sibling, siblingBlock, by simp, holds heldToo, alive,
                below⟩)
          refine ⟨own _ next.translation, ?_, ?_⟩
          · intro low member
            exact next.grows (grows (by simp [member]))
          · intro low member
            rcases next.inside low member with earlier | ⟨top, held, heldBy, alive, below⟩
            · rcases inside low earlier with before | ⟨top, held, heldBy, alive, below⟩
              · rcases List.mem_cons.1 before with rfl | before
                · exact .inr ⟨low, block, rfl, found, .refl⟩
                · exact .inl before
              · exact .inr ⟨id, block, rfl, found,
                consistent.treelike.below_child found heldBy alive below⟩
            · exact .inr ⟨id, block, rfl, found,
                consistent.treelike.below_child found heldBy alive below⟩

theorem compileEntries_translations (consistent : workspace.Consistent)
    (alone : workspace.StartsAlone) {entries : List Block} (seen : List String)
    (starts : ∀ entry ∈ entries, workspace.live? entry.id = some entry ∧ entry.type = "start")
    (distinct : (entries.map (·.id)).Nodup)
    (earlier : ∀ low ∈ seen, ∃ root block, workspace.live? root = some block ∧
      block.type = "start" ∧ root ∉ entries.map (·.id) ∧ workspace.Below root low) :
    workspace.Translations entries (workspace.compileEntries seen entries) := by
  induction entries generalizing seen with
  | nil => exact .nil
  | cons entry rest ih =>
      obtain ⟨found, isStart⟩ := starts entry (by simp)
      obtain ⟨foundAny, -⟩ := live?_eq_some_iff.1 found
      rw [List.map_cons, List.nodup_cons] at distinct
      have ready : workspace.Ready seen entry.id := by
        refine ⟨.entry found ((Block.kind_eq_start_iff entry).2 isStart), ?_⟩
        intro low below member
        obtain ⟨root, block, foundRoot, rootStart, different, belowRoot⟩ := earlier low member
        have same := Below.root_unique foundAny (alone entry.id entry found isStart)
          (live?_eq_some_iff.1 foundRoot).1 (alone root block foundRoot rootStart) below belowRoot
        exact different (by simp [same])
      have fresh : workspace.unseen (entry.id :: seen) < workspace.blocks.length :=
        Nat.lt_of_lt_of_le (unseen_cons_lt foundAny (ready.unseen entry.id .refl))
          (unseen_le_length seen)
      have program : workspace.Compiled (entry.children.get? .next) (entry.id :: seen)
          (compileSlot (workspace.compileChain workspace.blocks.length) (entry.id :: seen)
            (entry.children.get? .next)) := by
        refine .slot fun child held =>
          compileChain_compiled consistent alone _ (entry.id :: seen) child ?_ fresh
        intro childBlock foundChild
        refine ready.child consistent alone ⟨entry, foundAny, held⟩ foundChild ?_
        intro low member
        rcases List.mem_cons.1 member with same | before
        · exact .inl same
        · exact .inr (.inl before)
      simp only [compileEntries]
      refine .cons program.translation (ih _ ?_ distinct.2 ?_)
      · intro other member
        exact starts other (by simp [member])
      · intro low member
        rcases program.inside low member with before | ⟨top, held, heldBy, aliveTop, below⟩
        · rcases List.mem_cons.1 before with rfl | before
          · exact ⟨entry.id, entry, found, isStart, distinct.1, .refl⟩
          · obtain ⟨root, block, foundRoot, rootStart, different, belowRoot⟩ := earlier low before
            exact ⟨root, block, foundRoot, rootStart, fun inRest => different (by simp [inRest]),
              belowRoot⟩
        · have link := consistent.parentLink ⟨entry, foundAny, heldBy⟩
            (live?_eq_some_iff.1 aliveTop).1
          exact ⟨entry.id, entry, found, isStart, distinct.1, below.tail link⟩

theorem mem_starts_iff {entry : Block} :
    entry ∈ workspace.starts ↔ workspace.live? entry.id = some entry ∧ entry.type = "start" := by
  simp [starts, live?_eq_some_iff, find?_eq_some_iff, and_assoc]

/-- A consistent workspace whose live entry blocks stand alone, with at least one of them, compiles
to the translations of the trees below its entry blocks, in their order, and to nothing else. -/
theorem compile_eq_translations (consistent : workspace.Consistent)
    (alone : workspace.StartsAlone) (some : workspace.starts ≠ []) :
    ∃ script, workspace.compile = .ok script ∧
      ∀ other, workspace.Translations workspace.starts other ↔ other = script := by
  have distinct : (workspace.starts.map (·.id)).Nodup :=
    workspace.distinct.sublist (List.filter_sublist.map _)
  have translated : workspace.Translations workspace.starts
      (workspace.compileEntries [] workspace.starts) :=
    compileEntries_translations consistent alone [] (fun _ member => mem_starts_iff.1 member)
      distinct (by simp)
  refine ⟨workspace.compileEntries [] workspace.starts, ?_, ?_⟩
  · simp only [compile, entries_eq_starts]
  · intro other
    constructor
    · intro translation
      exact translation.unique translated
    · rintro rfl
      exact translated

def twoPrograms : Workspace where
  blocks :=
    [⟨"s", "start", .ofList [(.next, "r")], ∅, none, true, false⟩,
      ⟨"r", "repeat", .ofList [(.doBody, "f"), (.next, "u")], .ofList [("TIMES", " 2 ")],
        some "s", false, false⟩,
      ⟨"f", "forward", .ofList [(.next, "x")], ∅, some "r", false, false⟩,
      ⟨"x", "pick_collectible", ∅, ∅, some "f", false, true⟩,
      ⟨"u", "note", .ofList [(.next, "t"), (.doBody, "b")], ∅, some "r", false, false⟩,
      ⟨"t", "turn_left", ∅, ∅, some "u", false, false⟩,
      ⟨"b", "backward", ∅, ∅, some "u", false, false⟩,
      ⟨"e", "start", .ofList [(.next, "p")], ∅, none, true, false⟩,
      ⟨"p", "pick_collectible", ∅, ∅, some "e", false, false⟩]
  distinct := by decide

theorem compile_eq_translations_twoPrograms :
    twoPrograms.Consistent ∧ twoPrograms.StartsAlone ∧ twoPrograms.starts ≠ [] ∧
      ∃ script, twoPrograms.compile = .ok script ∧
        ∀ other, twoPrograms.Translations twoPrograms.starts other ↔ other = script := by
  have consistent : twoPrograms.Consistent :=
    .of_blocks twoPrograms.ids (by decide) (by decide) (by decide) (by decide)
  have alone : twoPrograms.StartsAlone := by
    have entries : ∀ block ∈ twoPrograms.blocks, block.type = "start" → block.parent = none := by
      decide
    intro id block found
    exact entries block (find?_eq_some_iff.1 (live?_eq_some_iff.1 found).1).1
  have some : twoPrograms.starts ≠ [] := by decide
  exact ⟨consistent, alone, some, compile_eq_translations consistent alone some⟩

end RobotPuzzle.Workspace
