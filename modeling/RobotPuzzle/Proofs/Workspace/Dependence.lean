import RobotPuzzle.Proofs.Workspace.Connection
import RobotPuzzle.Proofs.Workspace.Preorder
import RobotPuzzle.Proofs.Workspace.Recursions

/-!
What the programs of a workspace depend on: the connected blocks, and of their slots those that hold
live blocks. No slot leads from a connected block to a live block that is not connected, so
workspaces that agree on the connected blocks have the same programs, the same shape of the first
one and the same number of used blocks.
-/

namespace RobotPuzzle.Workspace

def isLive (workspace : Workspace) (id : String) : Bool := (workspace.live? id).isSome

/-- The second workspace has every connected block of the first as it was, except that slots may
differ in which blocks they hold that are not live, and it has no other entry blocks. -/
structure Spares (before after : Workspace) : Prop where
  starts : after.starts.map (·.id) = before.starts.map (·.id)
  block : ∀ {id block}, before.Rooted id → before.live? id = some block → ∃ children,
    after.live? id = some { block with children } ∧ ∀ slot,
      (children.get? slot).filter after.isLive = (block.children.get? slot).filter before.isLive

variable {workspace before after : Workspace} {id child : String} {slot : Slot} {block : Block}
  {seen entered : List String}

theorem isLive_iff : workspace.isLive id = true ↔ ∃ block, workspace.live? id = some block :=
  Option.isSome_iff_exists

theorem not_isLive_iff : ¬workspace.isLive id = true ↔ workspace.live? id = none := by
  simp [isLive]

theorem Rooted.isLive (rooted : workspace.Rooted id) : workspace.isLive id = true := by
  cases rooted with
  | entry found | under found => exact isLive_iff.2 ⟨_, found⟩

theorem rooted_of_mem_starts {entry : Block} (isStart : entry ∈ workspace.starts) :
    workspace.Rooted entry.id := by
  obtain ⟨found, type⟩ := mem_starts_iff.1 isStart
  exact .entry found ((Block.kind_eq_start_iff entry).2 type)

theorem Treelike.rooted_child (treelike : workspace.Treelike) (rooted : workspace.Rooted id)
    (found : workspace.live? id = some block) (inSlot : block.children.get? slot = some child)
    (alive : workspace.isLive child = true) : workspace.Rooted child := by
  obtain ⟨held, foundChild⟩ := isLive_iff.1 alive
  exact .under foundChild (treelike.liveLinked.parent_of_held found inSlot foundChild) rooted

/-! Ids that are not live make no difference to a traversal. -/

theorem preorderAll_filter (ids : List String) :
    workspace.preorderAll seen (ids.filter workspace.isLive) = workspace.preorderAll seen ids := by
  induction ids generalizing seen with
  | nil => rfl
  | cons id rest ih =>
      by_cases alive : workspace.isLive id = true
      · rw [List.filter_cons_of_pos alive, preorderAll, preorderAll, ih]
      · have dead : workspace.live? id = none := not_isLive_iff.1 alive
        rw [List.filter_cons_of_neg alive, ih, preorderAll, preorder_pass (by simp [dead])]
        rfl

theorem Builds.of_filter {entries : List (Slot × String)} {shapes : List (Slot × Shape)}
    (builds : workspace.Builds seen (entries.filter fun entry => workspace.isLive entry.2) shapes
      entered) : workspace.Builds seen entries shapes entered := by
  induction entries generalizing seen shapes entered with
  | nil => exact builds
  | cons entry rest ih =>
      obtain ⟨slot, id⟩ := entry
      by_cases alive : workspace.isLive id = true
      · rw [List.filter_cons, if_pos alive] at builds
        cases builds with
        | pass passed others => exact .pass passed (ih others)
        | enter found fresh slots chain others => exact .enter found fresh slots chain (ih others)
      · rw [List.filter_cons, if_neg alive] at builds
        have dead : workspace.live? id = none := not_isLive_iff.1 alive
        exact .pass (by simp [dead]) (ih builds)

theorem Compiles.of_filter {root : Option String} {script : Script}
    (compiles : workspace.Compiles seen (root.filter workspace.isLive) script entered) :
    workspace.Compiles seen root script entered := by
  cases root with
  | none => exact compiles
  | some id =>
      by_cases alive : workspace.isLive id = true
      · rwa [Option.filter_some, if_pos alive] at compiles
      · rw [Option.filter_some, if_neg alive] at compiles
        have dead : workspace.live? id = none := not_isLive_iff.1 alive
        cases compiles
        exact .pass (by simp [dead])

namespace Spares

variable (spares : Spares before after)

include spares

theorem rooted (rooted : before.Rooted id) : after.Rooted id := by
  induction rooted with
  | @entry id block found start =>
      obtain ⟨children, kept, -⟩ := spares.block (.entry found start) found
      exact .entry kept start
  | @under id block parent found named above ih =>
      obtain ⟨children, kept, -⟩ := spares.block (.under found named above) found
      exact .under kept named ih

variable (treelike : before.Treelike)

include treelike

theorem preorder_eq :
    (∀ seen id, before.Rooted id → after.preorder seen id = before.preorder seen id) ∧
    ∀ seen ids, (∀ id ∈ ids, before.isLive id = true → before.Rooted id) →
      after.preorderAll seen (ids.filter before.isLive) = before.preorderAll seen ids := by
  apply preorder.mutual_induct before
  · intro seen id known _
    rw [preorder_pass fun _ _ => known, preorder_pass fun _ _ => known]
  · intro seen id _ dead rooted
    have alive := rooted.isLive
    simp [isLive, dead] at alive
  · intro seen id fresh block found below rooted
    obtain ⟨children, kept, slots⟩ := spares.block rooted found
    have same : children.values.filter after.isLive = block.held.filter before.isLive := by
      have entries := congrArg (List.map (·.2)) (SortedMap.filter_entries_congr slots)
      simpa [Block.held, SortedMap.values, List.filter_map, Function.comp_def] using entries
    rw [preorder_enter fresh kept, preorder_enter fresh found, ← below]
    · rw [← same, preorderAll_filter]
      rfl
    · intro child member alive
      obtain ⟨slot, inSlot⟩ := SortedMap.mem_values_iff.1 member
      exact treelike.rooted_child rooted found inSlot alive
  · intro seen _
    rw [List.filter_nil, preorderAll, preorderAll]
  · intro seen id rest own first others rooted
    rw [List.forall_mem_cons] at rooted
    by_cases alive : before.isLive id = true
    · rw [List.filter_cons_of_pos alive, preorderAll, preorderAll, first (rooted.1 alive),
        others rooted.2]
    · have dead : before.live? id = none := not_isLive_iff.1 alive
      have nothing : own = [] := preorder_pass (by simp [dead])
      rw [List.filter_cons_of_neg alive, preorderAll]
      simpa [own, nothing] using others rooted.2

theorem descendants_eq (rooted : before.Rooted id) :
    after.descendants id = before.descendants id := by
  rw [← after.preorder_nil, ← before.preorder_nil, (spares.preorder_eq treelike).1 [] id rooted]

theorem builds {entries : List (Slot × String)} {shapes : List (Slot × Shape)}
    (builds : before.Builds seen entries shapes entered)
    (rooted : ∀ entry ∈ entries, before.isLive entry.2 = true → before.Rooted entry.2) :
    after.Builds seen (entries.filter fun entry => before.isLive entry.2) shapes entered := by
  induction builds with
  | done => exact .done
  | @pass seen slot id rest shapes entered passed others ih =>
      rw [List.forall_mem_cons] at rooted
      by_cases alive : before.isLive id = true
      · obtain ⟨block, found⟩ := isLive_iff.1 alive
        rw [List.filter_cons, if_pos alive]
        exact .pass (fun _ _ => passed block found) (ih rooted.2)
      · rw [List.filter_cons, if_neg alive]
        exact ih rooted.2
  | @enter seen slot id block rest inner next shapes below behind later found fresh slots chain
      others innerIh nextIh othersIh =>
      rw [List.forall_mem_cons] at rooted
      have alive : before.isLive id = true := isLive_iff.2 ⟨block, found⟩
      obtain ⟨children, kept, same⟩ := spares.block (rooted.1 alive) found
      have child : ∀ entry ∈ block.children.entries, before.isLive entry.2 = true →
          before.Rooted entry.2 := fun entry member =>
        treelike.rooted_child (rooted.1 alive) found (SortedMap.get?_eq_some_iff.2 member)
      have entries := SortedMap.filter_entries_congr same
      have slotsKept : after.Builds (id :: seen)
          (children.entries.filter fun entry => entry.1 != .next) inner below := by
        have slots := innerIh fun entry member => child entry (List.mem_of_mem_filter member)
        refine .of_filter ?_
        rw [List.filter_comm] at slots ⊢
        rwa [entries]
      have chainKept : after.Builds (below.reverse ++ id :: seen)
          (slotEntry { block with children } .next) next behind := by
        rw [slotEntry, ← SortedMap.filter_entries] at nextIh ⊢
        have chain := nextIh fun entry member => child entry (List.mem_of_mem_filter member)
        refine .of_filter ?_
        rw [List.filter_comm] at chain ⊢
        rwa [entries]
      rw [List.filter_cons, if_pos alive]
      have enter : after.Builds seen ((slot, id) :: _) _ _ :=
        .enter kept fresh slotsKept chainKept (othersIh rooted.2)
      exact enter

theorem shape?_eq (rooted : before.Rooted id) : after.shape? id = before.shape? id := by
  obtain ⟨entered, -, drawn⟩ := before.drawsTo_iff id
  obtain ⟨others, -, drawnAfter⟩ := after.drawsTo_iff id
  have draws : before.DrawsTo id (before.shape? id) entered := (drawn _ _).2 ⟨rfl, rfl⟩
  have kept := spares.builds treelike draws (by simpa using fun _ => rooted)
  rw [List.filter_cons, if_pos rooted.isLive, List.filter_nil] at kept
  exact ((drawnAfter _ _).1 kept).1.symm

theorem compiles {root : Option String} {script : Script}
    (compiles : before.Compiles seen root script entered)
    (rooted : ∀ id ∈ root, before.isLive id = true → before.Rooted id) :
    after.Compiles seen (root.filter before.isLive) script entered := by
  induction compiles with
  | empty => exact .empty
  | @pass seen id passed =>
      by_cases alive : before.isLive id = true
      · obtain ⟨block, found⟩ := isLive_iff.1 alive
        rw [Option.filter_some, if_pos alive]
        exact .pass fun _ _ => passed block found
      · rw [Option.filter_some, if_neg alive]
        exact .empty
  | @single seen id block rest behind found fresh noBody chain ih =>
      have alive : before.isLive id = true := isLive_iff.2 ⟨block, found⟩
      have rootedHere := rooted id rfl alive
      obtain ⟨children, kept, same⟩ := spares.block rootedHere found
      have next := ih fun child inSlot => treelike.rooted_child rootedHere found inSlot
      rw [← same] at next
      obtain rfl := id_of_live? found
      have own : after.ownScript { block with children } = before.ownScript block := by
        simp only [ownScript, rootedHere.isConnected, (spares.rooted rootedHere).isConnected]
        rfl
      rw [Option.filter_some, if_pos alive, ← own]
      exact .single kept fresh (fun _ => noBody rootedHere.isConnected) (.of_filter next)
  | @loop seen id block body rest below behind found fresh connected isLoop inner chain innerIh
      chainIh =>
      have alive : before.isLive id = true := isLive_iff.2 ⟨block, found⟩
      have rootedHere := rooted id rfl alive
      obtain ⟨children, kept, same⟩ := spares.block rootedHere found
      have child : ∀ slot, ∀ child ∈ block.children.get? slot, before.isLive child = true →
          before.Rooted child :=
        fun _ _ inSlot => treelike.rooted_child rootedHere found inSlot
      have first := innerIh (child .doBody)
      have next := chainIh (child .next)
      rw [← same] at first next
      obtain rfl := id_of_live? found
      rw [Option.filter_some, if_pos alive]
      exact @Compiles.loop after seen block.id { block with children } _ _ _ _ kept fresh
        (spares.rooted rootedHere).isConnected isLoop (.of_filter first) (.of_filter next)

theorem compilesAll {entries others : List Block} {script : Script}
    (compiles : before.CompilesAll seen entries script entered)
    (same : others.map (·.id) = entries.map (·.id))
    (starts : ∀ entry ∈ entries, entry ∈ before.starts)
    (startsAfter : ∀ entry ∈ others, entry ∈ after.starts) :
    after.CompilesAll seen others script entered := by
  induction compiles generalizing others with
  | done =>
      obtain rfl : others = [] := by simpa using same
      exact .done
  | @entry seen entry rest program programs below later chain _ ih =>
      obtain ⟨other, more, rfl, sameId, sameRest⟩ := List.map_eq_cons_iff.1 same
      rw [List.forall_mem_cons] at starts startsAfter
      have found := (mem_starts_iff.1 starts.1).1
      have rooted := rooted_of_mem_starts starts.1
      obtain ⟨children, kept, slots⟩ := spares.block rooted found
      have foundOther := (mem_starts_iff.1 startsAfter.1).1
      rw [sameId, kept] at foundOther
      obtain rfl := Option.some.inj foundOther
      have program := spares.compiles treelike chain fun child inSlot =>
        treelike.rooted_child rooted found inSlot
      rw [← slots] at program
      exact .entry program.of_filter (ih sameRest starts.2 startsAfter.2)

theorem compile_eq : after.compile = before.compile := by
  obtain ⟨entered, -, compiled⟩ := before.compilesTo_iff
  obtain ⟨others, -, compiledAfter⟩ := after.compilesTo_iff
  have compiles : before.CompilesTo before.compile entered := (compiled _ _).2 ⟨rfl, rfl⟩
  have kept : after.CompilesTo before.compile entered := by
    have starts := spares.starts
    rw [← entries_eq_starts, ← entries_eq_starts] at starts
    generalize before.compile = outcome at compiles
    cases compiles with
    | noEntry bare => exact .noEntry (by simpa [bare] using starts)
    | program inhabited all =>
        refine .program ?_ (spares.compilesAll treelike all starts ?_ ?_)
        · intro bare
          simp [bare, inhabited] at starts
        · exact fun entry member => before.entries_eq_starts ▸ member
        · exact fun entry member => after.entries_eq_starts ▸ member
  exact ((compiledAfter _ _).1 kept).1.symm

theorem usedCount_eq : after.usedCount = before.usedCount := by
  have trees : ∀ workspace : Workspace, workspace.usedCount =
      ((workspace.starts.map (·.id)).flatMap workspace.descendants).length := by
    intro workspace
    rw [usedCount, entries_eq_starts, List.flatMap_map]
  rw [trees, trees, spares.starts]
  refine congrArg List.length (List.flatMap_congr fun id member => ?_)
  obtain ⟨entry, isStart, rfl⟩ := List.mem_map.1 member
  exact spares.descendants_eq treelike (rooted_of_mem_starts isStart)

theorem main_eq : after.programShape.main = before.programShape.main := by
  have first : ∀ workspace : Workspace, workspace.programShape.main =
      (workspace.starts.map (·.id)).head?.bind workspace.shape? := by
    intro workspace
    rw [programShape, entries_eq_starts, List.head?_map, Option.bind_map]
    rfl
  rw [first, first, spares.starts]
  refine Option.bind_congr fun id member => ?_
  obtain ⟨entry, isStart, rfl⟩ := List.mem_map.1 (List.mem_of_mem_head? member)
  exact spares.shape?_eq treelike (rooted_of_mem_starts isStart)

end Spares

end RobotPuzzle.Workspace
