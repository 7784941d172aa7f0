import RobotPuzzle.Proofs.Session.Forest
import RobotPuzzle.Proofs.Workspace.Moves
import RobotPuzzle.Session.Recorder

/-!
The recorder's workspace against the editor's: whatever the editor reports, the live blocks are the
editor's blocks in the editor's places.
-/

namespace RobotPuzzle

structure Block.Shows (block : Block) (piece : Piece) : Prop where
  type : block.type = piece.type
  fields : block.fields = piece.fields
  parent : block.parent = piece.place.map (·.1)
  top : block.top = piece.place.isNone

theorem Block.Shows.put {block : Block} {piece : Piece} {children : SortedMap Slot String}
    (shows : block.Shows piece) (id : String) (place : Place) :
    Block.Shows
      { block with
        children
        parent := if piece.id = id then place.map (·.1) else block.parent
        top := if piece.id = id then place.isNone else block.top }
      (if piece.id = id then { piece with place } else piece) := by
  obtain ⟨type, fields, parent, top⟩ := shows
  by_cases same : piece.id = id
  · simp only [if_pos same]
    exact ⟨type, fields, rfl, rfl⟩
  · simp only [if_neg same]
    exact ⟨type, fields, parent, top⟩

/-- The live blocks are the editor's blocks, each held by the slot where the editor has it and by
no other. What a slot holds besides them is deleted. -/
structure Workspace.Mirrors (workspace : Workspace) (editor : Editor) : Prop where
  live : ∀ id, (workspace.live? id).isSome ↔ editor.Has id
  shown : ∀ piece ∈ editor.pieces, ∀ block, workspace.live? piece.id = some block →
    block.Shows piece
  held : ∀ piece ∈ editor.pieces, ∀ parent slot,
    workspace.Holds parent slot piece.id ↔ piece.place = some (parent, slot)

/-- The mirror with what keeps it: no id that the editor never gave out is known or held. -/
structure Workspace.Follows (workspace : Workspace) (editor : Editor) : Prop
    extends workspace.Mirrors editor where
  forest : editor.Forest
  known : ∀ id, workspace.contains id = true → id ∈ editor.used
  slots : ∀ parent slot child, workspace.Holds parent slot child → child ∈ editor.used

def Workspace.follow (workspace : Workspace) : Event → Workspace
  | .create block parent slot .workspace =>
    workspace.insert block (Recorder.place? parent slot)
  | .fieldChange id _ name _ value .workspace => workspace.setField id name value
  | .move id oldParent oldSlot newParent newSlot .workspace =>
    workspace.reparent id (Recorder.place? oldParent oldSlot) (Recorder.place? newParent newSlot)
  | .delete id .. => workspace.delete id
  | _ => workspace

theorem Recorder.workspace_handle (recorder : Recorder) (event : Event) (time : Instant) :
    (recorder.handle event time).workspace = recorder.workspace.follow event := by
  cases event with
  | create block parent slot source =>
      cases source with
      | toolbox => rfl
      | workspace =>
          simp only [handle, create]
          split <;> rfl
  | fieldChange id type name oldValue newValue source => cases source <;> rfl
  | drag id isStart position groupSize parent slot source =>
      simp only [handle]
      split
      · rfl
      · simp only [closeDrag]
        split
        · rfl
        · split <;> rfl
  | delete id type position groupSize =>
      simp only [handle, delete]
      split <;> rfl
  | move id oldParent oldSlot newParent newSlot source => cases source <;> rfl
  | loadFinished => rfl

theorem Names.place? {parent : Option String} {slot : Option Slot} {place : Place}
    (named : Names parent slot place) : Recorder.place? parent slot = place := by
  cases named <;> rfl

namespace Workspace

variable {workspace after : Workspace} {editor : Editor} {piece : Piece} {id parent : String}
  {slot : Slot} {place : Place}

theorem follow_of_idle {event : Event} (idle : event.Idle) :
    workspace.follow event = workspace := by
  cases event <;> simp_all [Event.Idle, follow]

namespace Mirrors

theorem exists_block (mirrors : workspace.Mirrors editor) (member : piece ∈ editor.pieces) :
    ∃ block, workspace.live? piece.id = some block ∧ block.Shows piece := by
  have alive := (mirrors.live piece.id).2 ⟨piece, member, rfl⟩
  obtain ⟨block, found⟩ := Option.isSome_iff_exists.1 alive
  exact ⟨block, found, mirrors.shown piece member block found⟩

theorem contains_of_has (mirrors : workspace.Mirrors editor) (known : editor.Has id) :
    workspace.contains id = true := by
  obtain ⟨block, found⟩ := Option.isSome_iff_exists.1 ((mirrors.live id).2 known)
  exact contains_iff.2 ⟨block, (live?_eq_some_iff.1 found).1⟩

end Mirrors

theorem Follows.empty : empty.Follows .empty where
  live := by simp [live?, Editor.Has, Editor.empty]
  shown := by simp [Editor.empty]
  held := by simp [Editor.empty]
  forest := .empty
  known := by simp [contains]
  slots := by simp [Holds]

theorem Follows.change {target : String} {edit : Piece → Piece} {alter : String → Block → Block}
    (follows : workspace.Follows editor) (keepsId : ∀ piece, (edit piece).id = piece.id)
    (same : ∀ id, after.find? id = (workspace.find? id).map (alter id))
    (keeps : ∀ id block, (alter id block).deleted = block.deleted)
    (forest : (editor.change target edit).Forest)
    (shown : ∀ piece ∈ editor.pieces, ∀ block : Block, block.Shows piece →
      (alter piece.id block).Shows (if piece.id = target then edit piece else piece))
    (held : ∀ piece ∈ (editor.change target edit).pieces, ∀ parent slot,
      after.Holds parent slot piece.id ↔ piece.place = some (parent, slot))
    (slots : ∀ parent slot child, after.Holds parent slot child → child ∈ editor.used) :
    after.Follows (editor.change target edit) where
  live id := by
    rw [live?_eq_map (same id) (keeps id), Option.isSome_map, Editor.has_change_iff keepsId]
    exact follows.live id
  shown := by
    intro piece member block found
    obtain ⟨old, oldMember, rfl⟩ := Editor.mem_change_iff.1 member
    have sameId : (if old.id = target then edit old else old).id = old.id := by
      split
      · exact keepsId old
      · rfl
    rw [sameId, live?_eq_map (same old.id) (keeps old.id)] at found
    obtain ⟨oldBlock, oldFound, rfl⟩ := Option.map_eq_some_iff.1 found
    exact shown old oldMember oldBlock (follows.shown old oldMember oldBlock oldFound)
  held := held
  forest := forest
  known := by
    intro id known
    refine follows.known id ?_
    simpa [contains, same] using known
  slots := slots

theorem Follows.setField {name : String} {value : Option String}
    (follows : workspace.Follows editor) :
    (workspace.setField id name value).Follows (editor.setField id name value) := by
  refine follows.change (by simp) (find?_setField workspace id name value) (by simp)
    follows.forest.setField ?_ ?_ fun parent slot child held =>
      follows.slots parent slot child (holds_setField.1 held)
  · intro piece member block shows
    obtain ⟨type, fields, above, top⟩ := shows
    by_cases same : piece.id = id
    · simp only [if_pos same]
      exact ⟨type, by cases value <;> simp only [fields], above, top⟩
    · simp only [if_neg same]
      exact ⟨type, fields, above, top⟩
  · intro piece member parent slot
    rw [holds_setField]
    obtain ⟨old, oldMember, rfl⟩ := Editor.mem_change_iff.1 member
    have kept := follows.held old oldMember parent slot
    split <;> exact kept

theorem Follows.detach (follows : workspace.Follows editor) (member : piece ∈ editor.pieces)
    (stands : piece.place = some (parent, slot)) :
    (workspace.detach piece.id parent slot).Follows (editor.put piece.id none) := by
  refine follows.change (by simp) (find?_detach workspace piece.id parent slot) (by simp)
    (follows.forest.put trivial (by simp)) ?_ ?_ fun other otherSlot child held =>
      follows.slots other otherSlot child (holds_detach.1 held).1
  · exact fun old oldMember block shows => shows.put piece.id none
  · intro image imageMember other otherSlot
    rw [holds_detach]
    rcases Editor.eq_or_mem_of_mem_put imageMember with ⟨same, alone, -⟩ | ⟨different, oldMember⟩
    · rw [same, alone, follows.held piece member, stands]
      simp [eq_comm]
    · simp [follows.held image oldMember, different]

theorem Follows.attach (follows : workspace.Follows editor) (member : piece ∈ editor.pieces)
    (alone : piece.place = none) (free : editor.Free piece.id (some (parent, slot)))
    (outside : ¬editor.Within piece.id parent) :
    (workspace.attach parent slot piece.id).Follows
      (editor.put piece.id (some (parent, slot))) := by
  refine follows.change (by simp) (find?_attach workspace parent slot piece.id) (by simp)
    (follows.forest.put free (by simpa using outside)) ?_ ?_ ?_
  · exact fun old oldMember block shows => shows.put piece.id (some (parent, slot))
  · intro image imageMember other otherSlot
    rw [holds_attach]
    rcases Editor.eq_or_mem_of_mem_put imageMember with ⟨same, stands, -⟩ | ⟨different, oldMember⟩
    · rw [same, stands, follows.held piece member, alone, follows.contains_of_has free.1]
      by_cases here : other = parent ∧ otherSlot = slot
      · simp [here]
      · simp [eq_comm]
    · rw [follows.held image oldMember]
      by_cases here : other = parent ∧ otherSlot = slot
      · obtain ⟨rfl, rfl⟩ := here
        have elsewhere : image.place ≠ some (other, otherSlot) := fun stands =>
          different (free.eq_of_place oldMember stands (by simp))
        simp [different, elsewhere]
      · simp [here]
  · intro other otherSlot child held
    rw [holds_attach] at held
    split at held
    · rw [held.2]
      exact follows.forest.used piece member
    · exact follows.slots other otherSlot child held

theorem Follows.within_of_below {root : String} (follows : workspace.Follows editor)
    (below : workspace.Below root id) (known : editor.Has id) : editor.Within root id := by
  induction below using Relation.ReflTransGen.head_induction_on with
  | refl => exact .self
  | @head child parent link _ ih =>
      obtain ⟨piece, member, rfl⟩ := known
      obtain ⟨block, found, named⟩ := link
      obtain ⟨alive, aliveFound, shows⟩ := follows.exists_block member
      obtain rfl : alive = block := by
        simpa [found] using (live?_eq_some_iff.1 aliveFound).1.symm
      rw [shows.parent, Option.map_eq_some_iff] at named
      obtain ⟨⟨above, slot⟩, stands, rfl⟩ := named
      exact .under member stands (ih (follows.forest.has_parent member stands))

/-- The test for a block's own tree is passed by every target outside of it. -/
theorem Follows.isAncestorOrSelf_eq_false {root : String} (follows : workspace.Follows editor)
    (known : editor.Has id) (outside : ¬editor.Within root id) :
    workspace.isAncestorOrSelf root [] id = false := by
  by_contra found
  exact outside (follows.within_of_below (below_of_isAncestorOrSelf [] id (by simpa using found))
    known)

theorem Follows.takeOff (follows : workspace.Follows editor) (member : piece ∈ editor.pieces) :
    (workspace.takeOff piece.id piece.place).Follows (editor.put piece.id none) := by
  cases stands : piece.place with
  | none =>
      rw [← stands, follows.forest.put_place member, stands]
      exact follows
  | some above => exact follows.detach member stands

theorem Follows.reparent (follows : workspace.Follows editor) (member : piece ∈ editor.pieces)
    (free : editor.Free piece.id place)
    (outside : ∀ parent ∈ place.map (·.1), ¬editor.Within piece.id parent) :
    (workspace.reparent piece.id piece.place place).Follows (editor.put piece.id place) := by
  have known := follows.contains_of_has ⟨piece, member, rfl⟩
  have freed := follows.takeOff member
  obtain _ | ⟨parent, slot⟩ := place
  · rw [reparent_none known]
    exact freed
  · have has : (editor.put piece.id none).Has parent := (Editor.has_change_iff (by simp)).2 free.1
    have apart : ¬(editor.put piece.id none).Within piece.id parent :=
      fun within => outside parent rfl within.of_put
    have stillFree : (editor.put piece.id none).Free piece.id (some (parent, slot)) := by
      refine ⟨has, ?_⟩
      intro other otherMember stands
      rcases Editor.eq_or_mem_of_mem_put otherMember with ⟨same, -⟩ | ⟨-, oldMember⟩
      · exact same
      · exact free.2 other oldMember stands
    rw [reparent_some known (freed.contains_of_has has)
      (freed.isAncestorOrSelf_eq_false has apart),
      ← Editor.put_put editor piece.id none (some (parent, slot))]
    have attached := freed.attach (Editor.mem_put none member) rfl stillFree apart
    exact attached

theorem Follows.mem_cascade_iff {root : String} (follows : workspace.Follows editor)
    (has : editor.Has id) :
    id ∈ workspace.cascade root ↔ editor.Within root id := by
  rw [Workspace.mem_cascade_iff]
  constructor
  · rintro ⟨-, path⟩
    induction path with
    | refl => exact .self
    | tail _ link ih =>
        obtain ⟨slot, holds⟩ := link
        obtain ⟨piece, member, rfl⟩ := has
        have stands := (follows.held piece member _ slot).1 holds
        exact .under member stands (ih (follows.forest.has_parent member stands))
  · intro within
    refine ⟨contains_iff.1 (follows.contains_of_has has), ?_⟩
    clear has
    induction within with
    | self => exact .refl
    | under member stands _ ih => exact ih.tail ⟨_, (follows.held _ member _ _).2 stands⟩

theorem Follows.delete {gone : List String} (follows : workspace.Follows editor)
    (tree : ∀ other, other ∈ gone ↔ editor.Within id other) :
    (workspace.delete id).Follows (editor.remove gone) := by
  have marked : ∀ {other}, editor.Has other → (other ∈ workspace.cascade id ↔ other ∈ gone) :=
    fun has => (follows.mem_cascade_iff has).trans (tree _).symm
  have stays : ∀ {piece}, piece ∈ (editor.remove gone).pieces →
      piece ∈ editor.pieces ∧ (workspace.delete id).live? piece.id = workspace.live? piece.id := by
    intro piece member
    obtain ⟨oldMember, kept⟩ := Editor.mem_remove_iff.1 member
    refine ⟨oldMember, ?_⟩
    rw [live?_delete, if_neg]
    exact fun gone => kept ((marked ⟨piece, oldMember, rfl⟩).1 gone)
  refine ⟨⟨?_, ?_, ?_⟩, follows.forest.remove tree, ?_, ?_⟩
  · intro other
    constructor
    · intro alive
      rw [live?_delete] at alive
      split at alive
      · simp at alive
      next unmarked =>
        obtain ⟨piece, member, rfl⟩ := (follows.live other).1 alive
        refine ⟨piece, Editor.mem_remove_iff.2 ⟨member, ?_⟩, rfl⟩
        exact fun gone => unmarked ((marked ⟨piece, member, rfl⟩).2 gone)
    · rintro ⟨piece, member, rfl⟩
      obtain ⟨oldMember, same⟩ := stays member
      rw [same]
      exact (follows.live piece.id).2 ⟨piece, oldMember, rfl⟩
  · intro piece member block found
    obtain ⟨oldMember, same⟩ := stays member
    exact follows.shown piece oldMember block (same ▸ found)
  · intro piece member parent slot
    rw [holds_delete]
    exact follows.held piece (stays member).1 parent slot
  · intro other known
    rw [contains_delete] at known
    exact follows.known other known
  · intro parent slot child held
    exact follows.slots parent slot child (holds_delete.1 held)

section Insert

variable {block : BlockSpec} (follows : workspace.Follows editor) (distinct : block.Distinct)
  (fresh : ∀ id ∈ block.ids, id ∉ editor.used) (free : editor.Free block.id place)

include follows fresh in
theorem Follows.not_mem_ids (member : piece ∈ editor.pieces) : piece.id ∉ block.ids :=
  fun inTree => fresh piece.id inTree (follows.forest.used piece member)

include follows fresh free in
theorem Follows.fits :
    ∀ above ∈ place.map (·.1), above ∉ block.ids ∧ workspace.contains above = true :=
  fun above stands =>
    ⟨follows.forest.outside fresh free above stands,
      follows.contains_of_has (free.has above stands)⟩

include follows distinct fresh free

theorem Follows.held_insert_old (member : piece ∈ editor.pieces) :
    (workspace.insert block place).Holds parent slot piece.id ↔
      piece.place = some (parent, slot) := by
  rw [holds_insert distinct (follows.fits fresh free), ← follows.held piece member]
  constructor
  · rintro (⟨entry, entryMember, same, -⟩ | ⟨-, -, holds⟩)
    · exact absurd (same ▸ BlockSpec.mem_ids_of_mem_placed entryMember)
        (follows.not_mem_ids fresh member)
    · exact holds
  · intro holds
    have stands := (follows.held piece member parent slot).1 holds
    obtain ⟨above, aboveMember, rfl⟩ := follows.forest.has_parent member stands
    refine .inr ⟨follows.not_mem_ids fresh aboveMember, ?_, holds⟩
    rintro rfl
    have head := free.eq_of_place member stands (by simp)
    exact follows.not_mem_ids fresh member (head ▸ block.id_mem_ids)

theorem Follows.held_insert_new {entry : BlockSpec × Place} (member : entry ∈ block.placed place) :
    (workspace.insert block place).Holds parent slot entry.1.id ↔
      entry.2 = some (parent, slot) := by
  rw [holds_insert distinct (follows.fits fresh free)]
  constructor
  · rintro (⟨other, otherMember, same, stands⟩ | ⟨-, -, holds⟩)
    · obtain rfl := distinct.eq_of_id otherMember member same
      exact stands
    · exact absurd (follows.slots parent slot _ holds)
        (fresh _ (BlockSpec.mem_ids_of_mem_placed member))
  · intro stands
    exact .inl ⟨entry, member, rfl, stands⟩

theorem Follows.insert : (workspace.insert block place).Follows (editor.add block place) := by
  have fits := follows.fits fresh free
  have new : ∀ {entry}, entry ∈ block.placed place →
      (workspace.insert block place).live? entry.1.id = some (placedBlock entry) :=
    fun member => live?_eq_some_iff.2 ⟨find?_insert_of_mem distinct fits member, rfl⟩
  have beside : ∀ {id}, id ∉ block.ids →
      (workspace.insert block place).live? id = (workspace.live? id).map (link place block.id) :=
    fun outside => live?_eq_map (find?_insert_of_not_mem fits outside) (fun _ => rfl)
  refine ⟨⟨?_, ?_, ?_⟩, follows.forest.add distinct fresh free, ?_, ?_⟩
  · intro id
    rw [Editor.has_add_iff]
    by_cases inTree : id ∈ block.ids
    · obtain ⟨entry, member, rfl⟩ := BlockSpec.exists_of_mem_ids place inTree
      simp [new member, inTree]
    · rw [beside inTree, Option.isSome_map, follows.live id]
      simp [inTree]
  · intro piece member found foundEq
    rcases Editor.mem_add_iff.1 member with old | ⟨entry, entryMember, rfl⟩
    · rw [beside (follows.not_mem_ids fresh old)] at foundEq
      obtain ⟨oldBlock, oldFound, rfl⟩ := Option.map_eq_some_iff.1 foundEq
      obtain ⟨type, fields, parent, top⟩ := follows.shown piece old oldBlock oldFound
      exact ⟨type, fields, parent, top⟩
    · obtain rfl := Option.some.inj ((new entryMember).symm.trans foundEq)
      exact ⟨rfl, rfl, rfl, by simp [placedBlock, freshBlock, Piece.ofPlaced]⟩
  · intro piece member parent slot
    rcases Editor.mem_add_iff.1 member with old | ⟨entry, entryMember, rfl⟩
    · exact follows.held_insert_old distinct fresh free old
    · exact follows.held_insert_new distinct fresh free entryMember
  · intro id known
    by_cases inTree : id ∈ block.ids
    · exact List.mem_append_right _ inTree
    · refine List.mem_append_left _ (follows.known id ?_)
      simpa [contains, find?_insert_of_not_mem fits inTree] using known
  · intro parent slot child held
    rcases (holds_insert distinct fits).1 held with ⟨entry, member, rfl, -⟩ | ⟨-, -, oldHeld⟩
    · exact List.mem_append_right _ (BlockSpec.mem_ids_of_mem_placed member)
    · exact List.mem_append_left _ (follows.slots parent slot child oldHeld)

end Insert

theorem Follows.step {before after : Editor} {event : Event} (follows : workspace.Follows before)
    (step : Editor.Step before event after) : (workspace.follow event).Follows after := by
  cases step with
  | idle idle =>
      rw [follow_of_idle idle]
      exact follows
  | create named distinct fresh free =>
      rw [follow, named.place?]
      exact follows.insert distinct fresh free
  | setField known => exact follows.setField
  | move known source target free outside =>
      rw [follow, source.place?, target.place?]
      exact follows.reparent known free outside
  | delete known tree => exact follows.delete tree

end Workspace

namespace Recorder

def handleAll (recorder : Recorder) (events : List TimedEvent) : Recorder :=
  events.foldl (fun recorder timed => recorder.handle timed.event timed.time) recorder

theorem follows_handleAll {recorder : Recorder} {first last : Editor} {events : List TimedEvent}
    (follows : recorder.workspace.Follows first) (run : Editor.Run first events last) :
    (recorder.handleAll events).workspace.Follows last := by
  induction run generalizing recorder with
  | nil => exact follows
  | cons step run ih =>
      refine ih ?_
      rw [workspace_handle]
      exact follows.step step

/-- Whatever run of the editor a new recorder follows, after every prefix its workspace mirrors the
editor's. -/
theorem mirrors_every_prefix {idealBlocks : UInt32} {events : List TimedEvent} {last : Editor}
    (run : Editor.Run .empty events last) (count : Nat) :
    ∃ editor, Editor.Run .empty (events.take count) editor ∧
      Editor.Run editor (events.drop count) last ∧ editor.Forest ∧
        ((start idealBlocks).handleAll (events.take count)).workspace.Mirrors editor := by
  obtain ⟨editor, before, after⟩ := run.split count
  have follows : ((start idealBlocks).handleAll (events.take count)).workspace.Follows editor :=
    follows_handleAll .empty before
  exact ⟨editor, before, after, follows.forest, follows.toMirrors⟩

def rebuilding : List TimedEvent :=
  [.create ⟨"start", "puzzle_start", ∅, [(.next, .leaf "walk" "robot_walk")]⟩ none none .workspace,
    .drag "walk" true .origin 1 none none .workspace,
    .delete "walk" none .origin 1,
    .create (.leaf "turn" "robot_turn") (some "start") none .workspace,
    .fieldChange "turn" none "SIDE" none (some "left") .workspace,
    .create (.leaf "loop" "robot_repeat") none none .workspace,
    .move "turn" (some "start") (some .next) (some "loop") (some .doBody) .workspace].map
      (TimedEvent.mk ⟨0, 0⟩)

theorem run_rebuilding : ∃ last, Editor.Run .empty rebuilding last := by
  refine Editor.Run.exists_cons (.create (.nowhere none) (by decide) (by decide) trivial) ?_
  refine Editor.Run.exists_cons (.idle trivial) ?_
  refine Editor.Run.exists_cons
    (@Editor.Step.delete _ "walk" none .origin 1 ["walk"] (by decide) ?_) ?_
  · intro other
    constructor
    · intro member
      obtain rfl := List.mem_singleton.1 member
      exact .self
    · exact Editor.Within.mem_of_closed (by decide) (by decide)
  refine Editor.Run.exists_cons (.create (.next "start") (by decide) (by decide) (by decide)) ?_
  refine Editor.Run.exists_cons (.setField (by decide)) ?_
  refine Editor.Run.exists_cons (.create (.nowhere none) (by decide) (by decide) trivial) ?_
  refine Editor.Run.exists_cons (@Editor.Step.move _
    ⟨"turn", "robot_turn", .ofList [("SIDE", "left")], some ("start", .next)⟩ _ _ _ _ _ (by decide)
    (.slot "start" .next) (.slot "loop" .doBody) (by decide) ?_) ⟨_, .nil _⟩
  rintro parent stands within
  obtain rfl : "loop" = parent := by simpa using stands
  have inTree : "loop" ∈ ["turn"] := within.mem_of_closed (by decide) (by decide)
  simp at inTree

theorem mirrors_every_prefix_rebuilding : ∃ last, Editor.Run .empty rebuilding last ∧
    ∀ count, ∃ editor, Editor.Run .empty (rebuilding.take count) editor ∧
      Editor.Run editor (rebuilding.drop count) last ∧ editor.Forest ∧
        ((start 3).handleAll (rebuilding.take count)).workspace.Mirrors editor := by
  obtain ⟨last, run⟩ := run_rebuilding
  exact ⟨last, run, fun count => mirrors_every_prefix run count⟩

end Recorder

end RobotPuzzle
