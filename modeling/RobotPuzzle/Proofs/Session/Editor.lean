import RobotPuzzle.Proofs.Workspace.Tree
import RobotPuzzle.Session.Event

/-!
The editor's own workspace, a forest of blocks, and the steps in which it reports its events. It
knows nothing of the toolbox, of open drags or of blocks that are gone.
-/

namespace RobotPuzzle

structure Piece where
  id : String
  type : String
  fields : SortedMap String String
  place : Place
deriving DecidableEq

def Piece.ofPlaced (entry : BlockSpec × Place) : Piece :=
  ⟨entry.1.id, entry.1.type, entry.1.fields, entry.2⟩

structure Editor where
  pieces : List Piece
  /-- Every id given out so far. -/
  used : List String

/-- How an event names a place. Without a slot it means the next slot. -/
inductive Names : Option String → Option Slot → Place → Prop
  | nowhere (slot : Option Slot) : Names none slot none
  | slot (parent : String) (slot : Slot) : Names (some parent) (some slot) (some (parent, slot))
  | next (parent : String) : Names (some parent) none (some (parent, .next))

def Event.Idle : Event → Prop
  | .create _ _ _ source => source = .toolbox
  | .fieldChange _ _ _ _ _ source => source = .toolbox
  | .move _ _ _ _ _ source => source = .toolbox
  | .drag .. => True
  | .loadFinished => True
  | .delete .. => False

namespace Editor

def empty : Editor := ⟨[], []⟩

def Has (editor : Editor) (id : String) : Prop := ∃ piece ∈ editor.pieces, piece.id = id

instance (editor : Editor) (id : String) : Decidable (editor.Has id) :=
  inferInstanceAs (Decidable (∃ piece ∈ editor.pieces, piece.id = id))

inductive Within (editor : Editor) (root : String) : String → Prop
  | self : Within editor root root
  | under {piece parent slot} (member : piece ∈ editor.pieces)
      (stands : piece.place = some (parent, slot)) (above : Within editor root parent) :
      Within editor root piece.id

def Free (editor : Editor) (id : String) : Place → Prop
  | none => True
  | some (parent, slot) => editor.Has parent ∧
      ∀ piece ∈ editor.pieces, piece.place = some (parent, slot) → piece.id = id

instance (editor : Editor) (id : String) : (place : Place) → Decidable (editor.Free id place)
  | none => .isTrue trivial
  | some (parent, slot) => inferInstanceAs (Decidable (editor.Has parent ∧
      ∀ piece ∈ editor.pieces, piece.place = some (parent, slot) → piece.id = id))

def add (editor : Editor) (block : BlockSpec) (place : Place) : Editor where
  pieces := editor.pieces ++ (block.placed place).map .ofPlaced
  used := editor.used ++ block.ids

def change (editor : Editor) (id : String) (edit : Piece → Piece) : Editor :=
  { editor with
    pieces := editor.pieces.map fun piece => if piece.id = id then edit piece else piece }

def setField (editor : Editor) (id name : String) (value : Option String) : Editor :=
  editor.change id fun piece =>
    { piece with
      fields :=
        match value with
        | some value => piece.fields.insert name value
        | none => piece.fields.erase name }

def put (editor : Editor) (id : String) (place : Place) : Editor :=
  editor.change id fun piece => { piece with place }

def remove (editor : Editor) (gone : List String) : Editor :=
  { editor with pieces := editor.pieces.filter fun piece => piece.id ∉ gone }

/-- One step of the editor with the event that reports it. -/
inductive Step (before : Editor) : Event → Editor → Prop
  | idle {event} (idle : event.Idle) : Step before event before
  | create {block parent slot place} (named : Names parent slot place)
      (distinct : block.Distinct) (fresh : ∀ id ∈ block.ids, id ∉ before.used)
      (free : before.Free block.id place) :
      Step before (.create block parent slot .workspace) (before.add block place)
  | setField {id type name oldValue newValue} (known : before.Has id) :
      Step before (.fieldChange id type name oldValue newValue .workspace)
        (before.setField id name newValue)
  | move {piece oldParent oldSlot newParent newSlot place} (known : piece ∈ before.pieces)
      (source : Names oldParent oldSlot piece.place) (target : Names newParent newSlot place)
      (free : before.Free piece.id place)
      (outside : ∀ parent ∈ place.map (·.1), ¬before.Within piece.id parent) :
      Step before (.move piece.id oldParent oldSlot newParent newSlot .workspace)
        (before.put piece.id place)
  | delete {id type position groupSize gone} (known : before.Has id)
      (tree : ∀ other, other ∈ gone ↔ before.Within id other) :
      Step before (.delete id type position groupSize) (before.remove gone)

inductive Run : Editor → List TimedEvent → Editor → Prop
  | nil (editor : Editor) : Run editor [] editor
  | cons {before middle last timed rest} (step : Step before timed.event middle)
      (run : Run middle rest last) : Run before (timed :: rest) last

theorem Run.exists_cons {before middle : Editor} {timed : TimedEvent} {rest : List TimedEvent}
    (step : Step before timed.event middle) (run : ∃ last, Run middle rest last) :
    ∃ last, Run before (timed :: rest) last := by
  obtain ⟨last, run⟩ := run
  exact ⟨last, .cons step run⟩

theorem Run.split {first last : Editor} {events : List TimedEvent} (run : Run first events last)
    (count : Nat) :
    ∃ middle, Run first (events.take count) middle ∧ Run middle (events.drop count) last := by
  induction run generalizing count with
  | nil editor => exact ⟨editor, by simpa using .nil editor, by simpa using .nil editor⟩
  | @cons before middle last timed rest step run ih =>
      cases count with
      | zero => exact ⟨before, .nil before, .cons step run⟩
      | succ count =>
          obtain ⟨stop, start, finish⟩ := ih count
          exact ⟨stop, .cons step start, finish⟩

variable {editor before after : Editor} {piece other : Piece} {id parent : String} {slot : Slot}
  {place : Place} {block : BlockSpec}

theorem mem_change_iff {edit : Piece → Piece} : piece ∈ (editor.change id edit).pieces ↔
    ∃ old ∈ editor.pieces, (if old.id = id then edit old else old) = piece := by
  simp [change]

theorem mem_add_iff : piece ∈ (editor.add block place).pieces ↔
    piece ∈ editor.pieces ∨ ∃ entry ∈ block.placed place, .ofPlaced entry = piece := by
  simp [add]

theorem has_add_iff : (editor.add block place).Has id ↔ editor.Has id ∨ id ∈ block.ids := by
  constructor
  · rintro ⟨piece, member, rfl⟩
    rcases mem_add_iff.1 member with old | ⟨entry, entryMember, rfl⟩
    · exact .inl ⟨piece, old, rfl⟩
    · exact .inr (BlockSpec.mem_ids_of_mem_placed entryMember)
  · rintro (⟨piece, member, rfl⟩ | inTree)
    · exact ⟨piece, mem_add_iff.2 (.inl member), rfl⟩
    · obtain ⟨entry, member, rfl⟩ := BlockSpec.exists_of_mem_ids place inTree
      exact ⟨_, mem_add_iff.2 (.inr ⟨entry, member, rfl⟩), rfl⟩

theorem mem_remove_iff {gone : List String} : piece ∈ (editor.remove gone).pieces ↔
    piece ∈ editor.pieces ∧ piece.id ∉ gone := by
  simp [remove]

theorem Within.has {root : String} (within : editor.Within root id) (known : editor.Has root) :
    editor.Has id := by
  cases within with
  | self => exact known
  | under member => exact ⟨_, member, rfl⟩

theorem exists_delete {type : Option String} {position : SurfacePoint} {groupSize : UInt64}
    (known : editor.Has id) :
    ∃ after, Step editor (.delete id type position groupSize) after := by
  classical
  have tree : ∀ other, other ∈ (editor.pieces.map (·.id)).filter (editor.Within id ·) ↔
      editor.Within id other := by
    intro other
    simp only [List.mem_filter, List.mem_map, decide_eq_true_eq, and_iff_right_iff_imp]
    exact fun within => within.has known
  exact ⟨_, .delete known tree⟩

theorem Within.mem_of_closed {root : String} {ids : List String} (start : root ∈ ids)
    (closed : ∀ piece ∈ editor.pieces, ∀ above ∈ piece.place, above.1 ∈ ids → piece.id ∈ ids)
    (within : editor.Within root id) : id ∈ ids := by
  induction within with
  | self => exact start
  | under member stands _ ih => exact closed _ member _ stands ih

theorem map_id_change {edit : Piece → Piece} (keeps : ∀ piece, (edit piece).id = piece.id) :
    (editor.change id edit).pieces.map (·.id) = editor.pieces.map (·.id) := by
  simp only [change, List.map_map]
  refine List.map_congr_left ?_
  intro piece member
  simp only [Function.comp_apply]
  split
  · exact keeps piece
  · rfl

theorem has_change_iff {other : String} {edit : Piece → Piece}
    (keeps : ∀ piece, (edit piece).id = piece.id) :
    (editor.change id edit).Has other ↔ editor.Has other := by
  have ids := @map_id_change editor id edit keeps
  simp only [Has, ← List.mem_map, ids]

theorem mem_put (place : Place) (member : piece ∈ editor.pieces) :
    { piece with place } ∈ (editor.put piece.id place).pieces :=
  mem_change_iff.2 ⟨piece, member, if_pos rfl⟩

theorem mem_put_of_ne (place : Place) (member : piece ∈ editor.pieces)
    (different : piece.id ≠ id) : piece ∈ (editor.put id place).pieces :=
  mem_change_iff.2 ⟨piece, member, if_neg different⟩

theorem put_put (editor : Editor) (id : String) (first second : Place) :
    (editor.put id first).put id second = editor.put id second := by
  simp only [put, change, List.map_map]
  congr 2
  funext piece
  by_cases same : piece.id = id <;> simp [same]

theorem eq_or_mem_of_mem_put (member : piece ∈ (editor.put id place).pieces) :
    (piece.id = id ∧ piece.place = place ∧ editor.Has id) ∨
      (piece.id ≠ id ∧ piece ∈ editor.pieces) := by
  obtain ⟨old, oldMember, rfl⟩ := mem_change_iff.1 member
  by_cases same : old.id = id
  · exact .inl ⟨by simp [same], by simp [same], old, oldMember, same⟩
  · exact .inr ⟨by simp [same], by simpa [same] using oldMember⟩

theorem Free.has (free : editor.Free id place) : ∀ parent ∈ place.map (·.1), editor.Has parent := by
  obtain _ | ⟨parent, slot⟩ := place
  · simp
  · rintro above stands
    obtain rfl : parent = above := by simpa using stands
    exact free.1

theorem Free.eq_of_place (free : editor.Free id place) (member : piece ∈ editor.pieces)
    (stands : piece.place = place) (filled : place ≠ none) : piece.id = id := by
  obtain _ | ⟨parent, slot⟩ := place
  · exact absurd rfl filled
  · exact free.2 piece member stands

end Editor

end RobotPuzzle
