import RobotPuzzle.Proofs.Session.Mirror
import RobotPuzzle.Proofs.Workspace.Census
import RobotPuzzle.Proofs.Workspace.Connection
import RobotPuzzle.Proofs.Workspace.Order

/-!
The program of a session in which the seeded entry block stays the only one and stays alone: the
main tree and the trees beside it show every live block of the workspace once.
-/

namespace RobotPuzzle

/-- A tree to begin with: its head is an entry block and no other block of it is. -/
structure BlockSpec.Seeds (spec : BlockSpec) : Prop where
  distinct : spec.Distinct
  entry : spec.type = "start"
  only : ∀ block ∈ spec.blocks, block.type = "start" → block.id = spec.id

/-- The event brings no entry block, and it neither hangs `root` on another block nor deletes it. -/
def Event.Spares (root : String) : Event → Prop
  | .create block _ _ .workspace => ∀ below ∈ block.blocks, below.type ≠ "start"
  | .move id _ _ newParent _ .workspace => id = root → newParent = none
  | .delete id .. => id ≠ root
  | _ => True

def Event.created : Event → List String
  | .create block _ _ .workspace => block.ids
  | _ => []

namespace Editor

variable {editor before after : Editor} {id root first second : String}

def Top (editor : Editor) (id : String) : Prop :=
  ∃ piece ∈ editor.pieces, piece.id = id ∧ piece.place = none

theorem Grounded.exists_top (grounded : editor.Grounded id) :
    ∃ root, editor.Top root ∧ editor.Within root id := by
  induction grounded with
  | top member alone => exact ⟨_, ⟨_, member, rfl, alone⟩, .self⟩
  | under member stands _ ih =>
      obtain ⟨root, top, within⟩ := ih
      exact ⟨root, top, .under member stands within⟩

theorem Top.has (top : editor.Top id) : editor.Has id := by
  obtain ⟨piece, member, same, -⟩ := top
  exact ⟨piece, member, same⟩

theorem Forest.eq_of_within_top (forest : editor.Forest) (top : editor.Top id)
    (within : editor.Within root id) : id = root := by
  cases within with
  | self => rfl
  | under member stands _ =>
      obtain ⟨piece, pieceMember, same, alone⟩ := top
      obtain rfl := forest.eq_of_id pieceMember member same
      simp [alone] at stands

theorem Forest.top_unique (forest : editor.Forest) (top : editor.Top first)
    (topToo : editor.Top second) (within : editor.Within first id)
    (withinToo : editor.Within second id) : first = second := by
  induction within with
  | self => exact forest.eq_of_within_top top withinToo
  | @under piece parent slot member stands above ih =>
      generalize same : piece.id = low at withinToo
      cases withinToo with
      | self =>
          have alone := forest.eq_of_within_top (same ▸ topToo) (.under member stands above)
          exact alone.symm.trans same
      | under otherMember otherStands otherAbove =>
          obtain rfl := forest.eq_of_id member otherMember same
          obtain ⟨rfl, rfl⟩ : parent = _ ∧ slot = _ := by simpa [stands] using otherStands
          exact ih otherAbove

structure OnlyEntry (editor : Editor) (root : String) : Prop where
  entry : ∃ piece ∈ editor.pieces, piece.id = root ∧ piece.type = "start" ∧ piece.place = none
  only : ∀ piece ∈ editor.pieces, piece.type = "start" → piece.id = root

theorem OnlyEntry.seed {spec : BlockSpec} (seeds : spec.Seeds) :
    (Editor.empty.add spec none).OnlyEntry spec.id := by
  constructor
  · have head : Piece.ofPlaced (spec, none) ∈ (Editor.empty.add spec none).pieces :=
      mem_add_iff.2 (.inr ⟨_, spec.head_mem_placed none, rfl⟩)
    exact ⟨_, head, rfl, seeds.entry, rfl⟩
  · intro piece member isStart
    rcases mem_add_iff.1 member with old | ⟨entry, placed, rfl⟩
    · simp [Editor.empty] at old
    · exact seeds.only _ (BlockSpec.mem_blocks_of_mem_placed placed) isStart

theorem OnlyEntry.top (only : editor.OnlyEntry root) : editor.Top root := by
  obtain ⟨piece, member, same, -, alone⟩ := only.entry
  exact ⟨piece, member, same, alone⟩

theorem OnlyEntry.change {target : String} {edit : Piece → Piece} (only : editor.OnlyEntry root)
    (keeps : ∀ piece, (edit piece).id = piece.id ∧ (edit piece).type = piece.type)
    (alone : ∀ piece, piece.id = root → piece.id = target → piece.place = none →
      (edit piece).place = none) : (editor.change target edit).OnlyEntry root := by
  constructor
  · obtain ⟨piece, member, same, isStart, stands⟩ := only.entry
    refine ⟨_, mem_change_iff.2 ⟨piece, member, rfl⟩, ?_⟩
    split
    next here => exact ⟨(keeps piece).1.trans same, (keeps piece).2.trans isStart,
      alone piece same here stands⟩
    next => exact ⟨same, isStart, stands⟩
  · intro piece member isStart
    obtain ⟨old, oldMember, rfl⟩ := mem_change_iff.1 member
    split at isStart
    next here =>
      rw [if_pos here, (keeps old).1]
      exact only.only old oldMember ((keeps old).2 ▸ isStart)
    next elsewhere =>
      rw [if_neg elsewhere]
      exact only.only old oldMember isStart

theorem OnlyEntry.step {event : Event} (only : before.OnlyEntry root) (forest : before.Forest)
    (step : Step before event after) (spares : event.Spares root) : after.OnlyEntry root := by
  cases step with
  | idle => exact only
  | create named distinct fresh free =>
      obtain ⟨piece, member, head⟩ := only.entry
      refine ⟨⟨piece, mem_add_iff.2 (.inl member), head⟩, ?_⟩
      intro other otherMember isStart
      rcases mem_add_iff.1 otherMember with old | ⟨entry, placed, rfl⟩
      · exact only.only other old isStart
      · exact absurd isStart (spares _ (BlockSpec.mem_blocks_of_mem_placed placed))
  | setField known => exact only.change (fun _ => ⟨rfl, rfl⟩) fun _ _ _ stands => stands
  | @move piece _ _ newParent _ place known source target free outside =>
      refine only.change (fun _ => ⟨rfl, rfl⟩) fun other isRoot isMoved _ => ?_
      have nowhere : newParent = none := spares (isMoved ▸ isRoot)
      subst nowhere
      cases target
      rfl
  | delete known tree =>
      obtain ⟨piece, member, rfl, head⟩ := only.entry
      refine ⟨⟨piece, mem_remove_iff.2 ⟨member, fun gone => ?_⟩, rfl, head⟩, ?_⟩
      · exact spares (forest.eq_of_within_top only.top ((tree _).1 gone)).symm
      · exact fun other otherMember => only.only other (mem_remove_iff.1 otherMember).1

end Editor

namespace Workspace

variable {workspace : Workspace} {editor : Editor} {id root : String}

def standsLoose (workspace : Workspace) (id : String) : Bool :=
  (workspace.live? id).any fun block => block.top && block.type != "start"

def heads (workspace : Workspace) (root : String) : List String :=
  root :: workspace.ids.filter workspace.standsLoose

theorem standsLoose_iff : workspace.standsLoose id = true ↔ ∃ block,
    workspace.live? id = some block ∧ block.top = true ∧ block.type ≠ "start" := by
  simp [standsLoose, Option.any_eq_true]

theorem map_id_loose (workspace : Workspace) :
    workspace.loose.map (·.id) = workspace.ids.filter workspace.standsLoose := by
  rw [ids, List.filter_map, loose]
  congr 1
  refine List.filter_congr fun block member => ?_
  have found : workspace.find? block.id = some block := find?_eq_some_iff.2 ⟨member, rfl⟩
  have kinds : (block.kind == .start) = (block.type == "start") := by
    rw [Bool.eq_iff_iff, beq_iff_eq, beq_iff_eq]
    exact Block.kind_eq_start_iff block
  cases deleted : block.deleted <;>
    simp [standsLoose, live?, found, deleted, bne, kinds]

theorem map_some_filterMap_shape? (blocks : List Block)
    (alive : ∀ block ∈ blocks, workspace.live? block.id = some block) :
    (blocks.filterMap fun block => workspace.shape? block.id).map some =
      (blocks.map (·.id)).map workspace.shape? := by
  induction blocks with
  | nil => rfl
  | cons first rest ih =>
      obtain ⟨found, aliveRest⟩ := List.forall_mem_cons.1 alive
      obtain ⟨shape, shown⟩ := exists_shape found
      simp [shown, ih aliveRest]

theorem labels_shapes_perm {roots : List String} {shapes : List Shape}
    (shown : shapes.map some = roots.map workspace.shape?) :
    ((shapes.flatMap Shape.labels).map some).Perm
      ((roots.flatMap workspace.descendants).map workspace.label?) := by
  induction roots generalizing shapes with
  | nil =>
      obtain rfl := List.map_eq_nil_iff.1 shown
      exact .nil
  | cons root rest ih =>
      obtain ⟨shape, others, rfl, head, tail⟩ := List.map_eq_cons_iff.1 shown
      simpa using (labels_shape?_perm head.symm).append (ih tail)

namespace Follows

theorem mem_descendants_iff (follows : workspace.Follows editor) (has : editor.Has root) :
    id ∈ workspace.descendants root ↔ editor.Within root id := by
  constructor
  · refine descendants_induction .self ?_
    intro parent slot child block holds found above
    obtain ⟨piece, member, rfl⟩ := (follows.live child).1 (by simp [found])
    exact .under member ((follows.held piece member parent slot).1 holds) above
  · intro within
    induction within with
    | self =>
        obtain ⟨block, found⟩ := Option.isSome_iff_exists.1 ((follows.live root).2 has)
        exact mem_descendants_self found
    | under member stands _ ih =>
        obtain ⟨block, found, -⟩ := follows.exists_block member
        exact mem_descendants_of_holds ih ((follows.held _ member _ _).2 stands) found

theorem mem_heads_iff (follows : workspace.Follows editor) (only : editor.OnlyEntry root) :
    id ∈ workspace.heads root ↔ editor.Top id := by
  rw [heads, List.mem_cons, List.mem_filter, standsLoose_iff]
  constructor
  · rintro (rfl | ⟨-, block, found, isTop, -⟩)
    · exact only.top
    · obtain ⟨piece, member, rfl⟩ := (follows.live id).1 (by simp [found])
      refine ⟨piece, member, rfl, ?_⟩
      simpa [isTop] using (follows.shown piece member block found).top.symm
  · rintro ⟨piece, member, rfl, alone⟩
    obtain ⟨block, found, shows⟩ := follows.exists_block member
    by_cases isStart : piece.type = "start"
    · exact .inl (only.only piece member isStart)
    · have known := mem_ids_iff.2 (follows.contains_of_has ⟨piece, member, rfl⟩)
      refine .inr ⟨known, block, found, ?_, ?_⟩
      · simp [shows.top, alone]
      · rw [shows.type]
        exact isStart

theorem heads_nodup (follows : workspace.Follows editor) (only : editor.OnlyEntry root) :
    (workspace.heads root).Nodup := by
  refine List.nodup_cons.2 ⟨fun again => ?_, workspace.distinct.filter _⟩
  obtain ⟨piece, member, rfl, isStart, -⟩ := only.entry
  obtain ⟨block, found, shows⟩ := follows.exists_block member
  have loose := (List.mem_filter.1 again).2
  simp [standsLoose, found, shows.type, isStart] at loose

theorem trees_nodup (follows : workspace.Follows editor) (only : editor.OnlyEntry root) :
    ((workspace.heads root).flatMap workspace.descendants).Nodup := by
  refine List.nodup_flatMap.2 ⟨fun id _ => workspace.descendants_nodup id, ?_⟩
  refine (follows.heads_nodup only).imp_of_mem ?_
  intro first second member memberToo different id below belowToo
  have top := (follows.mem_heads_iff only).1 member
  have topToo := (follows.mem_heads_iff only).1 memberToo
  exact different (follows.forest.top_unique top topToo
    ((follows.mem_descendants_iff top.has).1 below)
    ((follows.mem_descendants_iff topToo.has).1 belowToo))

/-- The trees of a program hold every live block once. -/
theorem trees_perm (follows : workspace.Follows editor) (only : editor.OnlyEntry root) :
    ((workspace.heads root).flatMap workspace.descendants).Perm workspace.liveIds := by
  refine (List.perm_ext_iff_of_nodup (follows.trees_nodup only) workspace.nodup_liveIds).2
    fun id => ?_
  constructor
  · intro member
    obtain ⟨top, -, below⟩ := List.mem_flatMap.1 member
    exact mem_liveIds_iff.2 (Workspace.mem_descendants_iff.1 below).1
  · intro alive
    obtain ⟨block, found⟩ := mem_liveIds_iff.1 alive
    have has : editor.Has id := (follows.live id).1 (by simp [found])
    obtain ⟨top, isTop, within⟩ := (follows.forest.grounded_of_has has).exists_top
    exact List.mem_flatMap.2 ⟨top, (follows.mem_heads_iff only).2 isTop,
      (follows.mem_descendants_iff isTop.has).2 within⟩

theorem entries_eq (follows : workspace.Follows editor) (only : editor.OnlyEntry root) :
    ∃ block, workspace.live? root = some block ∧ workspace.entries = [block] := by
  obtain ⟨piece, member, rfl, isStart, -⟩ := only.entry
  obtain ⟨block, found, shows⟩ := follows.exists_block member
  have distinct : workspace.starts.Nodup :=
    (List.Nodup.of_map _ workspace.distinct).sublist List.filter_sublist
  refine ⟨block, found, ?_⟩
  rw [entries_eq_starts]
  refine List.perm_singleton.1 ((List.perm_ext_iff_of_nodup distinct (by simp)).2 fun other => ?_)
  rw [List.mem_singleton, mem_starts_iff]
  constructor
  · rintro ⟨foundOther, otherStart⟩
    obtain ⟨otherPiece, otherMember, same⟩ := (follows.live other.id).1 (by simp [foundOther])
    have otherShows := follows.shown otherPiece otherMember other (same ▸ foundOther)
    have isRoot := only.only otherPiece otherMember (otherShows.type ▸ otherStart)
    rw [← same, isRoot, found] at foundOther
    exact (Option.some.inj foundOther).symm
  · rintro rfl
    exact ⟨(id_of_live? found).symm ▸ found, shows.type.trans isStart⟩

theorem ids_step {before after : Editor} {event : Event} (follows : workspace.Follows before)
    (step : Editor.Step before event after) :
    (workspace.follow event).ids = workspace.ids ++ event.created := by
  cases step with
  | @idle event idle =>
      rw [follow_of_idle idle]
      cases event <;> simp_all [Event.Idle, Event.created]
  | create named distinct fresh free =>
      refine ids_insert distinct.ids (fun id member => ?_) _
      by_contra known
      exact fresh id member (follows.known id (by simpa using known))
  | setField known => simp [follow, Event.created]
  | move known source target free outside => simp [follow, Event.created]
  | delete known tree => simp [follow, Event.created]

end Follows

/-- The main tree is that of `root` and as large as the number of used blocks; the other trees are
those of the live blocks of `created` that stand alone and are no entries, in this order. Together
they show each live block once. -/
structure Divides (workspace : Workspace) (root : String) (created : List String)
    (program : ProgramShape) (main : Shape) : Prop where
  shown : program.main = some main ∧ workspace.shape? root = some main
  others : program.others.map some =
    (created.filter workspace.standsLoose).map workspace.shape?
  blocks : ((root :: created.filter workspace.standsLoose).flatMap workspace.descendants).Perm
    workspace.liveIds
  labels : (((main :: program.others).flatMap Shape.labels).map some).Perm
    (workspace.liveIds.map workspace.label?)
  size : ((main :: program.others).map Shape.size).sum = workspace.liveIds.length
  used : main.size = workspace.usedCount

theorem Follows.divides (follows : workspace.Follows editor) (only : editor.OnlyEntry root) :
    ∃ main, workspace.Divides root workspace.ids workspace.programShape main := by
  obtain ⟨entry, found, single⟩ := follows.entries_eq only
  obtain rfl := id_of_live? found
  obtain ⟨main, shown⟩ := exists_shape found
  have others : workspace.programShape.others.map some =
      (workspace.ids.filter workspace.standsLoose).map workspace.shape? := by
    rw [← map_id_loose]
    exact map_some_filterMap_shape? _ fun _ member => (mem_loose_iff.1 member).1
  have blocks := follows.trees_perm only
  have labels : (((main :: workspace.programShape.others).flatMap Shape.labels).map some).Perm
      (workspace.liveIds.map workspace.label?) := by
    refine (labels_shapes_perm ?_).trans (blocks.map _)
    simp [heads, others, shown]
  refine ⟨main, ⟨by simp [programShape, single, shown], shown⟩, others, blocks, labels, ?_, ?_⟩
  · simpa [List.length_flatMap] using labels.length_eq
  · simp [usedCount, single, size_shape? shown]

end Workspace

namespace Recorder

variable {recorder : Recorder} {first last : Editor} {events : List TimedEvent} {root : String}

theorem ids_handleAll (follows : recorder.workspace.Follows first)
    (run : Editor.Run first events last) : (recorder.handleAll events).workspace.ids =
      recorder.workspace.ids ++ events.flatMap fun timed => timed.event.created := by
  induction run generalizing recorder with
  | nil => simp [handleAll]
  | @cons before middle last timed rest step run ih =>
      have same := recorder.workspace_handle timed.event timed.time
      have here : (recorder.handle timed.event timed.time).workspace.Follows middle :=
        same ▸ follows.step step
      have tail := ih here
      rw [same, follows.ids_step step, List.append_assoc] at tail
      simpa [handleAll] using tail

theorem onlyEntry_run (forest : first.Forest) (only : first.OnlyEntry root)
    (run : Editor.Run first events last)
    (spares : ∀ timed ∈ events, timed.event.Spares root) : last.OnlyEntry root := by
  induction run with
  | nil => exact only
  | cons step run ih =>
      obtain ⟨here, later⟩ := List.forall_mem_cons.1 spares
      exact ih (forest.step step) (only.step forest step here) later

/-- After any run of the editor that leaves the seeded block the only entry block, without a
parent and in the workspace, the program divides the live blocks among its trees. -/
theorem program_divides_live {idealBlocks : UInt32} {spec : BlockSpec} (seeds : spec.Seeds)
    (run : Editor.Run (Editor.empty.add spec none) events last)
    (spares : ∀ timed ∈ events, timed.event.Spares spec.id) :
    ∃ main, (((start idealBlocks).seed spec).handleAll events).workspace.Divides spec.id
      (spec.ids ++ events.flatMap fun timed => timed.event.created)
      (((start idealBlocks).seed spec).handleAll events).program main := by
  have unused : ∀ id ∈ spec.ids, id ∉ Editor.empty.used := by simp [Editor.empty]
  have free : Editor.empty.Free spec.id none := trivial
  have seeded : ((start idealBlocks).seed spec).workspace.Follows (Editor.empty.add spec none) :=
    Workspace.Follows.empty.insert seeds.distinct unused free
  have order := ids_handleAll seeded run
  have head : ((start idealBlocks).seed spec).workspace.ids = spec.ids :=
    Workspace.ids_insert seeds.distinct.ids (by simp [start, Workspace.contains]) none
  rw [head] at order
  rw [← order]
  have only := onlyEntry_run seeded.forest (.seed seeds) run spares
  exact (follows_handleAll seeded run).divides only

def oneStep : BlockSpec := ⟨"start", "start", ∅, [(.next, .leaf "walk" "forward")]⟩

def regrouping : List TimedEvent :=
  [.create (.leaf "loop" "repeat") none none .workspace,
    .move "walk" (some "start") none (some "loop") (some .doBody) .workspace,
    .create (.leaf "turn" "turn_left") (some "start") none .workspace,
    .delete "turn" none .origin 1].map (TimedEvent.mk ⟨0, 0⟩)

theorem program_divides_live_regrouping : oneStep.Seeds ∧
    (∀ timed ∈ regrouping, timed.event.Spares oneStep.id) ∧
    ∃ last, Editor.Run (Editor.empty.add oneStep none) regrouping last ∧
      ∃ main, (((start 3).seed oneStep).handleAll regrouping).workspace.Divides "start"
        ["start", "walk", "loop", "turn"] (((start 3).seed oneStep).handleAll regrouping).program
        main := by
  have seeds : oneStep.Seeds := ⟨by decide, rfl, by decide⟩
  have spares : ∀ timed ∈ regrouping, timed.event.Spares oneStep.id := by
    simp [regrouping, Event.Spares, oneStep, BlockSpec.leaf, BlockSpec.blocks, BlockSpec.placed,
      BlockSpec.placedBelow]
  obtain ⟨last, run⟩ :
      ∃ last, Editor.Run (Editor.empty.add oneStep none) regrouping last := by
    refine Editor.Run.exists_cons (.create (.nowhere none) (by decide) (by decide) trivial) ?_
    refine Editor.Run.exists_cons (@Editor.Step.move _ ⟨"walk", "forward", ∅, some ("start", .next)⟩
      _ _ _ _ _ (by decide) (.next "start") (.slot "loop" .doBody) (by decide) ?_) ?_
    · rintro parent stands within
      obtain rfl : "loop" = parent := by simpa using stands
      have inTree : "loop" ∈ ["walk"] := within.mem_of_closed (by decide) (by decide)
      simp at inTree
    refine Editor.Run.exists_cons (.create (.next "start") (by decide) (by decide) (by decide)) ?_
    refine Editor.Run.exists_cons (@Editor.Step.delete _ "turn" none .origin 1 ["turn"] (by decide)
      fun other => ⟨?_, Editor.Within.mem_of_closed (by decide) (by decide)⟩) ⟨_, .nil _⟩
    intro member
    obtain rfl := List.mem_singleton.1 member
    exact .self
  exact ⟨seeds, spares, last, run, program_divides_live seeds run spares⟩

end Recorder

end RobotPuzzle
