import Mathlib.Data.List.Induction
import RobotPuzzle.Proofs.Session.Mirror
import RobotPuzzle.Proofs.Workspace.Edits

/-!
Which drags are open after a run of events, told from the events alone, and what the log says about
them. A drag that begins anew takes the place of the one before it, so that each start of a drag is
answered by one record at most.
-/

namespace RobotPuzzle

namespace Event

def dragStart? (id : String) : Event → Option (SurfacePoint × UInt64)
  | .drag block true position groupSize _ _ _ =>
    if block = id then some (position, groupSize) else none
  | _ => none

def dragEnd? (id : String) : Event → Option SurfacePoint
  | .drag block false position _ _ _ _ => if block = id then some position else none
  | _ => none

def Deletes (id : String) : Event → Prop
  | .delete block .. => block = id
  | _ => False

end Event

def DragRecord.opened (record : DragRecord) : PendingDrag :=
  ⟨record.block, record.type, record.groupSize, record.start, record.startedAt, record.priorParent⟩

def Interaction.closedDrag? (id : String) : Interaction → Option PendingDrag
  | .drag record => if record.block = id then some record.opened else none
  | _ => none

def Record.closedDrags (record : Record) (id : String) : List PendingDrag :=
  record.actions.filterMap (·.closedDrag? id)

theorem Record.closedDrags_log (record : Record) (interaction : Interaction) (id : String) :
    (record.log interaction).closedDrags id =
      record.closedDrags id ++ (interaction.closedDrag? id).toList := by
  cases logged : interaction.closedDrag? id <;> simp [closedDrags, log, logged]

theorem Record.closedDrags_log_other {interaction : Interaction} {id : String}
    (other : interaction.closedDrag? id = none) (record : Record) :
    (record.log interaction).closedDrags id = record.closedDrags id := by
  rw [closedDrags_log, other, Option.toList_none, List.append_nil]

theorem Interaction.closedDrag?_close {drag : PendingDrag} {id : String} (own : drag.block = id)
    (other : String) (place : SurfacePoint) (time : Instant) (connectedTo : Option String)
    (slot : Option Slot) (outcome : DragOutcome) :
    (Interaction.drag (drag.close place time connectedTo slot outcome)).closedDrag? other =
      if id = other then some drag else none := by
  subst own
  rfl

theorem Workspace.Edited.follow {workspace : Workspace} (edited : Edited workspace)
    (event : Event) : Edited (workspace.follow event) := by
  cases event with
  | create block parent slot source =>
      cases source with
      | toolbox => exact edited
      | workspace => exact edited.insert block _
  | fieldChange block type name oldValue newValue source =>
      cases source with
      | toolbox => exact edited
      | workspace => exact edited.setField block name newValue
  | move block oldParent oldSlot newParent newSlot source =>
      cases source with
      | toolbox => exact edited
      | workspace => exact edited.reparent block _ _
  | delete block type position groupSize => exact edited.delete block
  | drag | loadFinished => exact edited

namespace Recorder

def begins? (recorder : Recorder) (id : String) (timed : TimedEvent) : Option PendingDrag :=
  (timed.event.dragStart? id).map fun start =>
    { block := id
      type := (recorder.workspace.find? id).map (·.type)
      groupSize := start.2
      start := start.1
      startedAt := timed.time
      priorParent := (recorder.workspace.find? id).bind (·.parent) }

def begun (recorder : Recorder) (id : String) : List TimedEvent → List PendingDrag
  | [] => []
  | timed :: rest =>
    (recorder.begins? id timed).toList ++ (recorder.handle timed.event timed.time).begun id rest

def Begins (id : String) (event : Event) : Prop := ∃ start, event.dragStart? id = some start

/-- After the events `before` the event closes a drag of the block: it deletes the block, or ends
the drag elsewhere than where the latest one began. -/
def Closes (recorder : Recorder) (id : String) (before : List TimedEvent) (event : Event) : Prop :=
  event.Deletes id ∨ ∃ finish last, event.dragEnd? id = some finish ∧
    (recorder.begun id before).getLast? = some last ∧ last.start.sameAs finish = false

def Happens (kind : List TimedEvent → Event → Prop) (events : List TimedEvent) (index : Nat) :
    Prop :=
  ∃ timed, events[index]? = some timed ∧ kind (events.take index) timed.event

/-- Some drag of the block begins and is closed by no later event. -/
def LeftOpen (recorder : Recorder) (id : String) (events : List TimedEvent) : Prop :=
  ∃ index, Happens (fun _ => Begins id) events index ∧
    ∀ later, index < later → ¬Happens (recorder.Closes id) events later

variable {recorder after : Recorder} {id : String} {events : List TimedEvent} {timed : TimedEvent}

theorem handleAll_concat (recorder : Recorder) (events : List TimedEvent) (timed : TimedEvent) :
    recorder.handleAll (events ++ [timed]) =
      (recorder.handleAll events).handle timed.event timed.time := by
  simp [handleAll]

theorem begun_concat (recorder : Recorder) (id : String) (events : List TimedEvent)
    (timed : TimedEvent) : recorder.begun id (events ++ [timed]) =
      recorder.begun id events ++ ((recorder.handleAll events).begins? id timed).toList := by
  induction events generalizing recorder with
  | nil => simp [begun, handleAll]
  | cons first rest ih =>
      rw [List.cons_append, begun, ih, begun, List.append_assoc]
      rfl

theorem Happens.lt_length {kind : List TimedEvent → Event → Prop} {index : Nat}
    (happens : Happens kind events index) : index < events.length := by
  obtain ⟨timed, found, -⟩ := happens
  exact (List.getElem?_eq_some_iff.1 found).1

theorem happens_concat {kind : List TimedEvent → Event → Prop} {index : Nat} :
    Happens kind (events ++ [timed]) index ↔
      Happens kind events index ∨ index = events.length ∧ kind events timed.event := by
  rcases Nat.lt_trichotomy index events.length with inside | rfl | outside
  · have apart : index ≠ events.length := by omega
    simp [Happens, apart, List.getElem?_append_left inside, List.take_append_of_le_length inside.le]
  · simp [Happens]
  · have late : ¬Happens kind (events ++ [timed]) index := by
      intro happens
      have bound := happens.lt_length
      rw [List.length_append, List.length_singleton] at bound
      omega
    have apart : index ≠ events.length := by omega
    have before : ¬Happens kind events index := fun happens => by
      have bound := happens.lt_length
      omega
    simp [late, apart, before]

theorem leftOpen_concat : recorder.LeftOpen id (events ++ [timed]) ↔
    Begins id timed.event ∨
      recorder.LeftOpen id events ∧ ¬recorder.Closes id events timed.event := by
  constructor
  · rintro ⟨index, begins, unclosed⟩
    rcases happens_concat.1 begins with early | ⟨-, now⟩
    · refine .inr ⟨⟨index, early, fun later above closes => ?_⟩, fun closes => ?_⟩
      · exact unclosed later above (happens_concat.2 (.inl closes))
      · exact unclosed events.length early.lt_length (happens_concat.2 (.inr ⟨rfl, closes⟩))
    · exact .inl now
  · rintro (now | ⟨⟨index, begins, unclosed⟩, stays⟩)
    · refine ⟨events.length, happens_concat.2 (.inr ⟨rfl, now⟩), fun later above closes => ?_⟩
      have bound := closes.lt_length
      rw [List.length_append, List.length_singleton] at bound
      omega
    · refine ⟨index, happens_concat.2 (.inl begins), fun later above closes => ?_⟩
      rcases happens_concat.1 closes with early | ⟨-, now⟩
      · exact unclosed later above early
      · exact stays now

/-- What an event does about the drags of a block: it begins one, closes the open one with a record
of it, or leaves all as it is. -/
inductive Effect (recorder after : Recorder) (id : String) (timed : TimedEvent) : Prop
  | begins {drag : PendingDrag} (started : recorder.begins? id timed = some drag)
      (opened : after.pending.get? id = some drag)
      (logged : after.record.closedDrags id = recorder.record.closedDrags id)
  | closes {drag : PendingDrag} (quiet : timed.event.dragStart? id = none)
      (wasOpen : recorder.pending.get? id = some drag)
      (ends : timed.event.Deletes id ∨
        ∃ finish, timed.event.dragEnd? id = some finish ∧ drag.start.sameAs finish = false)
      (closed : after.pending.get? id = none)
      (logged : after.record.closedDrags id = recorder.record.closedDrags id ++ [drag])
  | keeps (quiet : timed.event.dragStart? id = none)
      (same : after.pending.get? id = recorder.pending.get? id)
      (stays : ∀ drag, recorder.pending.get? id = some drag → ¬timed.event.Deletes id ∧
        ∀ finish, timed.event.dragEnd? id = some finish → drag.start.sameAs finish = true)
      (logged : after.record.closedDrags id = recorder.record.closedDrags id)

def Labelled (recorder : Recorder) : Prop :=
  ∀ id drag, recorder.pending.get? id = some drag → drag.block = id

theorem parentOf?_eq (known : recorder.workspace.ParentsKnown) (id : String) :
    recorder.parentOf? id = (recorder.workspace.find? id).bind (·.parent) := by
  rw [parentOf?]
  cases named : (recorder.workspace.find? id).bind (·.parent) with
  | none => rfl
  | some parent =>
      obtain ⟨block, found, named⟩ := Option.bind_eq_some_iff.1 named
      exact Option.filter_some_pos (known id parent ⟨block, found, named⟩)

theorem effect_openDrag (known : recorder.workspace.ParentsKnown) (block : String)
    (start : SurfacePoint) (groupSize : UInt64) (time : Instant) (parent : Option String)
    (slot : Option Slot) (source : Source) :
    Effect recorder (recorder.openDrag block start groupSize time) id
      ⟨time, .drag block true start groupSize parent slot source⟩ := by
  by_cases here : block = id
  · subst here
    refine .begins ?_ (SortedMap.get?_insert_self _ _ _) rfl
    simp [begins?, Event.dragStart?, parentOf?_eq known, typeOf?]
  · refine .keeps (by simp [Event.dragStart?, here]) ?_ ?_ rfl
    · exact SortedMap.get?_insert_of_ne (Ne.symm here)
    · intro drag _
      simp [Event.Deletes, Event.dragEnd?]

theorem effect_closeDrag (labelled : recorder.Labelled) (block : String) (finish : SurfacePoint)
    (groupSize : UInt64) (parent : Option String) (slot : Option Slot) (source : Source)
    (time : Instant) :
    Effect recorder (recorder.closeDrag block finish parent slot time) id
      ⟨time, .drag block false finish groupSize parent slot source⟩ := by
  have untouched : (∀ drag, recorder.pending.get? block = some drag →
      drag.start.sameAs finish = true) → Effect recorder recorder id
        ⟨time, .drag block false finish groupSize parent slot source⟩ := by
    intro same
    refine .keeps rfl rfl (fun drag found => ⟨not_false, fun place ends => ?_⟩) rfl
    obtain ⟨rfl, rfl⟩ : block = id ∧ finish = place := by simpa [Event.dragEnd?] using ends
    exact same drag found
  simp only [closeDrag]
  split
  next absent => exact untouched (by simp [absent])
  next drag found =>
    split
    next same => exact untouched (by simp [found, same])
    next moved =>
      have own := labelled block drag found
      by_cases here : block = id
      · subst here
        refine .closes rfl found (.inr ⟨finish, by simp [Event.dragEnd?], by simpa using moved⟩)
          (by simp [log, SortedMap.get?_erase]) ?_
        simp [log, Record.closedDrags_log, Interaction.closedDrag?_close own]
      · refine .keeps rfl ?_ ?_ ?_
        · simp [log, SortedMap.get?_erase, Ne.symm here]
        · intro drag _
          simp [Event.Deletes, Event.dragEnd?, here]
        · simp [log, Record.closedDrags_log, Interaction.closedDrag?_close own, here]

theorem effect_delete (labelled : recorder.Labelled) (block : String) (type : Option String)
    (position : SurfacePoint) (groupSize : UInt64) (time : Instant) :
    Effect recorder (recorder.delete block type position groupSize time) id
      ⟨time, .delete block type position groupSize⟩ := by
  simp only [delete]
  split
  next drag found =>
    have own := labelled block drag found
    by_cases here : block = id
    · subst here
      refine .closes rfl found (.inl rfl) (by simp [log, withWorkspace, SortedMap.get?_erase]) ?_
      exact (Record.closedDrags_log _ _ _).trans (by simp [Interaction.closedDrag?_close own])
    · refine .keeps rfl ?_ (fun drag _ => ⟨here, by simp [Event.dragEnd?]⟩) ?_
      · simp [log, withWorkspace, SortedMap.get?_erase, Ne.symm here]
      · refine Record.closedDrags_log_other ?_ _
        simp [Interaction.closedDrag?_close own, here]
  next absent =>
    refine .keeps rfl rfl (fun drag found => ⟨?_, by simp [Event.dragEnd?]⟩) ?_
    · rintro rfl
      simp [absent] at found
    · exact Record.closedDrags_log_other rfl _

theorem Effect.of_other (start : timed.event.dragStart? id = none)
    (finish : timed.event.dragEnd? id = none) (stays : ¬timed.event.Deletes id)
    (pending : after.pending = recorder.pending)
    (logged : after.record.closedDrags id = recorder.record.closedDrags id) :
    Effect recorder after id timed := by
  refine .keeps start (by rw [pending]) (fun drag _ => ⟨stays, ?_⟩) logged
  simp [finish]

theorem Effect.of_begun {time : Instant}
    (effect : Effect (recorder.beginExecution time) after id timed) :
    Effect recorder after id timed := by
  cases effect with
  | begins started opened logged => exact .begins started opened logged
  | closes quiet wasOpen ends closed logged => exact .closes quiet wasOpen ends closed logged
  | keeps quiet same stays logged => exact .keeps quiet same stays logged

theorem effect_handle (labelled : recorder.Labelled) (known : recorder.workspace.ParentsKnown)
    (id : String) (timed : TimedEvent) :
    Effect recorder (recorder.handle timed.event timed.time) id timed := by
  obtain ⟨time, event⟩ := timed
  cases event with
  | create block parent slot source =>
      cases source with
      | toolbox => exact .of_other rfl rfl not_false rfl rfl
      | workspace =>
          simp only [handle, create]
          split
          · exact .of_other rfl rfl not_false rfl rfl
          · exact .of_other rfl rfl not_false rfl (Record.closedDrags_log_other rfl _)
  | fieldChange block type name oldValue newValue source =>
      cases source with
      | toolbox => exact .of_other rfl rfl not_false rfl (Record.closedDrags_log_other rfl _)
      | workspace => exact .of_other rfl rfl not_false rfl (Record.closedDrags_log_other rfl _)
  | drag block isStart position groupSize parent slot source =>
      cases isStart with
      | true =>
          have begun : (recorder.beginExecution time).workspace.ParentsKnown := known
          exact (effect_openDrag begun block position groupSize time parent slot source).of_begun
      | false =>
          have begun : (recorder.beginExecution time).Labelled := labelled
          exact (effect_closeDrag begun block position groupSize parent slot source time).of_begun
  | delete block type position groupSize =>
      exact effect_delete labelled block type position groupSize time
  | move block oldParent oldSlot newParent newSlot source =>
      cases source with
      | toolbox => exact .of_other rfl rfl not_false rfl rfl
      | workspace => exact .of_other rfl rfl not_false rfl rfl
  | loadFinished => exact .of_other rfl rfl not_false rfl rfl

theorem Labelled.handle (labelled : recorder.Labelled) (known : recorder.workspace.ParentsKnown)
    (timed : TimedEvent) : (recorder.handle timed.event timed.time).Labelled := by
  intro id drag found
  cases effect_handle labelled known id timed with
  | begins started opened =>
      obtain ⟨start, -, rfl⟩ := Option.map_eq_some_iff.1 started
      obtain rfl := Option.some.inj (opened.symm.trans found)
      rfl
  | closes _ _ _ closed => simp [closed] at found
  | keeps _ same => exact labelled id drag (same ▸ found)

/-- The open drags of a block and its drags in the log, as the events tell. -/
structure Paired (recorder : Recorder) (id : String) (events : List TimedEvent) : Prop where
  open_iff : ((recorder.handleAll events).pending.get? id).isSome = true ↔
    recorder.LeftOpen id events
  latest : ∀ drag, (recorder.handleAll events).pending.get? id = some drag →
    (recorder.begun id events).getLast? = some drag
  once : ((recorder.handleAll events).record.closedDrags id ++
    ((recorder.handleAll events).pending.get? id).toList).Sublist (recorder.begun id events)

theorem Paired.concat (paired : recorder.Paired id events)
    (effect : Effect (recorder.handleAll events) (recorder.handleAll (events ++ [timed])) id
      timed) :
    recorder.Paired id (events ++ [timed]) := by
  obtain ⟨open_iff, latest, once⟩ := paired
  cases effect with
  | @begins drag started opened logged =>
      have begins : Begins id timed.event := by
        obtain ⟨start, found, -⟩ := Option.map_eq_some_iff.1 started
        exact ⟨start, found⟩
      refine ⟨?_, ?_, ?_⟩
      · simp [opened, leftOpen_concat, begins]
      · intro other found
        simpa [begun_concat, started, opened] using found
      · rw [logged, opened, begun_concat, started]
        exact ((List.sublist_append_left _ _).trans once).append (.refl _)
  | @closes drag quiet wasOpen ends closed logged =>
      have added : (recorder.handleAll events).begins? id timed = none := by simp [begins?, quiet]
      have closes : recorder.Closes id events timed.event := by
        rcases ends with deleted | ⟨finish, ends, moved⟩
        · exact .inl deleted
        · exact .inr ⟨finish, drag, ends, latest drag wasOpen, moved⟩
      refine ⟨?_, by simp [closed], ?_⟩
      · simp [closed, leftOpen_concat, Begins, quiet, closes]
      · rw [wasOpen] at once
        simpa [logged, closed, begun_concat, added] using once
  | keeps quiet same stays logged =>
      have added : (recorder.handleAll events).begins? id timed = none := by simp [begins?, quiet]
      have begun : recorder.begun id (events ++ [timed]) = recorder.begun id events := by
        simp [begun_concat, added]
      refine ⟨?_, ?_, ?_⟩
      · rw [same, open_iff, leftOpen_concat]
        constructor
        · intro left
          obtain ⟨drag, found⟩ := Option.isSome_iff_exists.1 (open_iff.2 left)
          obtain ⟨kept, unmoved⟩ := stays drag found
          refine .inr ⟨left, ?_⟩
          rintro (deleted | ⟨finish, last, ends, isLast, moved⟩)
          · exact kept deleted
          · obtain rfl := Option.some.inj (isLast.symm.trans (latest drag found))
            simp [unmoved finish ends] at moved
        · rintro (⟨start, begins⟩ | ⟨left, -⟩)
          · simp [quiet] at begins
          · exact left
      · rw [same, begun]
        exact latest
      · rw [logged, same, begun]
        exact once

theorem edited_handleAll (edited : Workspace.Edited recorder.workspace)
    (events : List TimedEvent) : Workspace.Edited (recorder.handleAll events).workspace := by
  induction events generalizing recorder with
  | nil => exact edited
  | cons first rest ih =>
      refine ih ?_
      rw [workspace_handle]
      exact edited.follow first.event

theorem paired_handleAll (idealBlocks : UInt32) (id : String) (events : List TimedEvent) :
    (start idealBlocks).Paired id events ∧ ((start idealBlocks).handleAll events).Labelled := by
  induction events using List.reverseRecOn with
  | nil =>
      have none : (start idealBlocks).pending.get? id = none := rfl
      refine ⟨⟨?_, by simp [handleAll, none], .refl _⟩, fun other drag found => ?_⟩
      · simp [handleAll, none, LeftOpen, Happens]
      · cases found
  | append_singleton events timed ih =>
      obtain ⟨paired, labelled⟩ := ih
      have known := (@edited_handleAll (start idealBlocks) .empty events).parentsKnown
      rw [handleAll_concat]
      refine ⟨paired.concat ?_, labelled.handle known timed⟩
      rw [handleAll_concat]
      exact effect_handle labelled known id timed

/-- What the end of a drag and a deletion write into the log: at most one action, and a record of
the open drag if they close it. -/
structure Answers (recorder : Recorder) (id : String) : Prop where
  moved : ∀ {drag finish}, recorder.pending.get? id = some drag →
    drag.start.sameAs finish = false → ∀ time groupSize parent slot source,
      ∃ connectedTo place outcome,
        (recorder.handle (.drag id false finish groupSize parent slot source) time).record.actions =
          recorder.record.actions ++ [.drag (drag.close finish time connectedTo place outcome)]
  stayed : ∀ {finish}, (∀ drag, recorder.pending.get? id = some drag →
    drag.start.sameAs finish = true) → ∀ time groupSize parent slot source,
      (recorder.handle (.drag id false finish groupSize parent slot source) time).record.actions =
        recorder.record.actions
  deleted : ∀ {drag}, recorder.pending.get? id = some drag → ∀ time type position groupSize,
    (recorder.handle (.delete id type position groupSize) time).record.actions =
      recorder.record.actions ++ [.drag (drag.close position time none none .deleted)]
  deleted_alone : recorder.pending.get? id = none → ∀ time type position groupSize,
    (recorder.handle (.delete id type position groupSize) time).record.actions =
      recorder.record.actions ++ [.delete id ((recorder.typeOf? id).or type) groupSize time]

theorem answers (recorder : Recorder) (id : String) : recorder.Answers id where
  moved {drag finish} found moved time groupSize parent slot source := by
    have begun : (recorder.beginExecution time).pending.get? id = some drag := found
    simp only [handle, Bool.false_eq_true, ↓reduceIte, closeDrag, begun, moved]
    exact ⟨_, _, _, rfl⟩
  stayed {finish} same time groupSize parent slot source := by
    simp only [handle, Bool.false_eq_true, ↓reduceIte, closeDrag]
    split
    next => rfl
    next drag found =>
      rw [if_pos (same drag found)]
      rfl
  deleted {drag} found time type position groupSize := by
    simp only [handle, delete, found]
    rfl
  deleted_alone absent time type position groupSize := by
    simp only [handle, delete, absent]
    rfl

/-- Whatever events a new recorder has handled, a drag of a block is open exactly when one began
that no later event closed, and it is the latest. The end of the drag elsewhere and the deletion of
the block write one record of the open drag; so the records, and the open drag behind them, are
drags that began, each answered once. -/
theorem drags_paired (idealBlocks : UInt32) (events : List TimedEvent) (id : String) :
    (start idealBlocks).Paired id events ∧ ((start idealBlocks).handleAll events).Answers id :=
  ⟨(paired_handleAll idealBlocks id events).1, answers _ id⟩

end Recorder

end RobotPuzzle
