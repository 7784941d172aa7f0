import RobotPuzzle.Session.Record

/-!
The recorder keeps the workspace in step with the editor's events and writes the session record.
The first interaction with the workspace, or the first click on execute, ends planning.
-/

namespace RobotPuzzle

structure Recorder where
  workspace : Workspace
  record : Record
  pending : SortedMap String PendingDrag

namespace Recorder

def start (idealBlocks : UInt32) : Recorder := ⟨.empty, .start idealBlocks, ∅⟩

def withWorkspace (recorder : Recorder) (workspace : Workspace) : Recorder :=
  { recorder with workspace, record := { recorder.record with usedBlocks := workspace.usedCount } }

def log (recorder : Recorder) (interaction : Interaction) : Recorder :=
  { recorder with record := recorder.record.log interaction }

/-- Puts a program into the workspace that the user did not build. -/
def seed (recorder : Recorder) (program : BlockSpec) : Recorder :=
  recorder.withWorkspace (recorder.workspace.insert program none)

/-- Begins planning. Only the first call counts. -/
def beginPlanning (recorder : Recorder) (time : Instant) : Recorder :=
  { recorder with
    record :=
      { recorder.record with planningStart := recorder.record.planningStart.or (some time) } }

def beginExecution (recorder : Recorder) (time : Instant) : Recorder :=
  { recorder with
    record :=
      { recorder.record with executionStart := recorder.record.executionStart.or (some time) } }

/-- Ends the exercise; a later end takes the place of an earlier one. -/
def finish (recorder : Recorder) (time : Instant) : Recorder :=
  { recorder with record := { recorder.record with executionEnd := some time } }

def typeOf? (recorder : Recorder) (id : String) : Option String :=
  (recorder.workspace.find? id).map (·.type)

def parentOf? (recorder : Recorder) (id : String) : Option String :=
  ((recorder.workspace.find? id).bind (·.parent)).filter recorder.workspace.contains

/-- A place in a slot, which is the next slot unless another is named. -/
def place? (parent : Option String) (slot : Option Slot) : Option (String × Slot) :=
  parent.map fun parent => (parent, slot.getD .next)

/-- A new tree of blocks. An entry block leaves no mark in the log; other blocks do, with their
shape if they are not alone. -/
def create (recorder : Recorder) (block : BlockSpec) (place : Option (String × Slot))
    (time : Instant) : Recorder :=
  let recorder := recorder.withWorkspace (recorder.workspace.insert block place)
  if Kind.ofType block.type = .start then recorder
  else
    let shape :=
      if block.children.isEmpty then none
      else (recorder.workspace.shape? block.id).map Fingerprint.ofShape
    recorder.log (.create block.id block.type time shape)

def openDrag (recorder : Recorder) (id : String) (start : SurfacePoint) (groupSize : UInt64)
    (time : Instant) : Recorder :=
  let pending : PendingDrag :=
    { block := id
      type := recorder.typeOf? id
      groupSize
      start
      startedAt := time
      priorParent := recorder.parentOf? id }
  { recorder with pending := recorder.pending.insert id pending }

/-- Where a block was dropped: where the event says, and otherwise where the workspace has it. -/
def dropPlace (recorder : Recorder) (id : String) (parent : Option String) (slot : Option Slot) :
    Option (String × Slot) :=
  match parent with
  | some parent => some (parent, slot.getD .next)
  | none =>
    (recorder.parentOf? id).map fun parent =>
      (parent, (recorder.workspace.slotOf? parent id).getD .next)

/-- Closes the open drag of a block. A drag that ends where it began stays open. -/
def closeDrag (recorder : Recorder) (id : String) (finish : SurfacePoint) (parent : Option String)
    (slot : Option Slot) (time : Instant) : Recorder :=
  match recorder.pending.get? id with
  | none => recorder
  | some pending =>
    if pending.start.sameAs finish then recorder
    else
      let place := recorder.dropPlace id parent slot
      let outcome := DragOutcome.classify pending.priorParent (place.map (·.1))
      let closed := pending.close finish time (place.map (·.1)) (place.map (·.2)) outcome
      { recorder with pending := recorder.pending.erase id }.log (.drag closed)

/-- A deletion closes the drag of the block or is logged as one of its own. -/
def delete (recorder : Recorder) (id : String) (type : Option String) (position : SurfacePoint)
    (groupSize : UInt64) (time : Instant) : Recorder :=
  let logged :=
    match recorder.pending.get? id with
    | some pending =>
      { recorder with pending := recorder.pending.erase id }.log
        (.drag (pending.close position time none none .deleted))
    | none => recorder.log (.delete id ((recorder.typeOf? id).or type) groupSize time)
  logged.withWorkspace (logged.workspace.delete id)

def handle (recorder : Recorder) (event : Event) (time : Instant) : Recorder :=
  match event with
  | .create block parent slot source =>
    match source with
    | .toolbox => recorder
    | .workspace => (recorder.beginExecution time).create block (place? parent slot) time
  | .fieldChange block type name oldValue newValue source =>
    let recorder := recorder.beginExecution time
    let recorder :=
      match source with
      | .toolbox => recorder
      | .workspace =>
        { recorder with workspace := recorder.workspace.setField block name newValue }
    recorder.log
      (.field block ((recorder.typeOf? block).or type) (source == .toolbox) name oldValue newValue
        time)
  | .drag block isStart position groupSize parent slot _ =>
    let recorder := recorder.beginExecution time
    if isStart then recorder.openDrag block position groupSize time
    else recorder.closeDrag block position parent slot time
  | .delete block type position groupSize => recorder.delete block type position groupSize time
  | .move block oldParent oldSlot newParent newSlot source =>
    match source with
    | .toolbox => recorder
    | .workspace =>
      recorder.withWorkspace
        (recorder.workspace.reparent block (place? oldParent oldSlot) (place? newParent newSlot))
  | .loadFinished => recorder

def program (recorder : Recorder) : ProgramShape := recorder.workspace.programShape

def fingerprint (recorder : Recorder) : String :=
  (recorder.program.main.map Shape.fingerprint).getD ""

def book (recorder : Recorder) (success : Bool) (time : Instant) : Recorder :=
  { recorder with record := recorder.record.book recorder.program success time }

end Recorder

end RobotPuzzle
