import RobotPuzzle.Script.Basic
import RobotPuzzle.Text.Blank
import RobotPuzzle.Text.Numeral
import RobotPuzzle.Workspace.Walk

/-!
Compiling a workspace: the chains of next blocks below the live entries, one after the other. A
block gives an instruction only if the way up from it leads to an entry; a chain ends at a block
that is not live or has been reached before.
-/

namespace RobotPuzzle

inductive CompileError
  | noEntry
deriving DecidableEq, Repr

def CompileError.message : CompileError → String
  | .noEntry => s!"no live '{entryType}' entry block in the workspace"

/-- The number of rounds of a loop block: its field as a numeral between blanks, else none. -/
def Block.loopCount (block : Block) : UInt32 :=
  match block.fields.get? timesField with
  | none => 0
  | some text => ((Text.numeral? UInt32.size (Text.trim text.toList)).getD 0).toUInt32

def Kind.action? : Kind → Option Action
  | .forward => some (.move .forward)
  | .backward => some (.move .backward)
  | .jumpForward => some (.move .jumpForward)
  | .turnLeft => some (.move .turnLeft)
  | .turnRight => some (.move .turnRight)
  | .pick => some .pick
  | .putDown => some .putDown
  | .start | .loop | .other => none

namespace Workspace

def compileSlot (chain : List String → String → Script × List String) (seen : List String) :
    Option String → Script × List String
  | none => ([], seen)
  | some id => chain seen id

def compileBlock (workspace : Workspace) (chain : List String → String → Script × List String)
    (seen : List String) (block : Block) : Script × List String :=
  if !workspace.isConnected block.id then ([], seen)
  else if block.kind = .loop then
    let (body, seen) := compileSlot chain seen (block.children.get? .doBody)
    ([.loop block.loopCount body block.id], seen)
  else
    match block.kind.action? with
    | none => ([], seen)
    | some action => ([.act action block.id], seen)

/-- The instructions of a chain and the ids seen after it. Each level has seen one block more than
the level above it, so a depth of the number of blocks is never used up. -/
def compileChain (workspace : Workspace) : Nat → List String → String → Script × List String
  | 0, seen, _ => ([], seen)
  | depth + 1, seen, id =>
    match workspace.live? id with
    | none => ([], seen)
    | some block =>
      if id ∈ seen then ([], seen)
      else
        let (own, seen) := workspace.compileBlock (workspace.compileChain depth) (id :: seen) block
        let (rest, seen) :=
          compileSlot (workspace.compileChain depth) seen (block.children.get? .next)
        (own ++ rest, seen)

def compileEntries (workspace : Workspace) (seen : List String) : List Block → Script
  | [] => []
  | entry :: rest =>
    let (script, seen) :=
      compileSlot (workspace.compileChain workspace.blocks.length) (entry.id :: seen)
        (entry.children.get? .next)
    script ++ workspace.compileEntries seen rest

def compile (workspace : Workspace) : Except CompileError Script :=
  match workspace.entries with
  | [] => .error .noEntry
  | entries => .ok (workspace.compileEntries [] entries)

end Workspace

end RobotPuzzle
