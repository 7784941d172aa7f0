import RobotPuzzle.Format.Script
import RobotPuzzle.Main
import RobotPuzzle.Proofs.Format.Program
import RobotPuzzle.Proofs.Script.Ceiling
import RobotPuzzle.Proofs.Script.Chronicle
import RobotPuzzle.Proofs.Script.Replay
import RobotPuzzle.Proofs.Script.Unrolled
import RobotPuzzle.Proofs.Script.Verdict
import RobotPuzzle.Proofs.Session.Attempts
import RobotPuzzle.Proofs.Session.Clock
import RobotPuzzle.Proofs.Session.Creation
import RobotPuzzle.Proofs.Session.DragRecords
import RobotPuzzle.Proofs.Session.Drags
import RobotPuzzle.Proofs.Session.Influence
import RobotPuzzle.Proofs.Session.Partition
import RobotPuzzle.Proofs.Session.Snapshot
import RobotPuzzle.Proofs.Session.UsedBlocks
import RobotPuzzle.Proofs.Workspace.Assembly
import RobotPuzzle.Proofs.Workspace.Behaviour
import RobotPuzzle.Proofs.Workspace.Census
import RobotPuzzle.Proofs.Workspace.Connection
import RobotPuzzle.Proofs.Workspace.Dependence
import RobotPuzzle.Proofs.Workspace.Detached
import RobotPuzzle.Proofs.Workspace.Displacement
import RobotPuzzle.Proofs.Workspace.Footprint
import RobotPuzzle.Proofs.Workspace.LoopCount
import RobotPuzzle.Proofs.Workspace.Origins
import RobotPuzzle.Proofs.Workspace.Preorder
import RobotPuzzle.Proofs.Workspace.Recursions
import RobotPuzzle.Proofs.Workspace.Revival
import RobotPuzzle.Proofs.Workspace.Structure
import RobotPuzzle.Proofs.Workspace.Undo
import RobotPuzzle.Proofs.Workspace.Usage
import RobotPuzzle.Proofs.World.Codes
import RobotPuzzle.Proofs.World.Retreat
import RobotPuzzle.Proofs.World.Trail
import RobotPuzzle.Proofs.World.Validation
