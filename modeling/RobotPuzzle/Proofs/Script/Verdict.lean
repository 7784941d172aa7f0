import Mathlib.Algebra.Order.BigOperators.Group.List
import Mathlib.Algebra.Order.Group.Nat
import RobotPuzzle.Proofs.Script.Unrolled
import RobotPuzzle.Proofs.World.Actions
import RobotPuzzle.Proofs.World.Conservation
import RobotPuzzle.Proofs.World.Grid

/-!
The verdict of a run that came to its end can be read off the last log entry and the world at the
end: no earlier goal, no empty loop and no later pick leaves a stale success behind.
-/

namespace RobotPuzzle

namespace World

end World

namespace Ledger

end Ledger

namespace Attempt

end Attempt

end RobotPuzzle
