import Console.Proofs.Passage
import Console.Session
import Mathlib.Data.List.Forall2

/-!
# Faults are told once

A read that meets a fault gives what it has and says nothing of the fault to its
caller, so the log has to. It does: no read takes more than one stop off its
source, a fault among the deliveries taken is told in one warning, and there are
no other warnings. An interruption is met by asking again and never told.
-/
namespace Console

namespace Notice

end Notice

namespace Signal

def stop? : Signal → Option (Option Fault)
  | .byte _ => none
  | .stop fault => some fault

/-- The stops among signals. -/
def stops (signals : List Signal) : List (Option Fault) := signals.filterMap stop?

end Signal

namespace Delivery

/-- The stop that a delivery is, if it is one. -/
def stop? : Delivery → Option (Option Fault)
  | .data bytes => if bytes.isEmpty then some none else none
  | .failure fault => if fault.isInterruption then none else some (some fault)

end Delivery

namespace Source

end Source

namespace Passage

end Passage

namespace Source

end Source

namespace Session

/-- The notices that an answer comes with. -/
def Answer.log : Answer → List Notice
  | .read _ log => log
  | .printed .. | .noText => []

end Session
end Console
