import Linkage.Event
import Linkage.Failure

/-!
Runs: computations that report events on their way and may stop with a failure. The events reported
up to then are kept.
-/

namespace Linkage

/-- A computation that reports events and may stop. -/
abbrev Run := EStateM Failure (List Event)

instance : MonadLift (Except Failure) Run where
  monadLift result := match result with
    | .ok value => pure value
    | .error failure => throw failure

def note (event : Event) : Run Unit := modify (· ++ [event])

end Linkage
