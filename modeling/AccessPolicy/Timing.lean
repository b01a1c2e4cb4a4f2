import AccessPolicy.Act
import AccessPolicy.Identifier
import AccessPolicy.Table

/-!
The time that one call takes, in milliseconds from its start. Checks of one call may overlap, but
the evaluator of a tenant is built by one of them at a time.
-/
namespace AccessPolicy

structure Timing where
  /-- How long the running check has gone on since the call began. -/
  elapsed : Nat
  /-- When the running check has to end, if it has a deadline. -/
  deadline : Option Nat
  /-- The last moment of the call, if it is known to end early. -/
  last : Option Nat
  /-- Until when the evaluator of a tenant is being built. -/
  builds : Table TenantId Nat
deriving DecidableEq, Repr

namespace Timing

def start : Timing :=
  ⟨0, none, none, []⟩

/-- Goes on to a moment. A deadline before it halts the check there, and a call that ended before
that takes the check with it. -/
def goTo (timing : Timing) (moment : Nat) : Option Halt × Timing :=
  let reached := (timing.deadline.filter (· < moment)).getD moment
  (if timing.last.any (· < reached) then some .abandoned
    else if reached < moment then some .deadline
    else none,
    { timing with elapsed := reached })

def isOver (timing : Timing) : Bool :=
  timing.deadline == some timing.elapsed

/-- The next moment at which the tenant's evaluator is not being built. -/
def afterBuild (timing : Timing) (tenant : TenantId) : Nat :=
  max timing.elapsed ((timing.builds.get? tenant).getD 0)

/-- A build of the tenant's evaluator has ended now. -/
def endBuild (timing : Timing) (tenant : TenantId) : Timing :=
  { timing with builds := timing.builds.put tenant timing.elapsed }

end Timing

end AccessPolicy
