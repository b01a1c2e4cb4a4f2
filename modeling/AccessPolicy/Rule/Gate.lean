import AccessPolicy.Rule

/-!
When a rule counts: it is enabled, approved where approval is required, and the instant lies in its
window, both ends included.
-/
namespace AccessPolicy

inductive Inactivity where
  | disabled
  | awaitingApproval
  | rejected
  | notYetEffective
  | expired
deriving DecidableEq, Repr

def Inactivity.text : Inactivity → String
  | .disabled => "disabled"
  | .awaitingApproval => "awaiting_approval"
  | .rejected => "rejected"
  | .notYetEffective => "not_yet_effective"
  | .expired => "expired"

namespace Rule

/-- Enabled, and approved where approval is required. -/
def isEligible (rule : Rule) : Bool :=
  rule.status = .enabled && (!rule.requireApproval || rule.approvalStatus = .approved)

def isBeforeWindow (rule : Rule) (now : Instant) : Bool :=
  rule.effectiveFrom.any (fun first => now < first)

def isAfterWindow (rule : Rule) (now : Instant) : Bool :=
  rule.effectiveTo.any (fun last => last < now)

/-- The first reason, in this order, for which a rule does not count. -/
def inactivity (rule : Rule) (now : Instant) : Option Inactivity :=
  if rule.status = .disabled then some .disabled
  else if rule.requireApproval ∧ rule.approvalStatus = .pending then some .awaitingApproval
  else if rule.requireApproval ∧ rule.approvalStatus = .rejected then some .rejected
  else if rule.isBeforeWindow now then some .notYetEffective
  else if rule.isAfterWindow now then some .expired
  else none

def isActive (rule : Rule) (now : Instant) : Bool :=
  (rule.inactivity now).isNone

/-- A temporary rule that is still enabled after its window. -/
def isLapsed (rule : Rule) (now : Instant) : Bool :=
  rule.isTemporary && rule.status = .enabled && rule.isAfterWindow now

theorem isActive_iff (rule : Rule) (now : Instant) : rule.isActive now ↔
    rule.isEligible ∧ ¬ rule.isBeforeWindow now ∧ ¬ rule.isAfterWindow now := by
  unfold isActive inactivity isEligible
  cases rule.status <;> cases rule.requireApproval <;> cases rule.approvalStatus <;>
    cases rule.isBeforeWindow now <;> cases rule.isAfterWindow now <;> simp

end Rule

/-- The calendar ended: an instant after its last one was needed. -/
structure CalendarEnd where
deriving DecidableEq, Repr

namespace Rule

/-- The first instant after now at which the window of an eligible rule opens, or just after its
last instant; the calendar must have the instant after the window. -/
def transition (rule : Rule) (now : Instant) : Except CalendarEnd (Option Instant) :=
  if rule.isEligible then
    let opening := rule.effectiveFrom.filter (fun first => now < first)
    match rule.effectiveTo with
    | none => .ok opening
    | some last =>
      match last.next? with
      | none => .error ⟨⟩
      | some closing =>
        .ok (Instant.earlier? opening (if now < closing then some closing else none))
  else .ok none

end Rule

/-- The first instant after now at which any of the rules may start or stop to count. -/
def nextTransition (rules : List Rule) (now : Instant) : Except CalendarEnd (Option Instant) :=
  match rules with
  | [] => .ok none
  | rule :: rest =>
    match rule.transition now, nextTransition rest now with
    | .ok one, .ok other => .ok (Instant.earlier? one other)
    | .error stop, _ => .error stop
    | _, .error stop => .error stop

end AccessPolicy
