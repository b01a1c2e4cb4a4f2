import AccessPolicy.Rule.Kind

/-!
New rules and the changes that an author makes to them.
-/
namespace AccessPolicy.Rule

/-- An enabled rule without content, made at an instant. -/
def blank (tenant : TenantId) (service ptype : String) (now : Instant) : Rule where
  id := .unassigned
  tenant := tenant
  service := service
  ptype := ptype
  v0 := ""
  v1 := ""
  v2 := ""
  v3 := ""
  v4 := ""
  v5 := ""
  status := .enabled
  category := none
  description := none
  tags := []
  metadata := .null
  usageCount := 0
  lastUsedAt := none
  requireApproval := false
  approvalStatus := .pending
  approvedBy := none
  approvedAt := none
  effectiveFrom := none
  effectiveTo := none
  isTemporary := false
  createdAt := now
  updatedAt := now

def ofPermission (tenant : TenantId) (service : String) (permission : Permission)
    (now : Instant) : Rule :=
  { blank tenant service "p" now with
    v0 := permission.subject
    v1 := permission.object
    v2 := permission.action
    v3 := permission.effect.text }

def ofGrouping (tenant : TenantId) (service : String) (relation member group : String)
    (now : Instant) : Rule :=
  { blank tenant service relation now with
    v0 := member
    v1 := group }

/-- A rule of no effect until it is approved. -/
def requiringApproval (rule : Rule) : Rule :=
  { rule with
    requireApproval := true
    approvalStatus := .pending }

def decided (rule : Rule) (status : ApprovalStatus) (approver : String) (now : Instant) : Rule :=
  { rule with
    approvalStatus := status
    approvedBy := some approver
    approvedAt := some now
    updatedAt := now }

def approve (rule : Rule) (approver : String) (now : Instant) : Rule :=
  rule.decided .approved approver now

def reject (rule : Rule) (approver : String) (now : Instant) : Rule :=
  rule.decided .rejected approver now

def effectiveBetween (rule : Rule) (first last : Option Instant) : Rule :=
  { rule with
    effectiveFrom := first
    effectiveTo := last }

/-- A rule that the expiry sweep disables once its window has closed. -/
def temporaryUntil (rule : Rule) (last : Instant) : Rule :=
  { rule with
    isTemporary := true
    effectiveTo := some last }

end AccessPolicy.Rule
