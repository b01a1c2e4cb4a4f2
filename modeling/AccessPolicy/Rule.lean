import AccessPolicy.Identifier
import AccessPolicy.Instant
import AccessPolicy.Json

/-!
Stored rules. A rule is a row: a type name and positional fields that `Rule.kind` reads, the states
that gate it, and bookkeeping.
-/
namespace AccessPolicy

inductive Effect where
  | allow
  | deny
deriving DecidableEq, Repr

inductive RuleStatus where
  | enabled
  | disabled
deriving DecidableEq, Repr

inductive ApprovalStatus where
  | pending
  | approved
  | rejected
deriving DecidableEq, Repr

inductive RuleError where
  | badEffect (text : String)
  | unknownStatus (text : String)
  | unknownApproval (text : String)
  | unknownKind (ptype : String)
  | approvalNotRequired (id : RuleId)
deriving DecidableEq, Repr

namespace RuleError

def reason : RuleError → String
  | .badEffect text => "effect must be \"allow\" or \"deny\", got \"" ++ text ++ "\""
  | .unknownStatus text => "unknown rule status \"" ++ text ++ "\""
  | .unknownApproval text => "unknown approval status \"" ++ text ++ "\""
  | .unknownKind ptype => "unknown rule kind \"" ++ ptype ++ "\""
  | .approvalNotRequired id => "rule " ++ id.text ++ " does not require approval"

def message (error : RuleError) : String :=
  "validation failed: " ++ error.reason

end RuleError

namespace Effect

def text : Effect → String
  | .allow => "allow"
  | .deny => "deny"

def ofText (text : String) : Except RuleError Effect :=
  if text = "allow" then .ok .allow
  else if text = "deny" then .ok .deny
  else .error (.badEffect text)

end Effect

namespace RuleStatus

def text : RuleStatus → String
  | .enabled => "enabled"
  | .disabled => "disabled"

def ofText (text : String) : Except RuleError RuleStatus :=
  if text = "enabled" then .ok .enabled
  else if text = "disabled" then .ok .disabled
  else .error (.unknownStatus text)

end RuleStatus

namespace ApprovalStatus

def text : ApprovalStatus → String
  | .pending => "pending"
  | .approved => "approved"
  | .rejected => "rejected"

def ofText (text : String) : Except RuleError ApprovalStatus :=
  if text = "pending" then .ok .pending
  else if text = "approved" then .ok .approved
  else if text = "rejected" then .ok .rejected
  else .error (.unknownApproval text)

end ApprovalStatus

structure Rule where
  id : RuleId
  tenant : TenantId
  service : String
  ptype : String
  v0 : String
  v1 : String
  v2 : String
  v3 : String
  v4 : String
  v5 : String
  status : RuleStatus
  category : Option String
  description : Option String
  tags : List String
  metadata : Json
  usageCount : UInt64
  lastUsedAt : Option Instant
  requireApproval : Bool
  approvalStatus : ApprovalStatus
  approvedBy : Option String
  approvedAt : Option Instant
  effectiveFrom : Option Instant
  effectiveTo : Option Instant
  isTemporary : Bool
  createdAt : Instant
  updatedAt : Instant

end AccessPolicy
