import AccessPolicy.Identifier
import AccessPolicy.Instant
import AccessPolicy.Uuid

/-!
Changes of a tenant's rules, as one engine announces them to the others.
-/
namespace AccessPolicy

inductive ChangeReason where
  | ruleCreated
  | ruleUpdated
  | rulesDeleted
  | ruleApproved
  | ruleRejected
  | rulesExpired
  | forceSync
  | other (detail : String)
deriving DecidableEq, Repr

namespace ChangeReason

/-- The name of a reason without its detail. -/
def name : ChangeReason → String
  | .ruleCreated => "rule_created"
  | .ruleUpdated => "rule_updated"
  | .rulesDeleted => "rules_deleted"
  | .ruleApproved => "rule_approved"
  | .ruleRejected => "rule_rejected"
  | .rulesExpired => "rules_expired"
  | .forceSync => "force_sync"
  | .other _ => "other"

def text : ChangeReason → String
  | .other detail => "other:" ++ detail
  | reason => reason.name

def plain : List ChangeReason :=
  [.ruleCreated, .ruleUpdated, .rulesDeleted, .ruleApproved, .ruleRejected, .rulesExpired,
    .forceSync]

end ChangeReason

/-- What is announced; without a tenant it concerns all of them. -/
structure Change where
  origin : Uuid
  tenant : Option TenantId
  reason : ChangeReason
deriving DecidableEq

/-- A change on its way between processes. -/
structure ChangeEvent where
  eventId : Uuid
  change : Change
  occurredAt : Instant
deriving DecidableEq

end AccessPolicy
