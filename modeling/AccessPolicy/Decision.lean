import AccessPolicy.CacheKey
import AccessPolicy.Instant
import AccessPolicy.Json

/-!
Requests to decide and decisions.
-/
namespace AccessPolicy

/-- May `subject` do `action` on `object`? -/
structure CheckRequest where
  tenant : TenantId
  service : String
  subject : String
  object : String
  action : String
  /-- Roles that the caller's credentials assert, as opposed to stored memberships. -/
  callerRoles : List String
  /-- Free-form attributes for enrichers. -/
  context : Table String String
deriving DecidableEq, Repr

inductive RequestField where
  | service
  | subject
  | object
  | action
deriving DecidableEq, Repr

def RequestField.text : RequestField → String
  | .service => "service"
  | .subject => "subject"
  | .object => "object"
  | .action => "action"

namespace CheckRequest

def about (request : CheckRequest) : DecisionSubject :=
  ⟨request.tenant, request.service, request.subject, request.object, request.action⟩

/-- The same question on behalf of another subject, without the caller's roles. -/
def asSubject (request : CheckRequest) (subject : String) : CheckRequest :=
  { request with
    subject := subject
    callerRoles := [] }

def missingField? (request : CheckRequest) : Option RequestField :=
  if Text.isBlankText request.service then some .service
  else if Text.isBlankText request.subject then some .subject
  else if Text.isBlankText request.object then some .object
  else if Text.isBlankText request.action then some .action
  else none

end CheckRequest

structure CheckOptions where
  useCache : Bool := true
  audit : Bool := false
  /-- Milliseconds after which the answer is a deny. -/
  deadline : Option Nat := none
deriving DecidableEq, Repr

structure Decision where
  allowed : Bool
  reason : String
  /-- The deciding rules, and the granting role of a decision found through one. -/
  appliedRules : List String
  dataFilters : Table String Json
  fieldMasks : List String
  durationMs : UInt64
  fromCache : Bool
  explicitDeny : Bool
  grantedVia : Option String

namespace Decision

def plain (allowed : Bool) (reason : String) : Decision where
  allowed := allowed
  reason := reason
  appliedRules := []
  dataFilters := []
  fieldMasks := []
  durationMs := 0
  fromCache := false
  explicitDeny := false
  grantedVia := none

def allow (reason : String) : Decision := plain true reason

def deny (reason : String) : Decision := plain false reason

end Decision

/-- A function that adds row filters and field masks to a fresh decision. -/
abbrev Enricher : Type := CheckRequest → Decision → Decision

/-- Masks fields of an allowed decision, copies the request's context into the row filters and
limits the rows to those that the subject owns. -/
def Enricher.masking (masks : List String) : Enricher := fun request decision =>
  if decision.allowed then
    { decision with
      fieldMasks := decision.fieldMasks ++ masks
      dataFilters := (request.context.foldl (fun filters entry =>
        filters.put entry.1 (.str entry.2)) decision.dataFilters).put "owner"
          (.str request.subject) }
  else decision

structure AuditRecord where
  tenant : TenantId
  service : String
  subject : String
  object : String
  action : String
  allowed : Bool
  reason : String
  appliedRules : List String
  fromCache : Bool
  recordedAt : Instant
deriving DecidableEq

def AuditRecord.of (request : CheckRequest) (decision : Decision) (now : Instant) :
    AuditRecord where
  tenant := request.tenant
  service := request.service
  subject := request.subject
  object := request.object
  action := request.action
  allowed := decision.allowed
  reason := decision.reason
  appliedRules := decision.appliedRules
  fromCache := decision.fromCache
  recordedAt := now

end AccessPolicy
