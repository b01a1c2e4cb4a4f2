import AccessPolicy.Engine.Evaluators
import AccessPolicy.Principal

/-!
Deciding requests. A request with a blank field is refused; a caller with the superadmin role is
allowed; then the cache answers, and then the tenant's evaluator. What goes wrong ends in a deny.
-/
namespace AccessPolicy

inductive CheckError where
  | invalidRequest (field : RequestField)
  | evaluator (fault : EvaluatorError)
  /-- A check of a batch halted. -/
  | task
deriving DecidableEq, Repr

def CheckError.message : CheckError → String
  | .invalidRequest field => "invalid check request: " ++ field.text ++ " must not be empty"
  | .evaluator fault => fault.message
  | .task => "check task failed: task panicked"

namespace Reason

def allowed : String := "allowed by policy"

def denied : String := "denied by policy"

def noMatch : String := "no matching policy"

def superadmin : String := "superadmin bypass"

def deadline : String := "deadline exceeded"

def viaRole (role : String) : String := "allowed via role " ++ role

def taskFailed : String := "check task failed"

end Reason

def Decision.ofEvaluation (evaluation : Evaluation) : Decision :=
  let plain :=
    if evaluation.allowed then Decision.allow Reason.allowed
    else if evaluation.explicitDeny then Decision.deny Reason.denied
    else Decision.deny Reason.noMatch
  { plain with
    appliedRules := evaluation.matchedRules.map RuleId.text
    explicitDeny := evaluation.explicitDeny
    grantedVia := evaluation.grantedVia }

namespace Engine

variable {ε : Type}

def isSuperadmin (engine : Engine) (request : CheckRequest) : Bool :=
  request.callerRoles.contains engine.own.settings.superadminRole

def superadminDecision (engine : Engine) : Decision :=
  { Decision.allow Reason.superadmin with appliedRules := [engine.own.settings.superadminRole] }

/-- Counts a use of the rules that allowed; an outage of the store loses it. -/
def recordUse (tenant : TenantId) (ids : List RuleId) : Act Engine ε Unit := do
  let now := (← Act.state).now
  let _ ← (onStore (fun store => store.recordUsage tenant ids now)).attempt

def enrich (engine : Engine) (request : CheckRequest) (decision : Decision) : Decision :=
  match engine.own.enrichers.get? request.service with
  | some enricher => enricher request decision
  | none => decision

/-- A decision by the tenant's evaluator, with the instant from which it may not be served. -/
def evaluate (request : CheckRequest) : Act Engine CheckError (Decision × Option Instant) := do
  let evaluation ← (enforce request.tenant request.subject request.service request.object
    request.action).mapError CheckError.evaluator
  if evaluation.allowed && !evaluation.matchedRules.isEmpty then
    recordUse request.tenant evaluation.matchedRules
  let engine ← Act.state
  pure (engine.enrich request (Decision.ofEvaluation evaluation), evaluation.validUntil)

def lookUp (request : CheckRequest) : Act Engine ε (Option Decision) := do
  let now := (← Act.state).now
  consultCache (fun cache => cache.get now request)

def remember (request : CheckRequest) (decision : Decision) (validUntil : Option Instant) :
    Act Engine ε Unit := do
  let now := (← Act.state).now
  consultCache (fun cache => ((), cache.set now request decision validUntil))

/-- Evaluates a request and, with the cache in use, keeps the decision. -/
def decideFresh (request : CheckRequest) (useCache : Bool) : Act Engine CheckError Decision := do
  let (decision, validUntil) ← evaluate request
  if useCache then remember request decision validUntil
  pure decision

def decide (request : CheckRequest) (useCache : Bool) : Act Engine CheckError Decision := do
  let engine ← Act.state
  if engine.isSuperadmin request then pure engine.superadminDecision
  else if useCache then
    match ← lookUp request with
    | some decision => pure decision
    | none => decideFresh request useCache
  else decideFresh request useCache

def roles (tenant : TenantId) (subject : String) (useCache : Bool) :
    Act Engine CheckError (List String) := do
  let now := (← Act.state).now
  let kept ← if useCache then consultCache (fun cache => cache.getRoles now tenant subject)
    else pure none
  match kept with
  | some roles => pure roles
  | none =>
    let (roles, validUntil) ← (rolesUntil tenant subject).mapError CheckError.evaluator
    if useCache then
      consultCache (fun cache => ((), cache.setRoles now tenant subject roles validUntil))
    pure roles

/-- A decision found by asking as a role, which is named in it. -/
def viaRole (decision : Decision) (role : String) : Decision :=
  { decision with
    reason := Reason.viaRole role
    appliedRules := decision.appliedRules ++ [role]
    grantedVia := some role
    fromCache := false }

/-- Asks as each role in turn until one is allowed. -/
def firstAllowed (request : CheckRequest) (useCache : Bool) :
    List String → Act Engine CheckError (Option Decision)
  | [] => pure none
  | role :: rest => do
    let decision ← decide (request.asSubject role) useCache
    if decision.allowed then pure (some (viaRole decision role))
    else firstAllowed request useCache rest

/-- The granting role among the applied rules. -/
def nameRole (decision : Decision) : Decision :=
  match decision.grantedVia with
  | some role =>
    if role ∈ decision.appliedRules then decision
    else { decision with appliedRules := decision.appliedRules ++ [role] }
  | none => decision

/-- Decides, and asks again as the subject's roles when nothing matched. An explicit deny is
final. -/
def decideExpanded (request : CheckRequest) (useCache : Bool) : Act Engine CheckError Decision := do
  let direct ← decide request useCache
  if direct.allowed then pure (nameRole direct)
  else if direct.explicitDeny then pure direct
  else
    let roles ← roles request.tenant request.subject useCache
    match ← firstAllowed request useCache roles with
    | some decision => pure decision
    | none => pure direct

/-- Keeps an audit record of a decision, if it is asked for and records are kept. -/
def auditDecision (request : CheckRequest) (asked : Bool) (decision : Decision) (engine : Engine) :
    Engine :=
  if asked && engine.own.auditing then
    { engine with own := { engine.own with
      audit := engine.own.audit ++ [AuditRecord.of request decision engine.now] } }
  else engine

def withDeadline (engine : Engine) (deadline : Option Nat) : Engine :=
  engine.withTiming { engine.timing with deadline := deadline }

/-- Runs an action for so many milliseconds at most; running out of time is the answer `late`. -/
def within {α : Type} (millis : Option Nat) (late : α) (action : Act Engine ε α) :
    Act Engine ε α := fun engine =>
  match action (engine.withDeadline (millis.map (engine.timing.elapsed + ·))) with
  | (.halted .deadline, after) => (.ok late, after.withDeadline engine.timing.deadline)
  | (outcome, after) => (outcome, after.withDeadline engine.timing.deadline)

/-- Decides one request, by the subject alone or also by its roles. -/
def check (request : CheckRequest) (options : CheckOptions) (expand : Bool) :
    Act Engine CheckError Decision := do
  match request.missingField? with
  | some field => Act.fail (.invalidRequest field)
  | none =>
    let settings := (← Act.state).own.settings
    let decision ← within (options.deadline <|> settings.checkTimeout)
      (Decision.deny Reason.deadline)
      (if expand then decideExpanded request options.useCache
        else decide request options.useCache)
    Act.modify (auditDecision request options.audit decision)
    pure decision

end Engine

/-- A question as it comes in; the tenant and the caller come with the call. -/
structure PermissionQuery where
  service : String
  subject : String
  object : String
  action : String
  context : Table String String
  useCache : Bool
  audit : Bool
  expandRoles : Bool
deriving DecidableEq, Repr

namespace PermissionQuery

def toRequest (query : PermissionQuery) (tenant : TenantId) (caller : Principal) :
    CheckRequest where
  tenant := tenant
  service := query.service
  subject := query.subject
  object := query.object
  action := query.action
  callerRoles := caller.roles
  context := query.context

def options (query : PermissionQuery) : CheckOptions :=
  { useCache := query.useCache, audit := query.audit }

end PermissionQuery

namespace Engine

/-- Answers a question; an error is a deny with the error as its reason. -/
def checkPermission {ε : Type} (tenant : TenantId) (caller : Principal) (query : PermissionQuery) :
    Act Engine ε Decision := do
  match ← (check (query.toRequest tenant caller) query.options query.expandRoles).attempt with
  | .ok decision => pure decision
  | .error fault => pure (Decision.deny fault.message)

end Engine

end AccessPolicy
