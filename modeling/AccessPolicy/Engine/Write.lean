import AccessPolicy.Engine.Check
import AccessPolicy.Engine.Sync
import AccessPolicy.Rule.Draft
import AccessPolicy.Rule.Validation

/-!
Writing rules. A write is checked, committed to the store, carried into the evaluator, announced,
and then drops the cached decisions that it can change. The commit is the point of no return: an
evaluator that cannot follow is dropped, to be built from the store at the next access.
-/
namespace AccessPolicy

inductive ServiceError where
  | invalid (errors : List ValidationError)
  | notFound (id : RuleId)
  | rule (fault : RuleError)
  | foreignTenant
  | store (fault : StoreError)
  | evaluator (fault : EvaluatorError)
  | check (fault : CheckError)
  | bus (fault : BusError)
deriving DecidableEq, Repr

def ServiceError.message : ServiceError → String
  | .invalid errors => "rule is invalid: " ++ "; ".intercalate (errors.map ValidationError.message)
  | .notFound id => "rule not found: " ++ id.text
  | .rule fault => fault.message
  | .foreignTenant => "tenant isolation violation"
  | .store fault => fault.message
  | .evaluator fault => fault.message
  | .check fault => fault.message
  | .bus fault => fault.message

namespace Engine

variable {ε : Type}

/-- Checks a rule, with `conflicts` also against the tenant's stored rules of its service. -/
def validate (tenant : TenantId) (rule : Rule) (conflicts : Bool) :
    Act Engine ServiceError ValidationReport := do
  let now := (← Act.state).now
  if conflicts then
    let existing ← (find { RuleFilter.ofTenant tenant with
      service := some rule.service }).mapError ServiceError.store
    pure (Validator.standard.validate rule (some existing) now)
  else pure (Validator.standard.validate rule none now)

def requireTenant (tenant : TenantId) (rule : Rule) : Act Engine ServiceError Unit :=
  if rule.tenant = tenant then pure () else Act.fail .foreignTenant

def requireValid (tenant : TenantId) (rule : Rule) : Act Engine ServiceError Unit := do
  let report ← validate tenant rule true
  if report.valid then pure () else Act.fail (.invalid report.errors)

def load (tenant : TenantId) (id : RuleId) : Act Engine ServiceError Rule := do
  match ← (onStore (fun store => (store.get tenant id, store))).mapError ServiceError.store with
  | some rule => pure rule
  | none => Act.fail (.notFound id)

/-- Carries a committed write into the tenant's evaluator. An evaluator that cannot follow is
dropped. -/
def carry (tenant : TenantId) (change : Act Engine EvaluatorError Bool) : Act Engine ε Unit := do
  match ← change.attempt with
  | .ok _ => pure ()
  | .error _ => let _ ← dropEvaluator tenant

/-- The subject whose decisions a rule can change; none if those of anyone. -/
def affectedSubject? (rule : Rule) : Option String :=
  match rule.kind with
  | .ok (.permission held) => some held.subject
  | .ok (.grouping link) => if link.relation = .role then some link.member else none
  | .error _ => none

/-- Drops the cached decisions that a rule can change: those of its subject and of everyone who
inherits from it, or those of the whole tenant. -/
def invalidateFor (rule : Rule) : Act Engine ε Unit := do
  match affectedSubject? rule with
  | none => let _ ← onCache (fun cache => cache.invalidateTenant rule.tenant)
  | some subject =>
    match ← (affectedSubjects rule.tenant subject).attempt with
    | .ok subjects => let _ ← onCache (fun cache => cache.invalidateSubjects rule.tenant subjects)
    | .error _ => let _ ← onCache (fun cache => cache.invalidateTenant rule.tenant)

def created (rule : Rule) (now : Instant) : Rule :=
  { rule with
    createdAt := now
    updatedAt := now }

/-- A new version of a stored rule, which keeps the stored bookkeeping. -/
def updated (previous rule : Rule) (now : Instant) : Rule :=
  { rule with
    createdAt := previous.createdAt
    usageCount := previous.usageCount
    lastUsedAt := previous.lastUsedAt
    updatedAt := now }

def create (tenant : TenantId) (rule : Rule) : Act Engine ServiceError Rule := do
  requireTenant tenant rule
  requireValid tenant rule
  let now := (← Act.state).now
  let stored ← (onStore (fun store => store.insert (created rule now))).mapError ServiceError.store
  carry stored.tenant (addRule stored)
  broadcast stored.tenant .ruleCreated
  invalidateFor stored
  pure stored

/-- Commits a new version of a stored rule and lets it take effect. -/
def replace (previous current : Rule) (reason : ChangeReason) : Act Engine ServiceError Rule := do
  (onStore (fun store => store.update current)).mapError ServiceError.store
  carry current.tenant (replaceRule previous current)
  broadcast current.tenant reason
  invalidateFor previous
  invalidateFor current
  pure current

def update (tenant : TenantId) (rule : Rule) : Act Engine ServiceError Rule := do
  requireTenant tenant rule
  let previous ← load tenant rule.id
  requireValid tenant rule
  let now := (← Act.state).now
  replace previous (updated previous rule now) .ruleUpdated

/-- Approves or rejects a rule that requires approval. -/
def decideApproval (tenant : TenantId) (id : RuleId) (approver : Principal)
    (decided : Rule → String → Instant → Rule) (reason : ChangeReason) :
    Act Engine ServiceError Rule := do
  let previous ← load tenant id
  if previous.requireApproval then
    let now := (← Act.state).now
    replace previous (decided previous approver.id now) reason
  else Act.fail (.rule (.approvalNotRequired id))

def approve (tenant : TenantId) (id : RuleId) (approver : Principal) :
    Act Engine ServiceError Rule :=
  decideApproval tenant id approver Rule.approve .ruleApproved

def reject (tenant : TenantId) (id : RuleId) (approver : Principal) :
    Act Engine ServiceError Rule :=
  decideApproval tenant id approver Rule.reject .ruleRejected

/-- Removes rules up to the first error of the store, and lists the removed rows. -/
def removeEach (tenant : TenantId) : List RuleId → Act Engine ε (List Rule × Option StoreError)
  | [] => pure ([], none)
  | id :: rest => do
    match ← (onStore (fun store => store.delete tenant id)).attempt with
    | .error fault => pure ([], some fault)
    | .ok none => removeEach tenant rest
    | .ok (some rule) =>
      carry tenant (removeRule rule)
      let (removed, failure) ← removeEach tenant rest
      pure (rule :: removed, failure)

def invalidateEach : List Rule → Act Engine ε Unit
  | [] => pure ()
  | rule :: rest => do
    invalidateFor rule
    invalidateEach rest

/-- Deletes rules and returns the ids of those that were there. What was deleted before an error of
the store takes effect all the same. -/
def delete (tenant : TenantId) (ids : List RuleId) : Act Engine ServiceError (List RuleId) := do
  let (removed, failure) ← removeEach tenant ids
  if !removed.isEmpty then
    broadcast tenant .rulesDeleted
    invalidateEach removed
  match failure with
  | some fault => Act.fail (.store fault)
  | none => pure (removed.map Rule.id)

end Engine

end AccessPolicy
