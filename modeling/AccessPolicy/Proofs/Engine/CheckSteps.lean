import AccessPolicy.Proofs.Act.Steps
import AccessPolicy.Proofs.DecisionCache.Recalls
import AccessPolicy.Proofs.Engine.Run

/-!
The steps of a check that uses the cache: the lookup, the evaluation by the registry, the count of the
use, and the cache write, for the subject and for each role that is asked for. Between the evaluation
and the cache write an answer waits.
-/
namespace AccessPolicy

/-- An answer that an evaluator has given about a subject, not to be served from the bound on. -/
structure Answer where
  tenant : TenantId
  subject : String
  bound : Option Instant
  right : Evaluator → Prop
  shared : Evaluator.LocalTo subject right

namespace Answer

def ofDecision (about : DecisionSubject) (evaluation : Evaluation) : Answer :=
  ⟨about.tenant, about.subject, evaluation.validUntil,
    Evaluator.Answers about (Decision.ofEvaluation evaluation), Evaluator.localTo_decision _ _⟩

def ofRoles (tenant : TenantId) (subject : String) (answer : List String × Option Instant) : Answer :=
  ⟨tenant, subject, answer.2, fun evaluator => answer.1 = evaluator.rolesOf subject,
    Evaluator.localTo_rolesOf _ _⟩

end Answer

namespace Engine

variable {α : Type}

/-- A step while no answer waits to be cached. -/
def idly (action : Act Engine CheckError α) : Steps Engine (Option Answer) CheckError α :=
  .once none action

/-- A step while an answer waits to be cached. -/
def holding (answer : Answer) (action : Act Engine CheckError α) :
    Steps Engine (Option Answer) CheckError α :=
  .once (some answer) action

/-- Counts the use, if the evaluation allowed. -/
def recordSteps (tenant : TenantId) (answer : Answer) (evaluation : Evaluation) :
    Steps Engine (Option Answer) CheckError Unit :=
  if evaluation.allowed && !evaluation.matchedRules.isEmpty then
    holding answer (recordUse tenant evaluation.matchedRules)
  else pure ()

def decideFreshSteps (request : CheckRequest) : Steps Engine (Option Answer) CheckError Decision := do
  let evaluation ← idly ((enforce request.tenant request.subject request.service request.object
    request.action).mapError CheckError.evaluator)
  let answer := Answer.ofDecision request.about evaluation
  recordSteps request.tenant answer evaluation
  let engine ← holding answer Act.state
  let decision := engine.enrich request (Decision.ofEvaluation evaluation)
  holding answer (remember request decision evaluation.validUntil)
  pure decision

def decideSteps (request : CheckRequest) : Steps Engine (Option Answer) CheckError Decision := do
  let engine ← idly Act.state
  if engine.isSuperadmin request then pure engine.superadminDecision
  else
    match ← idly (lookUp request) with
    | some decision => pure decision
    | none => decideFreshSteps request

def rolesSteps (tenant : TenantId) (subject : String) :
    Steps Engine (Option Answer) CheckError (List String) := do
  let now := (← idly Act.state).now
  match ← idly (consultCache (fun cache => cache.getRoles now tenant subject)) with
  | some roles => pure roles
  | none =>
    let answer ← idly ((rolesUntil tenant subject).mapError CheckError.evaluator)
    holding (.ofRoles tenant subject answer)
      (consultCache (fun cache => ((), cache.setRoles now tenant subject answer.1 answer.2)))
    pure answer.1

def firstAllowedSteps (request : CheckRequest) :
    List String → Steps Engine (Option Answer) CheckError (Option Decision)
  | [] => pure none
  | role :: rest => do
    let decision ← decideSteps (request.asSubject role)
    if decision.allowed then pure (some (viaRole decision role))
    else firstAllowedSteps request rest

def decideExpandedSteps (request : CheckRequest) :
    Steps Engine (Option Answer) CheckError Decision := do
  let direct ← decideSteps request
  if direct.allowed then pure (nameRole direct)
  else if direct.explicitDeny then pure direct
  else
    let roles ← rolesSteps request.tenant request.subject
    match ← firstAllowedSteps request roles with
    | some decision => pure decision
    | none => pure direct

/-- The steps of a check, for the subject alone or also for its roles. -/
def checkSteps (request : CheckRequest) (expand : Bool) :
    Steps Engine (Option Answer) CheckError Decision :=
  if expand then decideExpandedSteps request else decideSteps request

section Run

open Steps

theorem run_decideFreshSteps (request : CheckRequest) :
    (decideFreshSteps request).run = decideFresh request true := by
  unfold decideFreshSteps decideFresh evaluate recordSteps
  simp only [run_bind, idly, holding, run_once, run_pure, run_ite, bind_assoc]
  congr 1
  funext evaluation
  split <;> simp only [bind_assoc, pure_bind] <;> rfl

theorem run_decideSteps (request : CheckRequest) :
    (decideSteps request).run = decide request true := by
  unfold decideSteps decide
  simp only [run_bind, idly, run_once, run_ite, run_pure]
  congr 1
  funext engine
  split
  · rfl
  · simp only [if_true]
    congr 1
    funext found
    cases found with
    | some decision => rfl
    | none => exact run_decideFreshSteps request

theorem run_rolesSteps (tenant : TenantId) (subject : String) :
    (rolesSteps tenant subject).run = roles tenant subject true := by
  unfold rolesSteps roles
  simp only [run_bind, idly, run_once, if_true]
  congr 1
  funext engine
  congr 1
  funext found
  cases found with
  | some roles => rfl
  | none => simp only [run_bind, holding, run_once, run_pure]

theorem run_firstAllowedSteps (request : CheckRequest) (roles : List String) :
    (firstAllowedSteps request roles).run = firstAllowed request true roles := by
  induction roles with
  | nil => rfl
  | cons role rest ih =>
    unfold firstAllowedSteps firstAllowed
    simp only [run_bind, run_decideSteps, run_ite, run_pure, ih]

theorem run_decideExpandedSteps (request : CheckRequest) :
    (decideExpandedSteps request).run = decideExpanded request true := by
  unfold decideExpandedSteps decideExpanded
  simp only [run_bind, run_decideSteps, run_ite, run_pure, run_rolesSteps, run_firstAllowedSteps]
  congr 1
  funext direct
  split
  · rfl
  · split
    · rfl
    · congr 1
      funext roles
      congr 1
      funext found
      cases found <;> rfl

/-- Without others the steps are the check. -/
theorem run_checkSteps (request : CheckRequest) (expand : Bool) :
    (checkSteps request expand).run =
      if expand then decideExpanded request true else decide request true := by
  unfold checkSteps
  cases expand with
  | true => exact run_decideExpandedSteps request
  | false => exact run_decideSteps request

end Run

end Engine

end AccessPolicy
