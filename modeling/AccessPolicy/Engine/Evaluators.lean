import AccessPolicy.Engine
import AccessPolicy.Evaluator.Listing
import AccessPolicy.Evaluator.Verdict

/-!
The evaluators of an engine, one per tenant. An evaluator is built from the store when it is first
asked for, kept, changed rule by rule, and built anew when the clock has reached its next
transition. Who asks while it is being built waits.
-/
namespace AccessPolicy.Engine

variable {ε α : Type}

def setEvaluator (tenant : TenantId) (evaluator : Evaluator) : Act Engine ε Unit :=
  Act.modify (fun engine => engine.withEvaluators (engine.own.evaluators.put tenant evaluator))

def buildEvaluator (tenant : TenantId) : Act Engine EvaluatorError Evaluator := do
  let now := (← Act.state).now
  let rules ← (find (RuleFilter.ofTenant tenant)).mapError EvaluatorError.store
  match Evaluator.build tenant rules now with
  | .ok evaluator => pure evaluator
  | .error _ => Act.halt .calendarEnd

/-- Notes when an action that builds the tenant's evaluator ends, however it ends. -/
def timingBuild (tenant : TenantId) (action : Act Engine ε α) : Act Engine ε α := fun engine =>
  let (outcome, engine) := action engine
  (outcome, engine.withTiming (engine.timing.endBuild tenant))

def rebuild (tenant : TenantId) : Act Engine EvaluatorError Evaluator :=
  timingBuild tenant do
    let evaluator ← buildEvaluator tenant
    setEvaluator tenant evaluator
    pure evaluator

def awaitBuild (tenant : TenantId) : Act Engine ε Unit := do
  waitUntil ((← Act.state).timing.afterBuild tenant)

/-- The tenant's evaluator. One that is stale is built anew; when that fails it goes on serving and
the next access tries again. -/
def evaluator (tenant : TenantId) : Act Engine EvaluatorError Evaluator := do
  awaitBuild tenant
  let engine ← Act.state
  match engine.evaluator? tenant with
  | none => rebuild tenant
  | some kept =>
    if kept.isStale engine.now then
      match ← (rebuild tenant).attempt with
      | .ok fresh => pure fresh
      | .error _ => pure kept
    else pure kept

def enforce (tenant : TenantId) (subject service object action : String) :
    Act Engine EvaluatorError Evaluation := do
  pure ((← evaluator tenant).enforce subject service object action)

def rolesOf (tenant : TenantId) (subject : String) : Act Engine EvaluatorError (List String) := do
  pure ((← evaluator tenant).rolesOf subject)

/-- A role set and the instant at which it may stop being exact. -/
def rolesUntil (tenant : TenantId) (subject : String) :
    Act Engine EvaluatorError (List String × Option Instant) := do
  let evaluator ← evaluator tenant
  pure (evaluator.rolesOf subject, evaluator.nextTransition)

/-- A subject and everyone who inherits from it: those whose decisions its rules can change. -/
def affectedSubjects (tenant : TenantId) (subject : String) :
    Act Engine EvaluatorError (List String) := do
  pure (subject :: (← evaluator tenant).dependentsOf subject)

def permissionsOf (tenant : TenantId) (subject : String) (service : Option String)
    (inherited : Bool) : Act Engine EvaluatorError (List GrantedPermission) := do
  pure ((← evaluator tenant).permissionsOf subject service inherited)

/-- Keeps the evaluator that a step leaves, whatever the step's result. -/
def stepEvaluator (tenant : TenantId)
    (step : Except EvaluatorError Bool × Evaluator) : Act Engine EvaluatorError Bool := do
  setEvaluator tenant step.2
  Act.ofExcept step.1

/-- An evaluator that knows when a rule may start or stop to count. -/
def tracked (evaluator : Evaluator) (rule : Rule) (now : Instant) :
    Act Engine EvaluatorError Evaluator :=
  match evaluator.track rule now with
  | .ok evaluator => pure evaluator
  | .error _ => Act.halt .calendarEnd

/-- Compiles a stored rule into the tenant's evaluator, if there is one. A rule that does not count
yet only moves the next transition. -/
def addRule (rule : Rule) : Act Engine EvaluatorError Bool := do
  let engine ← Act.state
  match engine.evaluator? rule.tenant with
  | none => pure false
  | some kept =>
    let evaluator ← tracked kept rule engine.now
    setEvaluator rule.tenant evaluator
    if rule.isActive engine.now then stepEvaluator rule.tenant (evaluator.insert rule)
    else pure false

/-- Takes a rule out of the tenant's evaluator, if there is one. -/
def removeRule (rule : Rule) : Act Engine EvaluatorError Bool := do
  let engine ← Act.state
  match engine.evaluator? rule.tenant with
  | none => pure false
  | some kept => stepEvaluator rule.tenant (kept.remove rule)

def replaceRule (previous current : Rule) : Act Engine EvaluatorError Bool := do
  let engine ← Act.state
  match engine.evaluator? current.tenant with
  | none => pure false
  | some kept =>
    let (result, rest) := kept.remove previous
    setEvaluator current.tenant rest
    let removed ← Act.ofExcept result
    let evaluator ← tracked rest current engine.now
    setEvaluator current.tenant evaluator
    if current.isActive engine.now then
      let added ← stepEvaluator current.tenant (evaluator.insert current)
      pure (removed || added)
    else pure removed

/-- Builds the tenant's evaluator anew, if there is one; when that fails it stays as it is. -/
def reload (tenant : TenantId) : Act Engine EvaluatorError Bool := do
  match (← Act.state).evaluator? tenant with
  | none => pure false
  | some _ =>
    let _ ← rebuild tenant
    pure true

def residents (engine : Engine) : List TenantId :=
  engine.own.evaluators.keys

/-- Reloads tenants one after the other and lists those that were. -/
def reloadEach : List TenantId → Act Engine ε (List TenantId)
  | [] => pure []
  | tenant :: rest => do
    match ← (reload tenant).attempt with
    | .ok true => pure (tenant :: (← reloadEach rest))
    | _ => reloadEach rest

def reloadAll : Act Engine ε (List TenantId) := do
  reloadEach (← Act.state).residents

/-- Drops the tenant's evaluator, so that the next access builds it. -/
def dropEvaluator (tenant : TenantId) : Act Engine ε Bool := do
  let engine ← Act.state
  Act.modify (fun engine => engine.withEvaluators (engine.own.evaluators.erase tenant))
  pure (engine.evaluator? tenant).isSome

def dropEvaluators : Act Engine ε Nat := do
  let engine ← Act.state
  Act.modify (fun engine => engine.withEvaluators [])
  pure engine.own.evaluators.length

end AccessPolicy.Engine
