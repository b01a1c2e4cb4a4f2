import AccessPolicy.Engine.Evaluators

/-!
Announcing changes to other engines and applying theirs. An engine skips what it announced itself:
the write that led to it has been applied already.
-/
namespace AccessPolicy

inductive BusError where
  | down
deriving DecidableEq, Repr

def BusError.message : BusError → String
  | .down => "transport error: bus down"

namespace Engine

variable {ε : Type}

/-- Publishes a change; without a tenant every engine is asked to take up every tenant anew. -/
def announce (tenant : Option TenantId) (reason : ChangeReason) : Act Engine BusError Unit := do
  let engine ← Act.state
  if engine.commons.busDown then Act.fail .down
  else Act.modify (fun engine => { engine with commons := { engine.commons with
    bus := engine.commons.bus.publish ⟨engine.own.id, tenant, reason⟩ } })

/-- Announces a change of a tenant; a failure is left at that. -/
def broadcast (tenant : TenantId) (reason : ChangeReason) : Act Engine ε Unit := do
  let _ ← (announce (some tenant) reason).attempt

/-- Applies a change of another engine: reloads what it names, as far as the store allows, and
drops what is cached of it. -/
def applyChange (change : Change) : Act Engine ε Bool := do
  let engine ← Act.state
  if change.origin = engine.own.id then pure false
  else
    match change.tenant with
    | some tenant =>
      let _ ← (reload tenant).attempt
      let _ ← onCache (fun cache => cache.invalidateTenant tenant)
    | none =>
      let _ ← reloadAll
      let _ ← onCache (fun cache => cache.invalidateAll none)
    pure true

/-- Starts to listen for changes; an engine that listens already goes on with it. -/
def listen : Act Engine ε Unit := do
  let engine ← Act.state
  if engine.own.listener.isNone then
    let (subscription, bus) := engine.commons.bus.subscribe
    Act.modify (fun engine => { engine with
      commons := { engine.commons with bus := bus }
      own := { engine.own with listener := some ⟨subscription, true⟩ } })

/-- Stops listening and drops every evaluator. -/
def shutdown : Act Engine ε Unit := do
  let engine ← Act.state
  match engine.own.listener with
  | some listener =>
    Act.modify (fun engine => { engine with
      commons := { engine.commons with bus := engine.commons.bus.drop listener.subscription }
      own := { engine.own with listener := none } })
  | none => pure ()
  let _ ← dropEvaluators

/-- Applies changes in order; a listener stops for good at one that cannot be applied. -/
def applyEach (listener : Listener) : List Change → Act Engine ε Unit
  | [] => pure ()
  | change :: rest => fun engine =>
    match (applyChange change : Act Engine ε Bool) engine with
    | (.halted _, engine) => (.ok (), { engine with
        commons := { engine.commons with bus := engine.commons.bus.drop listener.subscription }
        own := { engine.own with listener := some { listener with running := false } } })
    | (_, engine) => applyEach listener rest engine

/-- Applies every change that waits for the listener. -/
def takeChanges : Act Engine ε Unit := do
  let engine ← Act.state
  match engine.own.listener with
  | some listener =>
    if listener.running then
      let changes := engine.commons.bus.waiting listener.subscription
      Act.modify (fun engine => { engine with commons := { engine.commons with
        bus := engine.commons.bus.clear listener.subscription } })
      applyEach listener changes
  | none => pure ()

end Engine

end AccessPolicy
