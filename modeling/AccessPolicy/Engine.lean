import AccessPolicy.Act
import AccessPolicy.Bus
import AccessPolicy.Change
import AccessPolicy.DecisionCache
import AccessPolicy.Evaluator
import AccessPolicy.Settings
import AccessPolicy.Timing

/-!
An engine: what it keeps for itself, and what it shares with other engines, which are the rule
store, the bus and the clock.
-/
namespace AccessPolicy

structure Commons where
  store : RuleStore
  bus : Bus Change
  /-- Messages cannot be published. -/
  busDown : Bool
  now : Instant
  /-- Milliseconds that a search of the store takes. -/
  findDelay : Nat

/-- A listener's subscription; it stops running when an event cannot be applied. -/
structure Listener where
  subscription : Nat
  running : Bool
deriving DecidableEq, Repr

/-- What one engine keeps for itself. -/
structure Replica where
  id : Uuid
  settings : Settings
  /-- The evaluators of tenants that were asked for. -/
  evaluators : Table TenantId Evaluator
  cache : DecisionCache
  listener : Option Listener
  /-- Enrichers by service. -/
  enrichers : Table String Enricher
  /-- Audit records are kept. -/
  auditing : Bool
  audit : List AuditRecord

structure Engine where
  commons : Commons
  own : Replica
  timing : Timing

def Replica.start (id : Uuid) (settings : Settings) (enrichers : Table String Enricher)
    (auditing : Bool) : Replica where
  id := id
  settings := settings
  evaluators := []
  cache := .ofSeconds settings.decisionTtl settings.roleTtl
  listener := none
  enrichers := enrichers
  auditing := auditing
  audit := []

namespace Engine

variable {ε α : Type}

def now (engine : Engine) : Instant :=
  engine.commons.now

def evaluator? (engine : Engine) (tenant : TenantId) : Option Evaluator :=
  engine.own.evaluators.get? tenant

def withStore (engine : Engine) (store : RuleStore) : Engine :=
  { engine with commons := { engine.commons with store := store } }

def withCache (engine : Engine) (cache : DecisionCache) : Engine :=
  { engine with own := { engine.own with cache := cache } }

def withEvaluators (engine : Engine) (evaluators : Table TenantId Evaluator) : Engine :=
  { engine with own := { engine.own with evaluators := evaluators } }

def withTiming (engine : Engine) (timing : Timing) : Engine :=
  { engine with timing := timing }

/-- Lets time go by up to a moment, or to the deadline if that comes first. -/
def waitUntil (moment : Nat) : Act Engine ε Unit := fun engine =>
  let (halt, timing) := engine.timing.goTo moment
  (match halt with
    | some halt => .halted halt
    | none => .ok (), engine.withTiming timing)

/-- Searches the store, which takes its time. -/
def find (filter : RuleFilter) : Act Engine StoreError (List Rule) := do
  let engine ← Act.state
  waitUntil (engine.timing.elapsed + engine.commons.findDelay)
  Act.ofExcept (engine.commons.store.find filter)

def onStore (step : RuleStore → Except StoreError α × RuleStore) : Act Engine StoreError α :=
  fun engine =>
    let (result, store) := step engine.commons.store
    Act.ofExcept result (engine.withStore store)

def onCache (step : DecisionCache → α × DecisionCache) : Act Engine ε α := fun engine =>
  let (value, cache) := step engine.own.cache
  (.ok value, engine.withCache cache)

/-- One step of the cache beside the check that asks for it. A check without time left does not
wait for the answer; the step is made nevertheless. -/
def consultCache (step : DecisionCache → α × DecisionCache) : Act Engine ε α := fun engine =>
  let (value, cache) := step engine.own.cache
  let engine := engine.withCache cache
  if engine.timing.isOver then (.halted .deadline, engine) else (.ok value, engine)

end Engine

end AccessPolicy
