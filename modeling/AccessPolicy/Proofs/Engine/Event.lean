import AccessPolicy.Proofs.Engine.Accounts
import AccessPolicy.Proofs.Engine.History
import AccessPolicy.Proofs.Engine.Outage

/-!
Histories of an engine beside which nobody writes rules: it is called, it hears of changes, clocks move,
and store, bus and cache fail and come back. Its rows stay in order.
-/
namespace AccessPolicy

/-- What can happen to an engine that alone writes to its store. -/
inductive Event where
  | call (command : Command)
  | listen
  | shutdown
  | takeChanges
  | applyChange (change : Change)
  | clock (now : Instant)
  | store (available : Bool)
  | bus (messages : Bus Change) (down : Bool)
  | delay (millis : Nat)
  | cache (backend : CacheBackend)

namespace Event

def happen : Event → Engine → Engine
  | call command, engine => command.perform engine.newCall
  | listen, engine => ((Engine.listen : Act Engine Empty Unit) engine.newCall).2
  | shutdown, engine => ((Engine.shutdown : Act Engine Empty Unit) engine.newCall).2
  | takeChanges, engine => ((Engine.takeChanges : Act Engine Empty Unit) engine.newCall).2
  | applyChange change, engine =>
    ((Engine.applyChange change : Act Engine Empty Bool) engine.newCall).2
  | clock now, engine => engine.setClock now
  | store available, engine => engine.withStore (engine.commons.store.setAvailable available)
  | bus messages down, engine => (engine.withBus messages).setBusDown down
  | delay millis, engine => engine.setFindDelay millis
  | cache backend, engine => engine.withBackend backend

/-- The clock moves to an ordinary instant that is not earlier. -/
def Forward (engine : Engine) : Event → Prop
  | clock now => engine.now ≤ now ∧ now.isLeap = false
  | _ => True

end Event

namespace Engine

open Act hiding pure bind state

variable {kept : Engine → Prop} {engine : Engine}

/-- The engine after what happens to it, one event after the other. -/
def after (engine : Engine) (events : List Event) : Engine :=
  events.foldl (fun engine event => event.happen engine) engine

theorem after_append (engine : Engine) (events more : List Event) :
    engine.after (events ++ more) = (engine.after events).after more :=
  List.foldl_append

theorem after_concat (engine : Engine) (events : List Event) (event : Event) :
    engine.after (events ++ [event]) = event.happen (engine.after events) :=
  after_append engine events [event]

/-- Each event meets a condition on the engine to which it happens. -/
def Throughout (condition : Engine → Event → Prop) : Engine → List Event → Prop
  | _, [] => True
  | engine, event :: rest =>
    condition engine event ∧ Throughout condition (event.happen engine) rest

/-- What each event preserves where it meets a condition is preserved throughout. -/
theorem after_of_throughout {condition : Engine → Event → Prop}
    (step : ∀ engine event, kept engine → condition engine event → kept (event.happen engine))
    {engine : Engine} {events : List Event} (holds : kept engine)
    (throughout : Throughout condition engine events) : kept (engine.after events) := by
  induction events generalizing engine with
  | nil => exact holds
  | cons event rest ih => exact ih (step engine event holds throughout.1) throughout.2

theorem throughout_append {condition : Engine → Event → Prop} {events more : List Event} :
    Throughout condition engine (events ++ more) ↔
      Throughout condition engine events ∧ Throughout condition (engine.after events) more := by
  induction events generalizing engine with
  | nil => simp [Throughout, after]
  | cons event rest ih =>
    simp only [List.cons_append, Throughout, ih, and_assoc]
    rfl

theorem Throughout.and {one other : Engine → Event → Prop} {engine : Engine} {events : List Event}
    (first : Throughout one engine events) (second : Throughout other engine events) :
    Throughout (fun engine event => one engine event ∧ other engine event) engine events := by
  induction events generalizing engine with
  | nil => exact trivial
  | cons event rest ih => exact ⟨⟨first.1, second.1⟩, ih first.2 second.2⟩

theorem after_of_step (step : ∀ engine event, kept engine → kept (Event.happen event engine))
    (holds : kept engine) (events : List Event) : kept (engine.after events) := by
  induction events generalizing engine with
  | nil => exact holds
  | cons event rest ih => exact ih (step engine event holds)

section Filed

/-- The rows stand in order, each under its own id. -/
structure Filed (engine : Engine) : Prop where
  ordered : engine.RowsOrdered
  keyed : engine.Keyed

theorem admits_filed (mine : TenantId → Prop) : AdmitsChecks Filed mine where
  timing := fun _ filed => ⟨filed.ordered, filed.keyed⟩
  build := fun _ _ filed => ⟨filed.ordered, filed.keyed⟩
  drop := fun _ filed => ⟨filed.ordered, filed.keyed⟩
  forget := fun _ _ filed => ⟨filed.ordered, filed.keyed⟩
  updateRow := fun owned filed => ⟨(admits_rowsOrdered mine).updateRow owned filed.ordered,
    (admits_keyed mine).updateRow owned filed.keyed⟩
  deleteRow := fun id owned filed => ⟨(admits_rowsOrdered mine).deleteRow id owned filed.ordered,
    (admits_keyed mine).deleteRow id owned filed.keyed⟩
  publish := fun _ filed => ⟨filed.ordered, filed.keyed⟩
  recordUsage := fun ids now owned filed =>
    ⟨(admits_rowsOrdered mine).recordUsage ids now owned filed.ordered,
      (admits_keyed mine).recordUsage ids now owned filed.keyed⟩
  keep := fun _ _ _ _ _ _ _ filed => ⟨filed.ordered, filed.keyed⟩
  audit := fun _ filed => ⟨filed.ordered, filed.keyed⟩

theorem follows_filed : AdmitsFollowing Filed where
  toAdmitsNotices := (admits_filed _).toAdmitsNotices
  dropAll := fun filed => ⟨filed.ordered, filed.keyed⟩
  listener := fun _ filed => ⟨filed.ordered, filed.keyed⟩
  clear := fun _ filed => ⟨filed.ordered, filed.keyed⟩

theorem Filed.happen (filed : engine.Filed) (event : Event) : (event.happen engine).Filed := by
  have admits := admits_filed (fun _ => True)
  have follows := follows_filed
  have calls : engine.newCall.Filed := ⟨filed.ordered, filed.keyed⟩
  cases event with
  | call command =>
    have every : command.For fun _ => True := by
      cases command <;> simp [Command.For]
    cases asks : command.decides with
    | true => exact admits.toAdmitsDecisions.perform asks every calls
    | false =>
      apply admits.toAdmits.perform admits.toAdmits (fun _ filed => filed) ?_ asks every calls
      exact fun _ rule _ filed =>
        ⟨RuleStore.ordered_insert filed.ordered rule, keyed_insert filed.keyed rule⟩
  | listen => exact follows.listen _ calls
  | shutdown => exact follows.shutdown _ calls
  | takeChanges => exact follows.takeChanges _ calls
  | applyChange change => exact follows.applyChange change _ calls
  | clock | store | bus | delay | cache => exact ⟨filed.ordered, filed.keyed⟩

theorem filed_of_empty (empty : engine.commons.store.rows = []) : engine.Filed := by
  constructor
  · unfold RowsOrdered
    rw [empty]
    exact .nil
  · intro id rule present
    rw [empty] at present
    cases present

theorem filed_after (empty : engine.commons.store.rows = []) (events : List Event) :
    (engine.after events).Filed :=
  after_of_step (fun _ event filed => filed.happen event) (filed_of_empty empty) events

end Filed

end Engine

end AccessPolicy
