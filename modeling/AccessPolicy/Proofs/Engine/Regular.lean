import AccessPolicy.Proofs.Engine.Outage
import AccessPolicy.Proofs.Engine.Provenance

/-!
An engine beside which nobody writes rules keeps its store in order, through outages, too, and its
evaluators follow the rows as long as the clock does not go back.
-/
namespace AccessPolicy

namespace Engine

open Act hiding pure bind state

variable {engine first : Engine} {current : TenantId → Prop} {command : Command} {event : Event}

/-- After the event the calendar has an instant after the window of every row, and a new row takes an id
that is not in use. -/
structure Orderly (engine : Engine) (event : Event) : Prop where
  closing : ∀ id row, (event.happen engine).commons.store.rows.get? id = some row → row.closes
  room : ∀ tenant rule, event = .call (.create tenant rule) → engine.commons.store.HasRoom

/-- The store is in order, whether it can be reached or not, and the evaluators follow its rows. -/
structure Regular (current : TenantId → Prop) (engine : Engine) : Prop where
  sound : engine.restored.commons.store.Sound
  tracks : Tracks current engine.commons.store.law engine.now engine.own.evaluators

theorem Regular.coherent {regime : Regime} (regular : Regular regime.current engine)
    (uncached : ¬ regime.cached) (paced : Paced regime engine.timing) :
    Coherent regime engine.restored :=
  coherent_of regular.sound regular.tracks (fun cached => absurd cached uncached) paced

/-- While the store can be reached a regular engine is coherent at the start of each call. -/
theorem Regular.coherent_newCall {regime : Regime} (regular : Regular regime.current engine)
    (available : engine.commons.store.available = true) (uncached : ¬ regime.cached) :
    Coherent regime engine.newCall := by
  have calls : Regular regime.current engine.newCall := ⟨regular.sound, regular.tracks⟩
  have coherent : Coherent regime engine.newCall.restored :=
    calls.coherent uncached (paced_start regime)
  have reached : engine.newCall.commons.store.available = true := available
  rw [restored_eq reached] at coherent
  exact coherent

theorem regular_of_coherent {regime : Regime} (coherent : Coherent regime engine) :
    Regular regime.current engine := by
  refine ⟨?_, coherent.tracks⟩
  rw [restored_eq coherent.sound.available]
  exact coherent.sound

/-- What is shared is as it was, and so is each evaluator that is still there. -/
theorem Regular.of_fewer (regular : Regular current engine) {after : Engine}
    (commons : after.commons = engine.commons)
    (fewer : ∀ tenant evaluator, after.evaluator? tenant = some evaluator →
      engine.evaluator? tenant = some evaluator) : Regular current after := by
  have now : after.now = engine.now := congrArg Commons.now commons
  constructor
  · unfold restored
    rw [commons]
    exact regular.sound
  · rw [commons, now]
    exact fun tenant member evaluator present =>
      regular.tracks tenant member evaluator (fewer tenant evaluator present)

theorem Regular.tarries {regime : Regime} {after : Engine} (regular : Regular current engine)
    (tarries : Tarries regime engine after) : Regular current after := by
  obtain ⟨timing, cache, _, rfl⟩ := tarries
  exact regular.of_fewer rfl fun _ _ present => present

theorem Regular.attends {regime : Regime} {after : Engine} (regular : Regular regime.current engine)
    (attends : Attends regime engine after) : Regular regime.current after := by
  obtain ⟨evaluators, timing, rfl⟩ := attends.evolves
  exact ⟨regular.sound, attends.tracks⟩

/-- Calls that may end at any moment, for tenants whose evaluators have to be right. -/
def Regime.pressedFor (current : TenantId → Prop) : Regime :=
  { Regime.pressed with current := current }

theorem preserves_rebuild_regular (tenant : TenantId) :
    Preserves (Regular current) (rebuild tenant) := by
  intro engine regular
  have paced : Paced (.pressedFor current) engine.timing :=
    ⟨fun leisure => absurd trivial leisure, fun leisure => absurd trivial leisure⟩
  cases reach : engine.commons.store.available with
  | true =>
    have coherent : Coherent (.pressedFor current) engine.restored :=
      regular.coherent (fun cached => cached) paced
    rw [restored_eq reach] at coherent
    have kept : Regular (Regime.pressedFor current).current engine := regular
    exact kept.attends (yields_rebuild coherent.sound coherent.attends tenant).settled
  | false =>
    apply Leads.settled
    apply (leads_rebuild_severed reach paced tenant).mono
    · exact fun _ _ impossible => impossible.elim
    · exact fun _ _ tarries => regular.tarries tarries
    · exact fun _ ends => regular.tarries ends.2

theorem follows_regular : AdmitsFollowing (Regular current) where
  timing := fun _ regular => ⟨regular.sound, regular.tracks⟩
  rebuild := fun _ => preserves_rebuild_regular _
  drop := fun _ regular => ⟨regular.sound, (regular.tracks.without _).erase⟩
  forget := fun _ _ regular => ⟨regular.sound, regular.tracks⟩
  publish := fun _ regular => ⟨regular.sound, regular.tracks⟩
  dropAll := fun regular => ⟨regular.sound, tracks_nil _ _ _⟩
  listener := fun _ regular => ⟨regular.sound, regular.tracks⟩
  clear := fun _ regular => ⟨regular.sound, regular.tracks⟩

theorem closing_of_all (all : engine.commons.store.rows.values.all Rule.closes = true) (id : RuleId)
    (row : Rule) (stored : engine.commons.store.rows.get? id = some row) : row.closes = true :=
  List.all_eq_true.mp all row (List.mem_map_of_mem (Table.mem_of_get? stored))

/-- What is committed has a window that the calendar can bear, when no other is stored. -/
theorem Orderly.admissible {tenant : TenantId} {submission : Submission}
    (orderly : engine.Orderly (.call (submission.command tenant)))
    (takes : engine.newCall.Takes tenant submission) :
    (submission.command tenant).Admissible engine.commons.store := by
  rcases committed_or_refused engine tenant submission with ⟨_, row, write, writes, rows⟩ | ⟨refused, _⟩
  · have stored : ((submission.command tenant).perform engine.newCall).commons.store.rows.get? row.id =
        some row := by
      rw [rows, Table.get?_put_self]
    have closing : row.closes := orderly.closing row.id row stored
    cases writes with
    | create _ _ version =>
      rw [version] at closing
      exact ⟨closing, orderly.room _ _ rfl⟩
    | update _ _ _ _ version =>
      rw [version] at closing
      exact closing
    | approve | reject => exact trivial
  · exact absurd takes refused

theorem Orderly.admissible_or_idle (orderly : engine.Orderly (.call command)) :
    command.Admissible engine.commons.store ∨ Idle engine.newCall (command.perform engine.newCall) := by
  by_cases written : ∃ tenant submission, command = Submission.command tenant submission
  · obtain ⟨tenant, submission, rfl⟩ := written
    rcases committed_or_refused engine tenant submission with ⟨takes, _⟩ | ⟨_, idle⟩
    · exact Or.inl (orderly.admissible takes)
    · exact Or.inr idle
  · have other (tenant : TenantId) (submission : Submission) :
        command ≠ Submission.command tenant submission :=
      fun same => written ⟨tenant, submission, same⟩
    cases command with
    | create tenant rule => exact absurd rfl (other tenant (.create rule))
    | update tenant rule => exact absurd rfl (other tenant (.update rule))
    | _ => exact Or.inl trivial

theorem Regular.perform_of_admissible (regular : Regular current engine)
    (admissible : command.Admissible engine.commons.store) :
    Regular current (command.perform engine.newCall) := by
  cases reach : engine.commons.store.available with
  | true =>
    let regime : Regime := ⟨current, False, NoneStale, False, False, False⟩
    have kept : Regular regime.current engine := regular
    have coherent := kept.coherent_newCall reach (fun cached => cached)
    have leisure : ¬ regime.hurried := by simp [regime, Regime.hurried]
    exact regular_of_coherent (coherent.perform leisure admissible).coherent
  | false =>
    have severed : engine.newCall.Severed := reach
    have endures := endures_perform severed command
    exact regular.of_fewer endures.commons endures.evaluators

theorem Regular.perform (regular : Regular current engine) (orderly : engine.Orderly (.call command)) :
    Regular current (command.perform engine.newCall) := by
  rcases orderly.admissible_or_idle with admissible | idle
  · exact regular.perform_of_admissible admissible
  · apply regular.of_fewer idle.commons
    intro tenant evaluator present
    unfold evaluator? at present
    rw [idle.own] at present
    exact present

/-- An engine stays regular; where its evaluators have to be right the clock must not go back. -/
theorem Regular.happen (regular : Regular current engine) (orderly : engine.Orderly event)
    (forward : (∀ tenant, ¬ current tenant) ∨ event.Forward engine) :
    Regular current (event.happen engine) := by
  have follows : AdmitsFollowing (Regular current) := follows_regular
  have calls : Regular current engine.newCall := ⟨regular.sound, regular.tracks⟩
  cases event with
  | call command => exact regular.perform orderly
  | listen => exact follows.listen _ calls
  | shutdown => exact follows.shutdown _ calls
  | takeChanges => exact follows.takeChanges _ calls
  | applyChange change => exact follows.applyChange change _ calls
  | clock now =>
    refine ⟨regular.sound, ?_⟩
    rcases forward with nobody | ⟨order, ordinary⟩
    · exact fun tenant member => absurd member (nobody tenant)
    · exact regular.tracks.after order ordinary
  | store available => exact ⟨regular.sound, regular.tracks⟩
  | bus | delay | cache => exact ⟨regular.sound, regular.tracks⟩

/-- An engine without rows, and without evaluators, is regular. -/
theorem regular_of_empty (empty : first.commons.store.rows = []) (bare : first.own.evaluators = []) :
    Regular current first := by
  have missing (id : RuleId) (row : Rule) : first.restored.commons.store.rows.get? id ≠ some row := by
    change first.commons.store.rows.get? id ≠ some row
    rw [empty]
    exact nofun
  refine ⟨⟨rfl, ?_, ?_, ?_⟩, ?_⟩
  · exact (filed_of_empty empty).ordered
  · exact fun id row present => absurd present (missing id row)
  · exact fun id row present => absurd present (missing id row)
  · rw [bare]
    exact tracks_nil _ _ _

section Fares

/-- What happens to an engine that alone writes to its store. Where it is `faulty` the store may become
unavailable, and so may the cache. -/
inductive Fares (faulty : Prop) : Engine → Engine → Prop
  | step {engine after : Engine} (step : Step faulty engine after) : Fares faulty engine after
  | outage {engine : Engine} (allowed : faulty) (available : Bool) :
      Fares faulty engine (engine.withStore (engine.commons.store.setAvailable available))

variable {faulty : Prop} {base engine after : Engine} {current : TenantId → Prop}

theorem Fares.regular (fares : Fares faulty engine after) (regular : Regular current engine) :
    Regular current after := by
  have follows : AdmitsFollowing (Regular current) := follows_regular
  have calls : Regular current engine.newCall := ⟨regular.sound, regular.tracks⟩
  cases fares with
  | outage => exact ⟨regular.sound, regular.tracks⟩
  | step step =>
    cases step with
    | call command admissible => exact regular.perform_of_admissible admissible
    | listen => exact follows.listen _ calls
    | shutdown => exact follows.shutdown _ calls
    | clock now order ordinary => exact ⟨regular.sound, regular.tracks.after order ordinary⟩
    | elapse | outage | bus | delay => exact ⟨regular.sound, regular.tracks⟩

theorem regular_of_fares (run : Relation.ReflTransGen (Fares faulty) base engine)
    (regular : Regular current base) : Regular current engine := by
  induction run with
  | refl => exact regular
  | tail _ fares ih => exact fares.regular ih

theorem regular_start {commons : Commons} (sound : commons.store.Sound) (id : Uuid)
    (settings : Settings) (enrichers : Table String Enricher) (auditing : Bool) :
    Regular current ⟨commons, .start id settings enrichers auditing, .start⟩ := by
  refine ⟨?_, tracks_nil _ _ _⟩
  change RuleStore.Sound { commons.store with available := true }
  exact ⟨rfl, sound.ordered, sound.keyed, sound.closing⟩

/-- Without faults nothing happens but steps. -/
theorem run_of_fares (reliable : ¬ faulty) (run : Relation.ReflTransGen (Fares faulty) base engine) :
    Relation.ReflTransGen (Step faulty) base engine := by
  refine run.lift id fun _ _ fares => ?_
  cases fares with
  | step step => exact step
  | outage allowed => exact absurd allowed reliable

end Fares

end Engine

end AccessPolicy
