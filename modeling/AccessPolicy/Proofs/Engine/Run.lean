import AccessPolicy.Proofs.Engine.Batch
import AccessPolicy.Proofs.Engine.Maintenance
import AccessPolicy.Proofs.Evaluator.Listing

/-!
Runs of one engine: calls one after the other, between which the clocks go on. Every state of a run
is coherent, so that the evaluators answer as if they were built anew from the store, and the cache
as the evaluators do.
-/
namespace AccessPolicy

inductive Command where
  | create (tenant : TenantId) (rule : Rule)
  | update (tenant : TenantId) (rule : Rule)
  | delete (tenant : TenantId) (ids : List RuleId)
  | approve (tenant : TenantId) (id : RuleId) (approver : Principal)
  | reject (tenant : TenantId) (id : RuleId) (approver : Principal)
  | expire
  | sync (tenant : TenantId) (service : Option String) (force : Bool)
  | refresh (tenant : TenantId) (type : CacheType) (service : Option String)
  | validate (tenant : TenantId) (rule : Rule) (conflicts : Bool)
  | summary (tenant : TenantId) (user : String) (service : Option String) (inherited : Bool)
  | check (request : CheckRequest) (options : CheckOptions) (expand : Bool)
  | checkPermission (tenant : TenantId) (caller : Principal) (query : PermissionQuery)
  | batch (requests : List CheckRequest) (options : CheckOptions) (failFast : Bool)
  | batchPermission (tenant : TenantId) (caller : Principal) (queries : List PermissionQuery)
    (failFast : Bool)

namespace Command

/-- The engine after the call, whatever the call's outcome. -/
def perform : Command → Engine → Engine
  | create tenant rule, engine => (Engine.create tenant rule engine).2
  | update tenant rule, engine => (Engine.update tenant rule engine).2
  | delete tenant ids, engine => (Engine.delete tenant ids engine).2
  | approve tenant id approver, engine => (Engine.approve tenant id approver engine).2
  | reject tenant id approver, engine => (Engine.reject tenant id approver engine).2
  | expire, engine => (Engine.expire engine).2
  | sync tenant service force, engine => (Engine.sync tenant service force engine).2
  | refresh tenant type service, engine =>
    ((Engine.refresh tenant type service : Act Engine Empty RefreshReport) engine).2
  | validate tenant rule conflicts, engine => (Engine.validate tenant rule conflicts engine).2
  | summary tenant user service inherited, engine =>
    (Engine.summary tenant user service inherited engine).2
  | check request options expand, engine => (Engine.check request options expand engine).2
  | checkPermission tenant caller query, engine =>
    ((Engine.checkPermission tenant caller query : Act Engine Empty Decision) engine).2
  | batch requests options failFast, engine => (Engine.batch requests options failFast engine).2
  | batchPermission tenant caller queries failFast, engine =>
    (Engine.batchPermission tenant caller queries failFast engine).2

/-- The calendar has an instant after the window of a submitted rule, and the store has an id that is
not in use for a new one. -/
def Admissible : Command → RuleStore → Prop
  | create _ rule, store => rule.closes ∧ store.HasRoom
  | update _ rule, _ => rule.closes
  | _, _ => True

end Command

namespace Engine

open Act hiding pure bind state

variable {regime : Regime} {base engine : Engine}

/-- A call goes from a coherent state to a coherent state. -/
theorem Coherent.perform (coherent : Coherent regime base) (leisure : ¬ regime.hurried)
    {command : Command} (admissible : command.Admissible base.commons.store) :
    Settles regime base (command.perform base) := by
  have decided : ∀ status (rule : Rule) (name : String) (now : Instant),
      (rule.decided status name now).id = rule.id ∧ (rule.decided status name now).tenant = rule.tenant ∧
        (rule.decided status name now).effectiveTo = rule.effectiveTo :=
    fun _ _ _ _ => ⟨rfl, rfl, rfl⟩
  have serves : Serves regime base base := coherent
  cases command with
  | create tenant rule =>
    exact (settles_create coherent leisure admissible.1 admissible.2).unhalted
  | update tenant rule => exact (settles_update coherent leisure admissible).unhalted
  | delete tenant ids => exact (settles_delete coherent leisure tenant ids).unhalted
  | approve tenant id approver =>
    exact (settles_decideApproval coherent leisure id approver _ _ (decided .approved)).unhalted
  | reject tenant id approver =>
    exact (settles_decideApproval coherent leisure id approver _ _ (decided .rejected)).unhalted
  | expire => exact (settles_expire coherent leisure).settled
  | sync tenant service force => exact (settles_sync coherent leisure tenant service force).settled
  | refresh tenant type service =>
    exact (settles_refresh coherent leisure tenant type service).settled
  | validate tenant rule conflicts =>
    exact (settles_validate coherent leisure tenant rule conflicts).settled
  | summary tenant user service inherited =>
    exact (settles_summary coherent leisure tenant user service inherited).settled
  | check request options expand => exact (leads_check serves request options expand).settled.settles
  | checkPermission tenant caller query =>
    exact (yields_checkPermission serves tenant caller query).settled.settles
  | batch requests options failFast => exact (serves.batch requests options failFast).settles
  | batchPermission tenant caller queries failFast =>
    exact (serves.batchPermission tenant caller queries failFast).settles

section Steps

/-- The time of a call starts with the call. -/
def newCall (engine : Engine) : Engine :=
  engine.withTiming .start

def setClock (engine : Engine) (now : Instant) : Engine :=
  { engine with commons := { engine.commons with now := now } }

def setBusDown (engine : Engine) (down : Bool) : Engine :=
  { engine with commons := { engine.commons with busDown := down } }

def setFindDelay (engine : Engine) (millis : Nat) : Engine :=
  { engine with commons := { engine.commons with findDelay := millis } }

def withBackend (engine : Engine) (backend : CacheBackend) : Engine :=
  engine.withCache { engine.own.cache with backend := backend }

/-- What happens to an engine. The clock moves to ordinary instants that are not earlier; the cache
may become unavailable where it is `faulty`. -/
inductive Step (faulty : Prop) : Engine → Engine → Prop
  | call {engine : Engine} (command : Command)
      (admissible : command.Admissible engine.commons.store) :
      Step faulty engine (command.perform engine.newCall)
  | listen {engine : Engine} : Step faulty engine ((listen : Act Engine Empty Unit) engine.newCall).2
  | shutdown {engine : Engine} :
      Step faulty engine ((shutdown : Act Engine Empty Unit) engine.newCall).2
  | clock {engine : Engine} (now : Instant) (order : engine.now ≤ now)
      (ordinary : now.isLeap = false) : Step faulty engine (engine.setClock now)
  | elapse {engine : Engine} (nanos : Nat) :
      Step faulty engine (engine.withBackend (engine.own.cache.backend.elapse nanos))
  | outage {engine : Engine} (allowed : faulty) (available : Bool) :
      Step faulty engine (engine.withBackend (engine.own.cache.backend.setAvailable available))
  | bus {engine : Engine} (down : Bool) : Step faulty engine (engine.setBusDown down)
  | delay {engine : Engine} (millis : Nat) : Step faulty engine (engine.setFindDelay millis)

/-- Every tenant has to be right, and calls take the time that they take. -/
def Regime.steady (cached : Prop) : Regime :=
  ⟨fun _ => True, cached, NoneStale, False, False, False⟩

theorem not_hurried_steady (cached : Prop) : ¬ (Regime.steady cached).hurried := by
  simp [Regime.steady, Regime.hurried]

theorem paced_start (regime : Regime) : Paced regime .start :=
  ⟨fun _ => rfl, fun _ => rfl⟩

theorem Coherent.newCall (coherent : Coherent regime engine) : Coherent regime engine.newCall :=
  coherent_of coherent.sound coherent.tracks coherent.recollects (paced_start regime)

theorem coherent_start_of_allowed {commons : Commons} (sound : commons.store.Sound) (id : Uuid)
    (settings : Settings) {enrichers : Table String Enricher} (auditing : Bool)
    (allowed : regime.cached → Enricher.Allowed enrichers regime.enriched) :
    Coherent regime ⟨commons, Replica.start id settings enrichers auditing, .start⟩ :=
  coherent_of sound (tracks_nil _ _ _)
    (fun cached => ⟨allowed cached, rfl, DecisionCache.recalls_ofSeconds _ _⟩) (paced_start regime)

theorem coherent_start {commons : Commons} (sound : commons.store.Sound) (id : Uuid)
    (settings : Settings) (enrichers : Table String Enricher) (auditing : Bool)
    (plain : regime.cached → enrichers = []) :
    Coherent regime ⟨commons, Replica.start id settings enrichers auditing, .start⟩ :=
  coherent_start_of_allowed sound id settings auditing fun cached =>
    Enricher.allowed_of_plain (plain cached)

theorem Coherent.setClock (coherent : Coherent regime engine) {now : Instant}
    (order : engine.now ≤ now) (ordinary : now.isLeap = false) :
    Coherent regime (engine.setClock now) := by
  refine coherent_of coherent.sound (coherent.tracks.after order ordinary) (fun cached => ?_)
    coherent.paced
  exact (coherent.recollects cached).weaken fun _ _ _ _ shared lasts =>
    lasts.after shared order ordinary

theorem Coherent.withBackend (coherent : Coherent regime engine) {backend : CacheBackend}
    (narrows : regime.cached → backend.Narrows engine.own.cache.backend) :
    Coherent regime (engine.withBackend backend) := by
  refine coherent_of coherent.sound coherent.tracks (fun cached => ?_) coherent.paced
  have recollects := coherent.recollects cached
  exact ⟨recollects.enrichers, (narrows cached).available.trans recollects.available,
    recollects.recalls.of_narrows (narrows cached)⟩

theorem Coherent.listen (coherent : Coherent regime engine) :
    Coherent regime ((Engine.listen : Act Engine Empty Unit) engine).2 := by
  unfold Engine.listen
  rw [bind_apply, state_apply]
  dsimp only
  split
  · exact coherent_of coherent.sound coherent.tracks
      (fun cached => (coherent.recollects cached).of_cache_eq rfl rfl) coherent.paced
  · exact coherent

theorem Coherent.shutdown (coherent : Coherent regime engine) :
    Coherent regime ((Engine.shutdown : Act Engine Empty Unit) engine).2 := by
  unfold Engine.shutdown
  rw [bind_apply, state_apply]
  dsimp only
  cases engine.own.listener with
  | none =>
    exact coherent_of coherent.sound (tracks_nil _ _ _)
      (fun cached => (coherent.recollects cached).of_cache_eq rfl rfl) coherent.paced
  | some listener =>
    exact coherent_of coherent.sound (tracks_nil _ _ _)
      (fun cached => (coherent.recollects cached).of_cache_eq rfl rfl) coherent.paced

theorem settings_listen (engine : Engine) :
    ((Engine.listen : Act Engine Empty Unit) engine).2.own.settings = engine.own.settings := by
  unfold Engine.listen
  rw [bind_apply, state_apply]
  dsimp only
  split <;> rfl

theorem settings_shutdown (engine : Engine) :
    ((Engine.shutdown : Act Engine Empty Unit) engine).2.own.settings = engine.own.settings := by
  unfold Engine.shutdown
  rw [bind_apply, state_apply]
  dsimp only
  cases engine.own.listener <;> rfl

variable {faulty cached : Prop}

/-- One step keeps an engine coherent between its calls, and its settings. -/
theorem Step.coherent {after : Engine} (step : Step faulty engine after)
    (reliable : regime.cached → ¬ faulty) (leisure : ¬ regime.hurried)
    (coherent : Coherent regime engine) :
    Coherent regime after ∧ after.own.settings = engine.own.settings := by
  cases step with
  | call command admissible =>
    have settles := coherent.newCall.perform leisure admissible
    exact ⟨settles.coherent, congrArg Fixed.settings settles.fixed⟩
  | listen => exact ⟨coherent.newCall.listen, settings_listen _⟩
  | shutdown => exact ⟨coherent.newCall.shutdown, settings_shutdown _⟩
  | clock now order ordinary => exact ⟨coherent.setClock order ordinary, rfl⟩
  | elapse nanos => exact ⟨coherent.withBackend fun _ => CacheBackend.narrows_elapse _ nanos, rfl⟩
  | outage allowed available =>
    exact ⟨coherent.withBackend fun cached => absurd allowed (reliable cached), rfl⟩
  | bus down =>
    exact ⟨coherent_of coherent.sound coherent.tracks coherent.recollects coherent.paced, rfl⟩
  | delay millis =>
    exact ⟨coherent_of coherent.sound coherent.tracks coherent.recollects coherent.paced, rfl⟩

theorem Coherent.of_run (coherent : Coherent regime base) (leisure : ¬ regime.hurried)
    (reliable : regime.cached → ¬ faulty)
    (run : Relation.ReflTransGen (Step faulty) base engine) :
    Coherent regime engine ∧ engine.own.settings = base.own.settings := by
  induction run with
  | refl => exact ⟨coherent, rfl⟩
  | tail _ step ih =>
    obtain ⟨kept, same⟩ := step.coherent reliable leisure ih.1
    exact ⟨kept, same.trans ih.2⟩

theorem coherent_of_run (run : Relation.ReflTransGen (Step faulty) base engine)
    (reliable : cached → ¬ faulty) (coherent : Coherent (Regime.steady cached) base) :
    Coherent (Regime.steady cached) engine ∧ engine.own.settings = base.own.settings :=
  coherent.of_run (not_hurried_steady cached) reliable run

end Steps

/-- An engine that has just been started over an empty store. -/
def started : Engine :=
  ⟨⟨.empty, .empty, false, .epoch, 0⟩, .start ⟨1⟩ .default [] false, .start⟩

def annReads : Rule :=
  Rule.ofPermission ⟨1⟩ "orders" ⟨"ann", "*", "read", .allow⟩ .epoch

def mayAnnRead : PermissionQuery :=
  ⟨"orders", "ann", "/orders/7", "read", [], true, true, true⟩

def allowed? : Outcome Empty Decision → Option Bool
  | .ok decision => some decision.allowed
  | _ => none

def granting : Engine :=
  (Command.create ⟨1⟩ annReads).perform started.newCall

/-- The engine has cached the answer. -/
def answered : Engine :=
  (Command.checkPermission ⟨1⟩ ⟨"clerk", []⟩ mayAnnRead).perform granting.newCall

theorem run_answered (faulty : Prop) : Relation.ReflTransGen (Step faulty) started answered := by
  have admissible : (Command.create ⟨1⟩ annReads).Admissible started.commons.store :=
    ⟨by decide, rfl⟩
  have created : Step faulty started granting := .call _ admissible
  have checked : Step faulty granting answered := .call _ trivial
  exact (Relation.ReflTransGen.single created).tail checked

section Answers

/-- Queries about a tenant are answered as the reference answers them, apart from the bound. -/
structure AnswersAs (engine : Engine) (tenant : TenantId) (reference : Evaluator) : Prop where
  enforce : ∀ subject service object action, ∃ evaluation : Evaluation,
    (enforce tenant subject service object action engine.newCall).1 = .ok evaluation ∧
      { evaluation with validUntil := none } =
        { reference.enforce subject service object action with validUntil := none }
  rolesOf : ∀ subject, (rolesOf tenant subject engine.newCall).1 = .ok (reference.rolesOf subject)
  permissionsOf : ∀ subject service inherited,
    (permissionsOf tenant subject service inherited engine.newCall).1 =
      .ok (reference.permissionsOf subject service inherited)

/-- A bound is not later than any instant at which one of the rules starts or stops to count. -/
def BoundsChanges (bound : Option Instant) (rules : List Rule) (now : Instant) : Prop :=
  ∀ rule ∈ rules, ∀ later, later.isLeap = false → now ≤ later →
    rule.isActive later ≠ rule.isActive now → ∃ first, bound = some first ∧ first ≤ later

/-- What is asked of a coherent engine is answered by an evaluator that renders the stored rules. -/
theorem Coherent.asked {cached : Prop} (coherent : Coherent (Regime.steady cached) engine)
    {α : Type} (tenant : TenantId) (ask : Evaluator → α) :
    ∃ rendering : Evaluator, rendering.Renders (engine.commons.store.law tenant) engine.now ∧
      ((do Pure.pure (ask (← evaluator tenant)) : Act Engine EvaluatorError α) engine.newCall).1 =
        .ok (ask rendering) := by
  have asked := (yields_ask coherent.newCall.sound coherent.newCall.attends tenant ask).ensures
    (not_hurried_steady cached)
  obtain ⟨_, _, ends, ⟨evaluator, rfl, renders⟩, _⟩ := Leads.exists_ok asked
  exact ⟨evaluator, renders trivial, congrArg Prod.fst ends⟩

theorem boundsChanges_of_steady {bound : Option Instant} {rules : List Rule} {now : Instant}
    (steady : ∀ rule ∈ rules, rule.Steady now bound) : BoundsChanges bound rules now := by
  intro rule member later ordinary order changed
  refine Classical.byContradiction fun missed => changed ?_
  refine steady rule member later ordinary order fun first present => ?_
  exact Instant.not_le.mp fun reached => missed ⟨first, present, reached⟩

/-- In every state of a run the evaluators answer as one that is built anew from the store, and know
when that may end. -/
theorem answersAs_build_of_run {commons : Commons} (sound : commons.store.Sound) {id : Uuid}
    {settings : Settings} {enrichers : Table String Enricher} {auditing : Bool}
    (run : Relation.ReflTransGen (Step True)
      ⟨commons, Replica.start id settings enrichers auditing, .start⟩ engine) (tenant : TenantId) :
    ∃ rules reference, engine.commons.store.find (RuleFilter.ofTenant tenant) = .ok rules ∧
      Evaluator.build tenant rules engine.now = .ok reference ∧
      engine.AnswersAs tenant reference ∧
      ∀ resident, engine.evaluator? tenant = some resident →
        BoundsChanges resident.nextTransition rules engine.now := by
  have start : Coherent (Regime.steady False)
      ⟨commons, Replica.start id settings enrichers auditing, .start⟩ :=
    coherent_start sound id settings enrichers auditing fun impossible => impossible.elim
  have coherent := (coherent_of_run run (fun impossible => impossible.elim) start).1
  have stored := coherent.sound
  obtain ⟨reference, built⟩ := Evaluator.build_of_closes
    (fun _ member => stored.closes_of_mem_law member) tenant engine.now
  have owned : (engine.commons.store.law tenant).filter (·.tenant = tenant) =
      engine.commons.store.law tenant := by
    simp [RuleStore.law]
  have mirrors := owned ▸ Evaluator.mirrors_of_build built
  refine ⟨_, reference, stored.find_ofTenant tenant, built, ⟨?_, ?_, ?_⟩, ?_⟩
  · intro subject service object action
    obtain ⟨evaluator, renders, same⟩ := coherent.asked tenant
      (·.enforce subject service object action)
    refine ⟨_, same, ?_⟩
    rw [renders.mirrors.enforce_eq mirrors]
  · intro subject
    obtain ⟨evaluator, renders, same⟩ := coherent.asked tenant (·.rolesOf subject)
    exact same.trans (congrArg _ (renders.mirrors.rolesOf_eq mirrors subject))
  · intro subject service inherited
    obtain ⟨evaluator, renders, same⟩ := coherent.asked tenant
      (·.permissionsOf subject service inherited)
    exact same.trans (congrArg _ (renders.mirrors.permissionsOf_eq mirrors subject service inherited))
  · intro resident present
    exact boundsChanges_of_steady (coherent.tracks tenant trivial resident present).steady

theorem answersAs_build_of_answered : started.commons.store.Sound ∧
    Relation.ReflTransGen (Step True) started answered ∧
    ∃ rules reference, answered.commons.store.find (RuleFilter.ofTenant ⟨1⟩) = .ok rules ∧
      Evaluator.build ⟨1⟩ rules answered.now = .ok reference ∧ answered.AnswersAs ⟨1⟩ reference ∧
      ∀ resident, answered.evaluator? ⟨1⟩ = some resident →
        BoundsChanges resident.nextTransition rules answered.now :=
  have sound : started.commons.store.Sound := RuleStore.sound_empty
  have run := run_answered True
  ⟨sound, run, answersAs_build_of_run sound run ⟨1⟩⟩

/-- Without a time limit a coherent engine replies to a check that its regime covers what the stored
rules give. -/
theorem Coherent.replies_of_covers (coherent : Coherent regime engine) (leisure : ¬ regime.hurried)
    (unlimited : engine.own.settings.checkTimeout = none) {tenant : TenantId} {caller : Principal}
    {query : PermissionQuery}
    (covers : regime.Covers (query.toRequest tenant caller) query.useCache query.expandRoles) :
    ∃ decision,
      ((checkPermission tenant caller query : Act Engine Empty Decision) engine.newCall).1 =
        .ok decision ∧
      decision.unmarked = (engine.reference tenant).reply engine.own.settings.superadminRole
        (query.toRequest tenant caller) query.expandRoles engine.enrich := by
  have serves : Serves regime engine.newCall engine.newCall := coherent.newCall
  have leisureToo : ¬ (regime.within engine.newCall.own.settings.checkTimeout).hurried := by
    have unlimited : engine.newCall.own.settings.checkTimeout = none := unlimited
    simpa [unlimited, Regime.within, Regime.hurried] using leisure
  have replied := (yields_checkPermission (ε := Empty) serves tenant caller query).ensures leisureToo
  obtain ⟨decision, _, ends, right, _⟩ := Leads.exists_ok replied
  exact ⟨decision, congrArg Prod.fst ends, (right covers).resolve_right fun late => leisureToo late.1⟩

/-- Any reply to a check that the regime covers is what the stored rules give, or it comes too late. -/
theorem Coherent.reply_of_covers (coherent : Coherent regime engine) (leisure : ¬ regime.hurried)
    {tenant : TenantId} {caller : Principal} {query : PermissionQuery}
    (covers : regime.Covers (query.toRequest tenant caller) query.useCache query.expandRoles)
    {reply : Decision}
    (replied : ((checkPermission tenant caller query : Act Engine Empty Decision) engine.newCall).1 =
      .ok reply) :
    reply.unmarked = (engine.reference tenant).reply engine.own.settings.superadminRole
        (query.toRequest tenant caller) query.expandRoles engine.enrich ∨
      engine.own.settings.checkTimeout ≠ none ∧ reply = Decision.deny Reason.deadline := by
  have serves : Serves regime engine.newCall engine.newCall := coherent.newCall
  have known := yields_checkPermission (ε := Empty) serves tenant caller query
  obtain ⟨right, _⟩ := Leads.of_eq_ok known (Prod.ext replied rfl)
  refine (right covers).imp id fun late => ⟨fun unlimited => leisure ?_, late.2⟩
  have hurried := late.1
  have unlimited : engine.newCall.own.settings.checkTimeout = none := unlimited
  simpa [unlimited, Regime.within, Regime.hurried] using hurried

theorem covers_steady (request : CheckRequest) (useCache expand : Bool) :
    (Regime.steady True).Covers request useCache expand :=
  ⟨fun _ => trivial, trivial, fun _ => id, fun _ _ => id⟩

/-- Without a time limit a coherent engine replies what the stored rules give. -/
theorem Coherent.replies (coherent : Coherent (Regime.steady True) engine)
    (unlimited : engine.own.settings.checkTimeout = none) (tenant : TenantId) (caller : Principal)
    (query : PermissionQuery) : ∃ decision,
      ((checkPermission tenant caller query : Act Engine Empty Decision) engine.newCall).1 =
        .ok decision ∧
      decision.unmarked = (engine.reference tenant).reply engine.own.settings.superadminRole
        (query.toRequest tenant caller) query.expandRoles := by
  have replied := coherent.replies_of_covers (not_hurried_steady True) unlimited
    (covers_steady (query.toRequest tenant caller) query.useCache query.expandRoles)
  rw [Serves.enrich_plain coherent trivial not_false] at replied
  exact replied

/-- In every state of a run a check gives the same decision with the cache and without it. -/
theorem cached_eq_uncached_of_run {commons : Commons} (sound : commons.store.Sound) {id : Uuid}
    {settings : Settings} {auditing : Bool} (unlimited : settings.checkTimeout = none)
    (run : Relation.ReflTransGen (Step False)
      ⟨commons, Replica.start id settings [] auditing, .start⟩ engine)
    (tenant : TenantId) (caller : Principal) (query : PermissionQuery) :
    ∃ cached uncached : Decision,
      ((checkPermission tenant caller { query with useCache := true } : Act Engine Empty Decision)
        engine.newCall).1 = .ok cached ∧
      ((checkPermission tenant caller { query with useCache := false } : Act Engine Empty Decision)
        engine.newCall).1 = .ok uncached ∧ cached.Agrees uncached := by
  have start : Coherent (Regime.steady True)
      ⟨commons, Replica.start id settings [] auditing, .start⟩ :=
    coherent_start sound id settings [] auditing fun _ => rfl
  obtain ⟨coherent, same⟩ := coherent_of_run run (fun _ impossible => impossible) start
  have unlimited : engine.own.settings.checkTimeout = none := by
    rw [same]
    exact unlimited
  obtain ⟨cached, first, right⟩ := coherent.replies unlimited tenant caller
    { query with useCache := true }
  obtain ⟨uncached, second, rightToo⟩ := coherent.replies unlimited tenant caller
    { query with useCache := false }
  exact ⟨cached, uncached, first, second,
    Decision.agrees_of_unmarked_eq (right.trans rightToo.symm)⟩

theorem cached_eq_uncached_of_answered : started.commons.store.Sound ∧
    started.own.settings.checkTimeout = none ∧
    Relation.ReflTransGen (Step False) started answered ∧ ∃ cached uncached : Decision,
      ((checkPermission ⟨1⟩ ⟨"clerk", []⟩ { mayAnnRead with useCache := true } :
        Act Engine Empty Decision) answered.newCall).1 = .ok cached ∧
      ((checkPermission ⟨1⟩ ⟨"clerk", []⟩ { mayAnnRead with useCache := false } :
        Act Engine Empty Decision) answered.newCall).1 = .ok uncached ∧ cached.Agrees uncached :=
  have sound : started.commons.store.Sound := RuleStore.sound_empty
  have unlimited : started.own.settings.checkTimeout = none := rfl
  have run := run_answered False
  ⟨sound, unlimited, run, cached_eq_uncached_of_run sound unlimited run ⟨1⟩ ⟨"clerk", []⟩ mayAnnRead⟩

end Answers

end Engine

end AccessPolicy
