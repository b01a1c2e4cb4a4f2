import AccessPolicy.Proofs.Cluster
import AccessPolicy.Proofs.Engine.Lateness
import AccessPolicy.Proofs.Engine.Outage

/-!
Engines over a store that is out of reach at times. Whatever an engine fails to build anew during an
outage it asks for again once the store is back, but for what a change asked of it: a change is taken
from the queue once, and a tenant whose evaluator is left as it was is not asked for again.
-/
namespace AccessPolicy

/-- The evaluator is what the stored rules of a tenant make at an instant. -/
def Evaluator.BuiltFrom (evaluator : Evaluator) (store : RuleStore) (tenant : TenantId)
    (now : Instant) : Prop :=
  ∃ rules, store.find (RuleFilter.ofTenant tenant) = .ok rules ∧
    Evaluator.build tenant rules now = .ok evaluator

section BuiltFrom

variable {evaluator : Evaluator} {store : RuleStore} {tenant : TenantId} {now : Instant}

theorem RuleStore.Sound.exists_builtFrom (sound : store.Sound) (tenant : TenantId) (now : Instant) :
    ∃ evaluator : Evaluator, evaluator.BuiltFrom store tenant now := by
  obtain ⟨evaluator, built⟩ := Evaluator.build_of_closes
    (fun _ member => sound.closes_of_mem_law member) tenant now
  exact ⟨evaluator, _, sound.find_ofTenant tenant, built⟩

theorem Evaluator.BuiltFrom.follows (built : evaluator.BuiltFrom store tenant now)
    (sound : store.Sound) : evaluator.Follows (store.law tenant) now := by
  obtain ⟨rules, found, built⟩ := built
  rw [sound.find_ofTenant, Except.ok.injEq] at found
  subst found
  exact store.filter_law tenant ▸ follows_of_build built

end BuiltFrom

namespace Engine

variable {engine : Engine} {tenant : TenantId} {built : Evaluator}

/-- The engine with one evaluator and no other, and with no time limit for its checks. -/
def equipped (engine : Engine) (tenant : TenantId) (evaluator : Evaluator) : Engine :=
  { engine with own := { engine.own with
    evaluators := [(tenant, evaluator)]
    settings := { engine.own.settings with checkTimeout := none } } }

/-- One tenant has to be right, and nothing that is cached. -/
def Regime.uncached (tenant : TenantId) : Regime :=
  ⟨(· = tenant), False, NoneStale, False, False, False⟩

theorem leisure_uncached (tenant : TenantId) : ¬ (Regime.uncached tenant).hurried := by
  simp [Regime.uncached, Regime.hurried]

theorem coherent_equipped (sound : engine.commons.store.Sound)
    (follows : built.Follows (engine.commons.store.law tenant) engine.now) :
    Coherent (Regime.uncached tenant) (engine.equipped tenant built).newCall := by
  refine coherent_of sound ?_ (fun impossible => impossible.elim) (paced_start _)
  rintro _ rfl evaluator present
  have same : built = evaluator := by
    simpa [equipped, newCall, withTiming, Table.get?] using present
  exact same ▸ follows

/-- A check without the cache is answered by an engine that is right about the tenant as by one that
has just the tenant's evaluator, built from the store. -/
theorem Coherent.answers_as_built (coherent : Coherent (Regime.uncached tenant) engine)
    (caller : Principal) {query : PermissionQuery} (uncached : query.useCache = false) :
    ∃ built answer reply, built.BuiltFrom engine.commons.store tenant engine.now ∧
      ((checkPermission tenant caller query : Act Engine Empty Decision)
        (engine.equipped tenant built).newCall).1 = .ok answer ∧
      ((checkPermission tenant caller query : Act Engine Empty Decision) engine.newCall).1 =
        .ok reply ∧
      (reply.Agrees answer ∨
        engine.own.settings.checkTimeout ≠ none ∧ reply = Decision.deny Reason.deadline) := by
  obtain ⟨built, builds⟩ := coherent.sound.exists_builtFrom tenant engine.now
  have leisure := leisure_uncached tenant
  have covers : (Regime.uncached tenant).Covers (query.toRequest tenant caller) query.useCache
      query.expandRoles := by
    rw [uncached]
    exact ⟨nofun, rfl, nofun, nofun⟩
  obtain ⟨answer, answered, known⟩ := (coherent_equipped coherent.sound
    (builds.follows coherent.sound)).replies_of_covers leisure rfl covers
  obtain ⟨reply, replied⟩ := coherent.exists_reply not_false tenant caller query
  refine ⟨built, answer, reply, builds, answered, replied, ?_⟩
  refine (coherent.reply_of_covers leisure covers replied).imp_left fun right => ?_
  exact Decision.agrees_of_unmarked_eq (right.trans known.symm)

end Engine

namespace Cluster

open Engine

/-- The cluster as it is once the store can be reached. -/
def restored (cluster : Cluster) : Cluster :=
  cluster.withStore (cluster.commons.store.setAvailable true)

def setFindDelay (cluster : Cluster) (millis : Nat) : Cluster :=
  { cluster with commons := { cluster.commons with findDelay := millis } }

/-- What happens to a cluster whose store is out of reach at times, between calls. Its engines have
any settings, and the cache of an engine may become any other. An engine that is watched for a tenant
misses no change of it. -/
inductive FaultyStep (watched : Nat → TenantId → Prop) : Cluster → Cluster → Prop
  | join {cluster : Cluster} (id : Uuid) (settings : Settings) (enrichers : Table String Enricher)
      (auditing : Bool) (fresh : ∀ own ∈ cluster.replicas, own.id ≠ id) :
      FaultyStep watched cluster (cluster.join (.start id settings enrichers auditing))
  | call {cluster : Cluster} {number : Nat} {engine : Engine}
      (present : cluster.engine? number = some engine) (command : Command)
      (admissible : command.Admissible engine.commons.store) :
      FaultyStep watched cluster (cluster.accept number (command.perform engine))
  | announce {cluster : Cluster} {number : Nat} {engine : Engine}
      (present : cluster.engine? number = some engine) (tenant : Option TenantId)
      (reason : ChangeReason) :
      FaultyStep watched cluster (cluster.accept number (announce tenant reason engine).2)
  | take {cluster : Cluster} {number : Nat} {engine : Engine}
      (present : cluster.engine? number = some engine) (change : Change)
      (waiting : change ∈ engine.pending)
      (heard : ∀ tenant, watched number tenant → ¬ engine.Misses change tenant) :
      FaultyStep watched cluster
        (cluster.accept number ((takeChange change : Act Engine Empty Bool) engine).2)
  | again {cluster : Cluster} {number : Nat} {engine : Engine}
      (present : cluster.engine? number = some engine) (change : Change)
      (heard : ∀ tenant, watched number tenant → ¬ engine.Misses change tenant) :
      FaultyStep watched cluster
        (cluster.accept number ((applyChange change : Act Engine Empty Bool) engine).2)
  | deliver {cluster : Cluster} (number : Nat)
      (heard : ∀ engine, cluster.engine? number = some engine → ∀ change ∈ engine.pending,
        ∀ tenant, watched number tenant → ¬ engine.Misses change tenant) :
      FaultyStep watched cluster (cluster.deliverTo number)
  | clock {cluster : Cluster} (now : Instant) (order : cluster.commons.now ≤ now)
      (ordinary : now.isLeap = false) : FaultyStep watched cluster (cluster.setClock now)
  | cache {cluster : Cluster} {number : Nat} {engine : Engine}
      (present : cluster.engine? number = some engine) (backend : CacheBackend) :
      FaultyStep watched cluster (cluster.accept number (engine.withBackend backend))
  | store {cluster : Cluster} (available : Bool) :
      FaultyStep watched cluster
        (cluster.withStore (cluster.commons.store.setAvailable available))
  | delay {cluster : Cluster} (millis : Nat) :
      FaultyStep watched cluster (cluster.setFindDelay millis)

/-- An engine is held to the tenants for which it is watched, and to nothing that it has cached. -/
def watch (watched : Nat → TenantId → Prop) (number : Nat) : Duty :=
  ⟨watched number, False, False⟩

variable {watched : Nat → TenantId → Prop} {duties : Nat → Duty} {cluster after : Cluster}
variable {number : Nat} {engine : Engine} {tenant : TenantId}

theorem engine?_restored (present : cluster.engine? number = some engine) :
    cluster.restored.engine? number = some engine.restored := by
  obtain ⟨own, member, rfl⟩ := engine?_eq_some present
  exact congrArg (Option.map _) member

theorem restored_of_available (reachable : cluster.commons.store.available = true) :
    cluster.restored = cluster := by
  unfold restored RuleStore.setAvailable
  rw [← reachable]
  rfl

/-- The cluster goes on with an engine as it would if the store could be reached. -/
theorem Attuned.accept_restored (attuned : cluster.restored.Attuned duties)
    (present : cluster.engine? number = some engine) {after : Engine}
    (proceeds : engine.restored.Attuned (duties number) → engine.commons.busDown = false →
      Proceeds (duties number) engine.restored after.restored.newCall) :
    (cluster.accept number after).restored.Attuned duties := by
  have right := attuned.of_engine? (engine?_restored present)
  obtain ⟨own, _, rfl⟩ := engine?_eq_some present
  exact attuned.accept (engine?_restored present) (proceeds right attuned.up)

theorem Attuned.setFindDelay (attuned : cluster.Attuned duties) (millis : Nat) :
    (cluster.setFindDelay millis).Attuned duties := by
  refine ⟨attuned.sound, attuned.up, ⟨attuned.apart.ids, attuned.apart.listeners⟩, ?_⟩
  intro number own present
  exact (attuned.attuned number own present).overhear attuned.sound rfl []
    (fun _ _ reaches => ⟨reaches, (List.append_nil _).symm⟩) fun _ => Or.inr (.refl _ _)

/-- Each engine stays right about the tenants for which it is watched, as far as it has been told of
them and the store can be reached. -/
theorem Attuned.faultyStep (attuned : cluster.restored.Attuned (watch watched))
    (step : FaultyStep watched cluster after) : after.restored.Attuned (watch watched) := by
  have careless (number : Nat) : ¬ (watch watched number).cached := fun cached => cached
  cases step with
  | join id settings enrichers auditing fresh =>
    have joins : (cluster.restored.join (.start id settings enrichers auditing)).Attuned
        (watch watched) :=
      attuned.join rfl fresh
        (attuned_listen attuned.sound id (fun bounded => False.elim bounded)
          (fun cached => False.elim cached) auditing)
    exact joins
  | call present command admissible =>
    exact attuned.accept_restored present fun right up =>
      right.perform_restored (careless _) up admissible
  | announce present tenant reason =>
    exact attuned.accept_restored present fun right up => right.announce_restored up tenant reason
  | take present change _ heard =>
    exact attuned.accept_restored present fun right _ =>
      right.takeChange_restored (careless _) change heard
  | again present change heard =>
    exact attuned.accept_restored present fun right _ =>
      right.applyChange_restored (careless _) change heard
  | deliver number heard =>
    unfold deliverTo act?
    cases present : cluster.engine? number with
    | none => exact attuned
    | some engine =>
      exact attuned.accept_restored present fun right _ =>
        right.takeChanges_restored (careless _) (heard engine present)
  | clock now order ordinary => exact attuned.setClock order ordinary
  | cache present backend =>
    exact attuned.accept_restored present fun right _ =>
      right.withBackend_restored (careless _) backend
  | store available => exact attuned
  | delay millis => exact attuned.setFindDelay millis

theorem attuned_of_faultyRun (run : Relation.ReflTransGen (FaultyStep watched) cluster after)
    (attuned : cluster.restored.Attuned (watch watched)) :
    after.restored.Attuned (watch watched) := by
  induction run with
  | refl => exact attuned
  | tail _ step ih => exact ih.faultyStep step

/-- An engine may be watched for a tenant from when its evaluator of it, if it has one, follows the
stored rules. -/
theorem Attuned.rewatch {before : Nat → TenantId → Prop} (attuned : cluster.Attuned (watch before))
    (follows : ∀ number own, cluster.replicas[number]? = some own → ∀ tenant, watched number tenant →
      ∀ evaluator, own.evaluators.get? tenant = some evaluator →
        evaluator.Follows (cluster.commons.store.law tenant) cluster.commons.now) :
    cluster.Attuned (watch watched) := by
  refine ⟨attuned.sound, attuned.up, attuned.apart, fun number own present => ?_⟩
  obtain ⟨hears, _, serves⟩ := attuned.attuned number own present
  refine ⟨hears, fun bounded => False.elim bounded, ?_⟩
  exact coherent_of serves.sound (fun tenant held => follows number own present tenant held.1)
    (fun cached => False.elim cached) (paced_start _)

/-- An engine whose evaluator of a tenant, if it has one, is built from the store, and that misses no
change of the tenant from then on, answers about it, whenever the store can be reached and no change
of it waits, as by an evaluator that is built from the store at that instant. -/
theorem answers_as_built_of_run {commons : Commons} (sound : (commons.store.setAvailable true).Sound)
    (up : commons.busDown = false) {middle : Cluster}
    (history : Relation.ReflTransGen (FaultyStep fun _ _ => False) ⟨commons, []⟩ middle)
    (fresh : ∀ engine evaluator, middle.engine? number = some engine →
      engine.evaluator? tenant = some evaluator →
        evaluator.BuiltFrom (middle.commons.store.setAvailable true) tenant middle.commons.now)
    (run : Relation.ReflTransGen (FaultyStep fun other name => other = number ∧ name = tenant)
      middle cluster)
    (present : cluster.engine? number = some engine)
    (reachable : cluster.commons.store.available = true)
    (idle : ∀ change ∈ engine.pending, ¬ change.AsksFor engine.own.id tenant)
    (caller : Principal) {query : PermissionQuery} (uncached : query.useCache = false) :
    ∃ built answer reply, built.BuiltFrom cluster.commons.store tenant cluster.commons.now ∧
      ((checkPermission tenant caller query : Act Engine Empty Decision)
        (engine.equipped tenant built)).1 = .ok answer ∧
      ((checkPermission tenant caller query : Act Engine Empty Decision) engine).1 = .ok reply ∧
      (reply.Agrees answer ∨
        engine.own.settings.checkTimeout ≠ none ∧ reply = Decision.deny Reason.deadline) := by
  -- Up to the state in the middle nobody is watched, from there on the engine is for the tenant.
  have start : (Cluster.restored ⟨commons, []⟩).Attuned (watch fun _ _ => False) :=
    attuned_nil sound up
  have before := attuned_of_faultyRun history start
  have halfway : middle.restored.Attuned
      (watch fun other name => other = number ∧ name = tenant) := by
    apply before.rewatch
    rintro _ own found _ ⟨rfl, rfl⟩ evaluator held
    have present := congrArg (Option.map fun own => (⟨middle.commons, own, .start⟩ : Engine)) found
    exact (fresh _ evaluator present held).follows before.sound
  have attuned := attuned_of_faultyRun run halfway
  rw [restored_of_available reachable] at attuned
  have right := attuned.of_engine? present
  obtain ⟨own, _, rfl⟩ := engine?_eq_some present
  have coherent : Coherent (Regime.uncached tenant) ⟨cluster.commons, own, .start⟩ := by
    apply right.serves.mono
    rintro _ rfl
    exact ⟨⟨rfl, rfl⟩, idle⟩
  exact coherent.answers_as_built caller uncached

section Pair

/-- What happens without outages happens also where nobody is watched. -/
theorem FaultyStep.of_step (step : Step cluster after) :
    FaultyStep (fun _ _ => False) cluster after := by
  cases step with
  | join id settings auditing fresh _ => exact .join id settings [] auditing fresh
  | call present command admissible => exact .call present command admissible
  | take present change waiting => exact .take present change waiting fun _ => False.elim
  | again present change => exact .again present change fun _ => False.elim
  | deliver number => exact .deliver number fun _ _ _ _ _ => False.elim
  | clock now order ordinary => exact .clock now order ordinary
  | elapse present nanos => exact .cache present _

def mayAnnReadNow : PermissionQuery :=
  { mayAnnRead with useCache := false }

/-- The first engine has learned that Ann may read, and then the store goes out of reach. -/
def pairCut : Cluster :=
  pairGranting.withStore (pairGranting.commons.store.setAvailable false)

/-- The second engine is told in vain to take up the rules anew. -/
def pairForced : Cluster :=
  pairCut.accept 1 ((Command.sync ⟨1⟩ none true).perform pairCut.second)

def pairReached : Cluster :=
  pairForced.withStore (pairForced.commons.store.setAvailable true)

/-- The store is back, and the second engine has heard of the rule. -/
def pairInformed : Cluster :=
  pairReached.deliverTo 1

theorem run_pairInformed : Relation.ReflTransGen
    (FaultyStep fun other name => other = 1 ∧ name = ⟨1⟩) ⟨started.commons, []⟩ pairInformed := by
  let watched (other : Nat) (name : TenantId) : Prop := other = 1 ∧ name = ⟨1⟩
  have one : FaultyStep watched ⟨started.commons, []⟩
      (join ⟨started.commons, []⟩ (.start ⟨1⟩ .default [] false)) :=
    .join ⟨1⟩ .default [] false (by decide)
  have two : FaultyStep watched (join ⟨started.commons, []⟩ (.start ⟨1⟩ .default [] false)) pair :=
    .join ⟨2⟩ .default [] false (by decide)
  have refused : FaultyStep watched pair pairRefusing := .call rfl _ trivial
  have admissible : (Command.create ⟨1⟩ annReads).Admissible pairRefusing.first.commons.store := by
    refine ⟨by decide, ?_⟩
    unfold RuleStore.HasRoom
    decide +kernel
  have granted : FaultyStep watched pairRefusing pairGranting := .call rfl _ admissible
  have cut : FaultyStep watched pairGranting pairCut := .store false
  have forced : FaultyStep watched pairCut pairForced := .call rfl _ trivial
  have back : FaultyStep watched pairForced pairReached := .store true
  have informed : FaultyStep watched pairReached pairInformed := by
    apply FaultyStep.deliver
    rintro _ ⟨⟩ _ _ _ _ ⟨severed, _⟩
    cases severed
  exact (((((((Relation.ReflTransGen.single one).tail two).tail refused).tail granted).tail cut).tail
    forced).tail back).tail informed

theorem answers_as_built_of_pairInformed :
    (started.commons.store.setAvailable true).Sound ∧ started.commons.busDown = false ∧
    Relation.ReflTransGen (FaultyStep fun _ _ => False) ⟨started.commons, []⟩ ⟨started.commons, []⟩ ∧
    (∀ engine evaluator, engine? ⟨started.commons, []⟩ 1 = some engine →
      engine.evaluator? ⟨1⟩ = some evaluator →
        evaluator.BuiltFrom (started.commons.store.setAvailable true) ⟨1⟩ started.commons.now) ∧
    Relation.ReflTransGen (FaultyStep fun other name => other = 1 ∧ name = ⟨1⟩)
      ⟨started.commons, []⟩ pairInformed ∧
    pairInformed.engine? 1 = some pairInformed.second ∧
    pairInformed.commons.store.available = true ∧
    (∀ change ∈ pairInformed.second.pending,
      ¬ change.AsksFor pairInformed.second.own.id ⟨1⟩) ∧ mayAnnReadNow.useCache = false ∧
    ∃ built answer reply,
      built.BuiltFrom pairInformed.commons.store ⟨1⟩ pairInformed.commons.now ∧
      ((checkPermission ⟨1⟩ ⟨"clerk", []⟩ mayAnnReadNow : Act Engine Empty Decision)
        (pairInformed.second.equipped ⟨1⟩ built)).1 = .ok answer ∧
      ((checkPermission ⟨1⟩ ⟨"clerk", []⟩ mayAnnReadNow : Act Engine Empty Decision)
        pairInformed.second).1 = .ok reply ∧
      (reply.Agrees answer ∨ pairInformed.second.own.settings.checkTimeout ≠ none ∧
        reply = Decision.deny Reason.deadline) := by
  have sound : (started.commons.store.setAvailable true).Sound := RuleStore.sound_empty
  have fresh : ∀ engine evaluator, engine? ⟨started.commons, []⟩ 1 = some engine →
      engine.evaluator? ⟨1⟩ = some evaluator →
        evaluator.BuiltFrom (started.commons.store.setAvailable true) ⟨1⟩ started.commons.now :=
    fun _ _ impossible => nomatch impossible
  have run := run_pairInformed
  have present : pairInformed.engine? 1 = some pairInformed.second := rfl
  have reachable : pairInformed.commons.store.available = true := by decide +kernel
  have idle : pairInformed.second.pending = [] := by decide +kernel
  have quiet : ∀ change ∈ pairInformed.second.pending,
      ¬ change.AsksFor pairInformed.second.own.id ⟨1⟩ := by
    rw [idle]
    exact fun _ impossible => nomatch impossible
  exact ⟨sound, rfl, .refl, fresh, run, present, reachable, quiet, rfl,
    answers_as_built_of_run sound rfl .refl fresh run present reachable quiet ⟨"clerk", []⟩ rfl⟩

/-- Ann may no longer read, and then the store goes out of reach. -/
def pairRevoked : Cluster :=
  let deleted := pairAgreed.accept 0 ((Command.delete ⟨1⟩ [⟨1⟩]).perform pairAgreed.first)
  deleted.withStore (deleted.commons.store.setAvailable false)

/-- The second engine has heard of that during the outage, and the store is back. -/
def pairMissing : Cluster :=
  let heard := pairRevoked.deliverTo 1
  heard.withStore (heard.commons.store.setAvailable true)

/-- After the outage the second engine lets Ann read, where an evaluator that is built from the store
does not. No change waits for it, and it does not ask for the rules again. -/
theorem allowed_of_pairMissing :
    Relation.ReflTransGen (FaultyStep fun _ _ => False) ⟨started.commons, []⟩ pairRevoked ∧
    (∃ change ∈ pairRevoked.second.pending, pairRevoked.second.Misses change ⟨1⟩) ∧
    Relation.ReflTransGen (FaultyStep fun _ _ => False) pairRevoked pairMissing ∧
    pairMissing.engine? 1 = some pairMissing.second ∧
    pairMissing.commons.store.available = true ∧ pairMissing.second.pending = [] ∧
    allowed? ((checkPermission ⟨1⟩ ⟨"clerk", []⟩ mayAnnReadNow : Act Engine Empty Decision)
      pairMissing.second).1 = some true ∧
    ∃ built, built.BuiltFrom pairMissing.commons.store ⟨1⟩ pairMissing.commons.now ∧
      allowed? ((checkPermission ⟨1⟩ ⟨"clerk", []⟩ mayAnnReadNow : Act Engine Empty Decision)
        (pairMissing.second.equipped ⟨1⟩ built)).1 = some false := by
  have agreed : Relation.ReflTransGen (FaultyStep fun _ _ => False) ⟨started.commons, []⟩ pairAgreed :=
    run_pairAgreed.lift id fun _ _ => FaultyStep.of_step
  have deleted : FaultyStep (fun _ _ => False) pairAgreed
      (pairAgreed.accept 0 ((Command.delete ⟨1⟩ [⟨1⟩]).perform pairAgreed.first)) :=
    .call rfl (.delete ⟨1⟩ [⟨1⟩]) trivial
  have heard : FaultyStep (fun _ _ => False) pairRevoked (pairRevoked.deliverTo 1) :=
    .deliver 1 fun _ _ _ _ _ => False.elim
  have misses : pairRevoked.second.Misses ⟨⟨1⟩, some ⟨1⟩, .rulesDeleted⟩ ⟨1⟩ := by
    refine ⟨rfl, ⟨by decide +kernel, Or.inr rfl⟩, Option.isSome_iff_exists.mp ?_⟩
    decide +kernel
  have reachable : pairMissing.commons.store.available = true := rfl
  have rows : pairMissing.commons.store.rows = [] := by decide +kernel
  have found : pairMissing.commons.store.find (RuleFilter.ofTenant ⟨1⟩) = .ok [] := by
    unfold RuleStore.find
    rw [reachable, rows]
    rfl
  refine ⟨(agreed.tail deleted).tail (.store false), ⟨_, ?_, misses⟩,
    (Relation.ReflTransGen.single heard).tail (.store true), rfl, reachable, ?_, ?_,
    Evaluator.bare ⟨1⟩ none pairMissing.commons.now, ⟨[], found, rfl⟩, ?_⟩
  · decide +kernel
  · decide +kernel
  · decide +kernel
  · decide +kernel

end Pair

end Cluster

end AccessPolicy
