import AccessPolicy.Proofs.Engine.Attuned
import AccessPolicy.Proofs.Engine.Footprint

/-!
An engine whose store is out of reach. What asks for the store is refused, so that nothing is built
and nothing is written: an evaluator that cannot be built anew goes on serving, and what it holds when
the store is back is what it held before.
-/
namespace AccessPolicy

namespace Engine

open Act hiding pure bind state

variable {ε δ α β : Type} {base engine after : Engine} {tenant : TenantId}

/-- The store is out of reach. -/
def Severed (engine : Engine) : Prop :=
  engine.commons.store.available = false

/-- The engine as it is once the store can be reached. -/
def restored (engine : Engine) : Engine :=
  engine.withStore (engine.commons.store.setAvailable true)

section Waiting

variable {regime : Regime}

/-- Time has gone by and the cache has changed, but nothing else has. -/
def Tarries (regime : Regime) (base engine : Engine) : Prop :=
  ∃ timing cache, Paced regime timing ∧ engine = (base.withTiming timing).withCache cache

theorem tarries_refl (paced : Paced regime engine.timing) : Tarries regime engine engine :=
  ⟨engine.timing, engine.own.cache, paced, rfl⟩

theorem Tarries.paced (tarries : Tarries regime base engine) : Paced regime engine.timing := by
  obtain ⟨timing, cache, paced, rfl⟩ := tarries
  exact paced

theorem Tarries.severed (tarries : Tarries regime base engine) (severed : base.Severed) :
    engine.Severed := by
  obtain ⟨timing, cache, _, rfl⟩ := tarries
  exact severed

theorem Tarries.withTiming (tarries : Tarries regime base engine) {timing : Timing}
    (paced : Paced regime timing) : Tarries regime base (engine.withTiming timing) := by
  obtain ⟨_, cache, _, rfl⟩ := tarries
  exact ⟨timing, cache, paced, rfl⟩

theorem Tarries.withCache (tarries : Tarries regime base engine) (cache : DecisionCache) :
    Tarries regime base (engine.withCache cache) := by
  obtain ⟨timing, _, paced, rfl⟩ := tarries
  exact ⟨timing, cache, paced, rfl⟩

theorem Tarries.trans {middle : Engine} (tarries : Tarries regime base middle)
    (more : Tarries regime middle engine) : Tarries regime base engine := by
  obtain ⟨_, _, _, rfl⟩ := tarries
  obtain ⟨timing, cache, paced, rfl⟩ := more
  exact ⟨timing, cache, paced, rfl⟩

theorem leads_find_severed (severed : engine.Severed) (paced : Paced regime engine.timing)
    (filter : RuleFilter) :
    Leads (find filter) engine (fun _ _ => False) (fun _ => Tarries regime engine)
      (fun after => regime.hurried ∧ Tarries regime engine after) := by
  have waits := (tarries_refl paced).withTiming (paced_goTo paced
    (engine.timing.elapsed + engine.commons.findDelay))
  have refused : engine.commons.store.find filter = .error .unavailable := by
    have severed : engine.commons.store.available = false := severed
    simp [RuleStore.find, severed]
  apply leads_read
  rw [refused]
  apply Leads.bind (leads_waitUntil paced _)
  · rintro _ _ rfl
    exact leads_fail waits
  · exact fun _ _ impossible => impossible.elim
  · rintro _ ⟨hurried, rfl⟩
    exact ⟨hurried, waits⟩

/-- No evaluator is built during an outage. -/
theorem leads_rebuild_severed (severed : engine.Severed) (paced : Paced regime engine.timing)
    (tenant : TenantId) :
    Leads (rebuild tenant) engine (fun _ _ => False) (fun _ => Tarries regime engine)
      (fun after => regime.hurried ∧ Tarries regime engine after) := by
  have builds : Leads (buildEvaluator tenant) engine (fun _ _ => False)
      (fun _ => Tarries regime engine) (fun after => regime.hurried ∧ Tarries regime engine after) := by
    have finds : Leads ((find (RuleFilter.ofTenant tenant)).mapError EvaluatorError.store) engine
        (fun _ _ => False) (fun _ => Tarries regime engine)
        (fun after => regime.hurried ∧ Tarries regime engine after) :=
      leads_mapError (leads_find_severed severed paced _)
    exact leads_read (finds.bind (fun _ _ impossible => impossible.elim) (fun _ _ tarries => tarries)
      fun _ ends => ends)
  have ends : Leads (buildEvaluator tenant >>= fun evaluator =>
      setEvaluator tenant evaluator >>= fun _ => Pure.pure evaluator) engine (fun _ _ => False)
      (fun _ => Tarries regime engine) (fun after => regime.hurried ∧ Tarries regime engine after) :=
    builds.bind (fun _ _ impossible => impossible.elim) (fun _ _ tarries => tarries)
      fun _ ends => ends
  have noted {final : Engine} (tarries : Tarries regime engine final) :
      Tarries regime engine (final.withTiming (final.timing.endBuild tenant)) :=
    tarries.withTiming ⟨tarries.paced.deadline, tarries.paced.last⟩
  exact leads_timingBuild ends (fun _ _ impossible => impossible.elim) (fun _ _ tarries => noted tarries)
    fun _ ends => ⟨ends.1, noted ends.2⟩

theorem yields_reload_severed (severed : engine.Severed) (paced : Paced regime engine.timing)
    (tenant : TenantId) :
    Yields (Tarries regime engine) regime.hurried
      ((reload tenant).attempt : Act Engine δ (Except EvaluatorError Bool)) engine
      (fun _ _ => True) := by
  apply leads_attempt
  apply leads_read
  split
  · exact leads_pure ⟨trivial, tarries_refl paced⟩
  · apply Leads.bind (leads_rebuild_severed severed paced tenant)
    · exact fun _ _ impossible => impossible.elim
    · exact fun _ _ tarries => ⟨trivial, tarries⟩
    · exact fun _ ends => ends

theorem yields_reloadEach_severed (tenants : List TenantId) {engine : Engine}
    (severed : engine.Severed) (paced : Paced regime engine.timing) :
    Yields (Tarries regime engine) regime.hurried
      (reloadEach tenants : Act Engine δ (List TenantId)) engine (fun _ _ => True) := by
  induction tenants generalizing engine with
  | nil => exact yields_pure (tarries_refl paced) trivial
  | cons tenant rest ih =>
    apply (yields_reload_severed severed paced tenant).bind
    intro reloaded middle tarries _
    have onward := (ih (tarries.severed severed) tarries.paced).weaken fun _ => tarries.trans
    split
    · exact onward.bind fun _ _ kept _ => yields_pure kept trivial
    · exact onward

/-- A change that arrives during an outage changes no evaluator. -/
theorem exists_applyChange_severed (severed : engine.Severed) (paced : Paced regime engine.timing)
    (leisure : ¬ regime.hurried) (change : Change) :
    ∃ applied after, (applyChange change : Act Engine ε Bool) engine = (.ok applied, after) ∧
      Tarries regime engine after := by
  apply Leads.exists_ok
  apply leads_read
  split
  · exact leads_pure (tarries_refl paced)
  · cases change.tenant with
    | some tenant =>
      apply ((yields_reload_severed severed paced tenant).ensures leisure).bind
      intro _ middle ends
      exact leads_bind (leads_onCache (leads_pure (ends.2.withCache _)))
    | none =>
      have reloads : Yields (Tarries regime engine) regime.hurried
          (reloadAll : Act Engine ε (List TenantId)) engine (fun _ _ => True) :=
        yields_read (yields_reloadEach_severed _ severed paced)
      apply (reloads.ensures leisure).bind
      intro _ middle ends
      exact leads_bind (leads_onCache (leads_pure (ends.2.withCache _)))

theorem exists_applyEach_severed (listener : Listener) (changes : List Change) {engine : Engine}
    (severed : engine.Severed) (paced : Paced regime engine.timing) (leisure : ¬ regime.hurried) :
    ∃ after, (applyEach listener changes : Act Engine ε Unit) engine = (.ok (), after) ∧
      Tarries regime engine after := by
  induction changes generalizing engine with
  | nil => exact ⟨engine, rfl, tarries_refl paced⟩
  | cons change rest ih =>
    obtain ⟨_, next, first, tarries⟩ := exists_applyChange_severed (ε := ε) severed paced leisure change
    obtain ⟨after, ends, more⟩ := ih (tarries.severed severed) tarries.paced
    refine ⟨after, ?_, tarries.trans more⟩
    unfold applyEach
    dsimp only
    rw [first]
    exact ends

end Waiting

section Calls

/-- What an engine shares with others, and what it has been given, is as it was, and it has no
evaluator that it did not have. -/
structure Endures (base engine : Engine) : Prop where
  commons : engine.commons = base.commons
  fixed : engine.fixed = base.fixed
  evaluators : ∀ tenant evaluator, engine.evaluator? tenant = some evaluator →
    base.evaluator? tenant = some evaluator

theorem endures_refl (engine : Engine) : Endures engine engine :=
  ⟨rfl, rfl, fun _ _ => id⟩

theorem Endures.severed (endures : Endures base engine) (severed : base.Severed) :
    engine.Severed := by
  unfold Severed
  rw [endures.commons]
  exact severed

theorem Endures.tarries {regime : Regime} (endures : Endures base engine)
    (tarries : Tarries regime engine after) : Endures base after := by
  obtain ⟨timing, cache, _, rfl⟩ := tarries
  exact ⟨endures.commons, endures.fixed, endures.evaluators⟩

theorem Endures.withStore (endures : Endures base engine) {store : RuleStore}
    (same : store = engine.commons.store) : Endures base (engine.withStore store) := by
  subst same
  exact endures

/-- During an outage the action gives no value, since it asks for the store. -/
def Refused (base : Engine) (action : Act Engine ε α) : Prop :=
  ∀ engine, Endures base engine →
    Leads action engine (fun _ _ => False) (fun _ => Endures base) (Endures base)

section Refused

variable {action : Act Engine ε α} {next : α → Act Engine ε β}

theorem Refused.preserves (refused : Refused base action) : Preserves (Endures base) action :=
  preserves_of_leads fun engine endures => (refused engine endures).mono
    (fun _ _ impossible => impossible.elim) (fun _ _ ends => ends) fun _ ends => ends

theorem Refused.mapError (refused : Refused base action) (say : ε → δ) :
    Refused base (action.mapError say) :=
  fun engine endures => leads_mapError (refused engine endures)

theorem Refused.bind (refused : Refused base action) : Refused base (action >>= next) :=
  fun engine endures => (refused engine endures).bind (fun _ _ impossible => impossible.elim)
    (fun _ _ ends => ends) fun _ ends => ends

theorem refused_after (refused : ∀ value, Refused base (next value))
    (preserves : Preserves (Endures base) action) : Refused base (action >>= next) :=
  fun _ endures => (preserves.leads endures).bind (fun value middle => refused value middle)
    (fun _ _ ends => ends) fun _ ends => ends

theorem refused_read {next : Engine → Act Engine ε β} (refused : ∀ seen, Refused base (next seen)) :
    Refused base (Act.state >>= next) :=
  fun engine endures => refused engine engine endures

end Refused

variable (severed : base.Severed)
include severed

theorem refused_find (filter : RuleFilter) : Refused base (find filter) := by
  intro engine endures
  apply (leads_find_severed (endures.severed severed) (paced_pressed _) filter).mono
  · exact fun _ _ impossible => impossible
  · exact fun _ _ tarries => endures.tarries tarries
  · exact fun _ ends => endures.tarries ends.2

theorem refused_onStore {step : RuleStore → Except StoreError α × RuleStore}
    (refuses : ∀ store : RuleStore, store.available = false → step store = (.error .unavailable, store)) :
    Refused base (onStore step) := by
  intro engine endures
  unfold Leads Ends onStore
  rw [refuses _ (endures.severed severed)]
  exact endures

theorem refused_load (id : RuleId) : Refused base (load tenant id) :=
  ((refused_onStore severed fun store severed => by simp [RuleStore.get, severed]).mapError _).bind

theorem refused_requireValid (rule : Rule) : Refused base (requireValid tenant rule) :=
  (refused_read fun _ => ((refused_find severed _).mapError _).bind).bind

theorem admits_endures : AdmitsDecisions (Endures base) (fun _ => True) where
  timing := fun _ endures => ⟨endures.commons, endures.fixed, endures.evaluators⟩
  rebuild := fun {tenant} _ => preserves_of_leads fun _ endures =>
    (leads_rebuild_severed (endures.severed severed) (paced_pressed _) tenant).mono
      (fun _ _ impossible => impossible.elim) (fun _ _ tarries => endures.tarries tarries)
      fun _ ends => endures.tarries ends.2
  drop := fun {engine tenant} _ endures => by
    refine ⟨endures.commons, endures.fixed, fun other evaluator present => ?_⟩
    replace present : (engine.own.evaluators.erase tenant).get? other = some evaluator := present
    by_cases same : other = tenant
    · rw [same, Table.get?_erase_self] at present
      cases present
    · rw [Table.get?_erase_of_ne _ same] at present
      exact endures.evaluators other evaluator present
  forget := fun _ _ endures => ⟨endures.commons, endures.fixed, endures.evaluators⟩
  recordUsage := fun {engine tenant} ids now _ endures => endures.withStore (by
    have severed : engine.commons.store.available = false := endures.severed severed
    simp [RuleStore.recordUsage, severed])
  keep := fun _ _ _ _ _ _ _ endures => ⟨endures.commons, endures.fixed, endures.evaluators⟩
  audit := fun _ endures => ⟨endures.commons, endures.fixed, endures.evaluators⟩

omit severed in
theorem preserves_requireTenant (rule : Rule) :
    Preserves (Endures base) (requireTenant tenant rule) := by
  unfold requireTenant
  split
  · exact preserves_pure _
  · exact preserves_fail _

theorem refused_create (rule : Rule) : Refused base (create tenant rule) :=
  refused_after (fun _ => (refused_requireValid severed rule).bind) (preserves_requireTenant rule)

theorem refused_update (rule : Rule) : Refused base (update tenant rule) :=
  refused_after (fun _ => (refused_load severed rule.id).bind) (preserves_requireTenant rule)

theorem preserves_delete (ids : List RuleId) : Preserves (Endures base) (delete tenant ids) := by
  apply preserves_of_leads
  intro engine endures
  have removes : Leads (removeEach tenant ids : Act Engine ServiceError (List Rule × Option StoreError))
      engine (fun result after => result.1 = [] ∧ Endures base after) (fun _ => Endures base)
      (Endures base) := by
    cases ids with
    | nil => exact leads_pure ⟨rfl, endures⟩
    | cons id rest =>
      have refused : Refused base (onStore (fun store => store.delete tenant id)) :=
        refused_onStore severed fun store severed => by simp [RuleStore.delete, severed]
      apply leads_bind
      apply leads_attempt
      apply (refused engine endures).mono
      · exact fun _ _ impossible => impossible.elim
      · exact fun _ _ ends => leads_pure ⟨rfl, ends⟩
      · exact fun _ ends => ends
  apply removes.bind
  · rintro ⟨_, failure⟩ middle ⟨rfl, ends⟩
    cases failure with
    | some fault => exact leads_fail ends
    | none => exact leads_pure ends
  · exact fun _ _ ends => ends
  · exact fun _ ends => ends

theorem preserves_sync (service : Option String) (force : Bool) :
    Preserves (Endures base) (sync tenant service force) := by
  have admits := admits_endures severed
  apply preserves_either ((admits.reload trivial).mapError _) (preserves_pure _)
  intro reloaded
  apply preserves_when ((admits.evaluator trivial).mapError _)
  exact (refused_read fun _ => ((refused_find severed _).mapError _).bind).preserves

/-- A call during an outage leaves what it finds. -/
theorem endures_perform (command : Command) : Endures base (command.perform base) := by
  have admits := admits_endures severed
  have start := endures_refl base
  cases command with
  | create tenant rule => exact (refused_create severed rule).preserves base start
  | update tenant rule => exact (refused_update severed rule).preserves base start
  | delete tenant ids => exact preserves_delete severed ids base start
  | approve tenant id approver => exact (refused_load severed id).bind.preserves base start
  | reject tenant id approver => exact (refused_load severed id).bind.preserves base start
  | expire =>
    exact (refused_read fun _ => ((refused_find severed _).mapError _).bind).preserves base start
  | sync tenant service force => exact preserves_sync severed service force base start
  | refresh tenant type service => exact admits.refresh trivial type service base start
  | validate tenant rule conflicts => exact admits.validate tenant rule conflicts base start
  | summary tenant user service inherited =>
    exact admits.summary trivial user service inherited base start
  | check request options expand => exact admits.check trivial options expand base start
  | checkPermission tenant caller query => exact admits.checkPermission trivial caller query base start
  | batch requests options failFast =>
    exact admits.batch (fun _ _ => trivial) options failFast base start
  | batchPermission tenant caller queries failFast =>
    exact admits.batchPermission trivial caller queries failFast base start

end Calls

section Following

variable {duty : Duty}

/-- The change asks for a tenant of which the engine has an evaluator, which cannot be built anew. -/
def Misses (engine : Engine) (change : Change) (tenant : TenantId) : Prop :=
  engine.Severed ∧ change.AsksFor engine.own.id tenant ∧
    ∃ evaluator, engine.evaluator? tenant = some evaluator

theorem absent_of_heard {changes : List Change} (severed : engine.Severed)
    (heard : ∀ change ∈ changes, ∀ tenant, duty.tenants tenant → ¬ engine.Misses change tenant) :
    ∀ change ∈ changes, ∀ tenant, duty.tenants tenant → change.AsksFor engine.own.id tenant →
      engine.evaluator? tenant = none := by
  intro change member tenant held asks
  cases present : engine.evaluator? tenant with
  | none => rfl
  | some evaluator => exact absurd ⟨severed, asks, evaluator, present⟩ (heard change member tenant held)

theorem restored_eq (reachable : engine.commons.store.available = true) :
    engine.restored = engine := by
  unfold restored RuleStore.setAvailable
  rw [← reachable]
  rfl

theorem Proceeds.newCall (proceeds : Proceeds duty engine after) :
    Proceeds duty engine after.newCall :=
  ⟨proceeds.attuned.newCall, proceeds.fixed, proceeds.beside⟩

theorem Proceeds.restored (proceeds : Proceeds duty engine after)
    (reachable : engine.commons.store.available = true) :
    Proceeds duty engine.restored after.restored.newCall := by
  rw [restored_eq reachable, restored_eq proceeds.attuned.serves.sound.available]
  exact proceeds.newCall

variable (attuned : engine.restored.Attuned duty)
include attuned

theorem Attuned.announce_restored (up : engine.commons.busDown = false)
    (tenant : Option TenantId) (reason : ChangeReason) :
    Proceeds duty engine.restored (Engine.announce tenant reason engine).2.restored.newCall := by
  have upToo : engine.restored.commons.busDown = false := up
  have proceeds := (attuned.announce upToo tenant reason).newCall
  rw [announce_of_up upToo] at proceeds
  rw [announce_of_up up]
  exact proceeds

variable (careless : ¬ duty.cached)
include careless

theorem Attuned.withBackend_restored (backend : CacheBackend) :
    Proceeds duty engine.restored (engine.withBackend backend).restored.newCall :=
  (attuned.withBackend fun cached => absurd cached careless).newCall

/-- An engine that gets no new evaluator stays right about its tenants, also if it lets go of changes
that ask for others or for what it does not have. -/
theorem Attuned.endure {number : Nat} (listens : engine.own.listener = some ⟨number, true⟩)
    (reaches : engine.commons.bus.Reaches number) (edit : List Change → List Change)
    (changes : List Change)
    (kept : ∀ change ∈ engine.commons.bus.waiting number,
      change ∈ changes ∨ change ∈ edit (engine.commons.bus.waiting number))
    (absent : ∀ change ∈ changes, ∀ tenant, duty.tenants tenant →
      change.AsksFor engine.own.id tenant → engine.evaluator? tenant = none)
    (endures : Endures (engine.withBus (engine.commons.bus.requeue number edit)) after) :
    Proceeds duty engine.restored after.restored.newCall := by
  have commons : after.restored.newCall.commons =
      (engine.restored.withBus (engine.commons.bus.requeue number edit)).commons :=
    congrArg (fun commons : Commons => { commons with store := commons.store.setAvailable true })
      endures.commons
  have now : after.restored.newCall.now =
      (engine.restored.withBus (engine.commons.bus.requeue number edit)).now :=
    congrArg Commons.now commons
  apply attuned.apply listens reaches edit changes kept
  refine ⟨coherent_of ?_ ?_ (fun cached => absurd cached careless) (paced_start _), commons,
    endures.fixed⟩
  · rw [commons]
    exact attuned.serves.sound
  · rintro tenant held evaluator present
    have before : engine.evaluator? tenant = some evaluator :=
      endures.evaluators tenant evaluator present
    rw [commons, now]
    rcases held with right | ⟨wanted, change, member, asks⟩
    · exact attuned.serves.tracks tenant right evaluator before
    · rw [absent change member tenant wanted asks] at before
      cases before

theorem Attuned.perform_restored (up : engine.commons.busDown = false) {command : Command}
    (admissible : command.Admissible engine.commons.store) :
    Proceeds duty engine.restored (command.perform engine).restored.newCall := by
  cases reach : engine.commons.store.available with
  | true =>
    rw [restored_eq reach] at attuned
    exact (attuned.perform up admissible).restored reach
  | false =>
    obtain ⟨number, listens, reaches⟩ := attuned.hears
    apply attuned.endure careless listens reaches id [] (fun _ => Or.inr)
    · exact fun _ impossible => nomatch impossible
    · rw [Bus.requeue_id]
      exact endures_perform reach command

/-- A change that is applied during an outage does no harm where it misses nothing. -/
theorem Attuned.applyChange_restored (change : Change)
    (heard : ∀ tenant, duty.tenants tenant → ¬ engine.Misses change tenant) :
    Proceeds duty engine.restored
      ((Engine.applyChange change : Act Engine Empty Bool) engine).2.restored.newCall := by
  cases reach : engine.commons.store.available with
  | true =>
    rw [restored_eq reach] at attuned
    exact (attuned.applyChange change).restored reach
  | false =>
    obtain ⟨number, listens, reaches⟩ := attuned.hears
    obtain ⟨_, after, ends, tarries⟩ := exists_applyChange_severed (ε := Empty) reach
      attuned.serves.paced (leisure_settled duty engine.restored) change
    rw [ends]
    apply attuned.endure careless listens reaches id [change] (fun _ => Or.inr)
      (absent_of_heard reach (List.forall_mem_singleton.mpr heard))
    rw [Bus.requeue_id]
    exact (endures_refl engine).tarries tarries

theorem Attuned.takeChange_restored (change : Change)
    (heard : ∀ tenant, duty.tenants tenant → ¬ engine.Misses change tenant) :
    Proceeds duty engine.restored
      ((Engine.takeChange change : Act Engine Empty Bool) engine).2.restored.newCall := by
  cases reach : engine.commons.store.available with
  | true =>
    rw [restored_eq reach] at attuned
    exact (attuned.takeChange change).restored reach
  | false =>
    obtain ⟨number, listens, reaches⟩ := attuned.hears
    have listensToo : engine.own.listener = some ⟨number, true⟩ := listens
    let left := engine.withBus (engine.commons.bus.requeue number (·.erase change))
    have severed : left.Severed := reach
    obtain ⟨_, after, ends, tarries⟩ := exists_applyChange_severed (ε := Empty) severed
      attuned.serves.paced (leisure_settled duty engine.restored) change
    rw [takeChange_of_listener listensToo, ends]
    exact attuned.endure careless listens reaches (·.erase change) [change]
      (fun _ => mem_singleton_or_mem_erase)
      (absent_of_heard reach (List.forall_mem_singleton.mpr heard))
      ((endures_refl left).tarries tarries)

theorem Attuned.takeChanges_restored
    (heard : ∀ change ∈ engine.pending, ∀ tenant, duty.tenants tenant →
      ¬ engine.Misses change tenant) :
    Proceeds duty engine.restored
      ((Engine.takeChanges : Act Engine Empty Unit) engine).2.restored.newCall := by
  cases reach : engine.commons.store.available with
  | true =>
    rw [restored_eq reach] at attuned
    exact attuned.takeChanges.restored reach
  | false =>
    obtain ⟨number, listens, reaches⟩ := attuned.hears
    have listensToo : engine.own.listener = some ⟨number, true⟩ := listens
    let left := engine.withBus (engine.commons.bus.clear number)
    have severed : left.Severed := reach
    obtain ⟨after, ends, tarries⟩ := exists_applyEach_severed (ε := Empty) ⟨number, true⟩
      (engine.commons.bus.waiting number) severed attuned.serves.paced
      (leisure_settled duty engine.restored)
    rw [takeChanges_of_listener listensToo, ends]
    rw [pending_of_listener listensToo] at heard
    exact attuned.endure careless listens reaches (fun _ => []) _ (fun _ => Or.inl)
      (absent_of_heard reach heard) ((endures_refl left).tarries tarries)

end Following

end Engine

end AccessPolicy
