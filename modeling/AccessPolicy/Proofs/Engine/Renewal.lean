import AccessPolicy.Proofs.Engine.Attuned
import AccessPolicy.Proofs.Engine.Lateness

/-!
A forced refresh makes an engine right about a tenant, whatever it held before. The evaluator is
brought in line with the store and the tenant's cached answers are dropped; with a service, of the
decisions only those of the service are, and role sets stay as they are.
-/
namespace AccessPolicy

namespace DecisionCache

/-- Every entry that can be looked up is a decision or a role set. -/
def Legible (cache : DecisionCache) : Prop :=
  cache.Keeps (fun _ _ _ => True) (fun _ _ _ _ => True)

/-- What may be stale after an invalidation: with a service, the decisions of other services and the
role sets. -/
def leftStale : Option String → TenantId → Topic → Prop
  | none, _, _ => False
  | some service, _, .decisions other => other ≠ service
  | some _, _, .roleSet _ => True

variable {cache : DecisionCache} {adds : DecisionSubject → Decision → Decision}
variable {laws : TenantId → List Rule} {now : Instant}

theorem Legible.recalls (legible : cache.Legible) (stale : TenantId → Topic → Prop) :
    cache.Recalls adds stale (Lasts (fun _ => False) laws now) :=
  Keeps.weaken legible (fun _ _ _ _ _ impossible => impossible.elim)
    (fun _ _ _ _ _ _ impossible => impossible.elim)

/-- Nothing of the tenant is left but what may be stale. -/
theorem Legible.recalls_invalidate (legible : cache.Legible)
    (available : cache.backend.available = true) (tenant : TenantId) (service : Option String) :
    (cache.invalidate tenant service).2.Recalls adds (leftStale service)
      (Lasts (· = tenant) laws now) := by
  have narrows := invalidate_narrows cache tenant service
  have left := Keeps.of_narrows legible narrows
  constructor
  · intro sound about text found
    obtain ⟨decision, validUntil, same, carried, _⟩ :=
      left.decision_of_live sound about text found
    refine ⟨decision, validUntil, same, carried, ?_⟩
    rintro fresh rfl
    cases service with
    | none => exact absurd found ((invalidateTenant_lacks available _).1 about rfl sound text)
    | some service =>
      have asked : about.service = service := Classical.not_not.mp fresh
      subst asked
      exact absurd found ((invalidateService_lacks available about).1 sound text)
  · intro sound owner subject text found
    obtain ⟨roles, validUntil, same, _⟩ := left.roles_of_live sound owner subject text found
    refine ⟨roles, validUntil, same, ?_⟩
    rintro fresh rfl
    cases service with
    | none => exact absurd found ((invalidateTenant_lacks available _).2 subject sound text)
    | some service => exact absurd trivial fresh

end DecisionCache

namespace Engine

open Act hiding pure bind state

variable {ε : Type} {regime : Regime} {base engine after : Engine}
variable {tenant : TenantId} {service : Option String} {command : Command}

/-- One tenant has to be right, but for what is stale. -/
def Regime.ofTenant (tenant : TenantId) (stale : TenantId → Topic → Prop) : Regime :=
  ⟨(· = tenant), True, stale, False, False, False⟩

/-- No tenant has to be right. -/
def Regime.idle (stale : TenantId → Topic → Prop) : Regime :=
  ⟨fun _ => False, True, stale, False, False, False⟩

theorem leisure_ofTenant (tenant : TenantId) (stale : TenantId → Topic → Prop) :
    ¬ (Regime.ofTenant tenant stale).hurried := by
  simp [Regime.ofTenant, Regime.hurried]

theorem leisure_idle (stale : TenantId → Topic → Prop) : ¬ (Regime.idle stale).hurried := by
  simp [Regime.idle, Regime.hurried]

/-- An engine whose store and cache can be used; its evaluators and what it has cached may be of any
age. -/
structure Usable (engine : Engine) : Prop where
  sound : engine.commons.store.Sound
  enrichers : engine.own.enrichers = []
  available : engine.own.cache.backend.available = true
  legible : engine.own.cache.Legible

theorem Usable.coherent (usable : base.Usable) (stale : TenantId → Topic → Prop) :
    Coherent (Regime.idle stale) base.newCall :=
  coherent_of usable.sound (fun _ impossible => impossible.elim)
    (fun _ => ⟨Enricher.allowed_of_plain usable.enrichers, usable.available, usable.legible.recalls stale⟩) (paced_start _)

/-- A tenant has been taken up anew by the evaluators, and no other has to be right. -/
theorem Attends.ofTenant {stale : TenantId → Topic → Prop}
    (attends : Attends ((Regime.idle stale).including tenant) base after) :
    Attends (Regime.ofTenant tenant stale) base after :=
  attends.mono fun _ same => Or.inr same

/-- The command refreshes a tenant by force, or a service of it. -/
inductive Renews (tenant : TenantId) (service : Option String) : Command → Prop
  | sync : Renews tenant service (.sync tenant service true)
  | refresh : Renews tenant service (.refresh tenant .all service)

theorem ensures_sync (usable : base.Usable) (tenant : TenantId) (service : Option String) :
    Ensures (sync tenant service true) base.newCall (fun _ =>
      Coherent (Regime.ofTenant tenant (DecisionCache.leftStale service))) := by
  have start := usable.coherent (DecisionCache.leftStale service)
  have leisure := leisure_ofTenant tenant (DecisionCache.leftStale service)
  have reloaded := (yields_reload start.sound start.attends tenant).ensures (leisure_idle _)
  apply (reloaded.mapError ServiceError.evaluator).bind
  rintro reloaded middle ⟨taken, _⟩
  apply leads_when
  · intro _
    exact ((yields_evaluator start.sound taken.ofTenant tenant).ensures leisure).mapError _ |>.mono
      fun _ _ ends => ends.2
  · exact fun _ => taken.ofTenant
  intro middle attends
  apply leads_read
  have found := (yields_find start.sound attends { RuleFilter.ofTenant tenant with
    service := service
    activeAt := some middle.now }).ensures leisure
  apply (found.mapError ServiceError.store).bind
  rintro active middle ⟨_, attends⟩
  apply leads_bind
  apply leads_onCache
  have coherent : Coherent (Regime.ofTenant tenant (DecisionCache.leftStale service))
      (middle.withCache (middle.own.cache.invalidate tenant service).2) := by
    apply (start.retake attends _).1
    intro _
    rw [attends.cache_eq]
    exact ⟨(DecisionCache.invalidate_narrows _ _ _).available.trans usable.available,
      usable.legible.recalls_invalidate usable.available tenant service⟩
  apply (ensures_broadcast coherent.underway tenant .forceSync).bind
  intro _ final kept
  exact leads_pure kept.unchanged_settles.coherent

theorem ensures_refresh (usable : base.Usable) (tenant : TenantId) (service : Option String) :
    Ensures (refresh tenant .all service : Act Engine ε RefreshReport) base.newCall (fun _ =>
      Coherent (Regime.ofTenant tenant (DecisionCache.leftStale service))) := by
  have leisure := leisure_idle (DecisionCache.leftStale service)
  have narrows := DecisionCache.invalidate_narrows base.own.cache tenant service
  let cleared := base.newCall.withCache (base.own.cache.invalidate tenant service).2
  have recollects : Recollects cleared.own False (DecisionCache.leftStale service)
      (Lasts (· = tenant) base.commons.store.law base.now) :=
    ⟨Enricher.allowed_of_plain usable.enrichers, narrows.available.trans usable.available,
      usable.legible.recalls_invalidate usable.available tenant service⟩
  have start : Coherent (Regime.idle (DecisionCache.leftStale service)) cleared :=
    coherent_of usable.sound (fun _ impossible => impossible.elim)
      (fun _ => recollects.weaken fun _ _ _ _ _ _ impossible => impossible.elim) (paced_start _)
  have reloaded := ((yields_reload start.sound start.attends tenant).ensures leisure).attempt (δ := ε)
  apply leads_bind
  apply leads_onCache
  apply reloaded.bind
  rintro _ after ⟨reloaded, rfl, taken, _⟩
  have attends := taken.ofTenant
  apply leads_pure
  obtain ⟨evaluators, timing, rfl⟩ := attends.evolves
  exact coherent_of usable.sound attends.tracks (fun _ => recollects.of_cache_eq rfl rfl) attends.paced

theorem coherent_of_renews (usable : base.Usable) (renews : Renews tenant service command) :
    Coherent (Regime.ofTenant tenant (DecisionCache.leftStale service))
        (command.perform base.newCall) ∧
      (command.perform base.newCall).own.settings = base.own.settings := by
  have admissible : command.Admissible base.newCall.commons.store := by
    cases renews <;> trivial
  have settles := (usable.coherent NoneStale).perform (leisure_idle _) admissible
  refine ⟨?_, congrArg Fixed.settings settles.fixed⟩
  cases renews with
  | sync => exact (ensures_sync usable tenant service).settled
  | refresh => exact (ensures_refresh usable tenant service).settled

/-- A role set that is not cached is not stale. -/
theorem Coherent.without_roleSet {stale : TenantId → Topic → Prop} {subject : String}
    (coherent : Coherent (Regime.ofTenant tenant stale) engine)
    (lacks : engine.own.cache.Lacks (CacheKey.roles tenant subject)) :
    Coherent (Regime.ofTenant tenant fun owner topic => stale owner topic ∧ topic ≠ .roleSet subject)
      engine := by
  refine coherent_of coherent.sound coherent.tracks (fun cached => ?_)
    ⟨coherent.paced.deadline, coherent.paced.last⟩
  obtain ⟨enrichers, available, recalls⟩ := coherent.recollects cached
  refine ⟨enrichers, available, ?_⟩
  constructor
  · intro sound about text found
    obtain ⟨decision, validUntil, same, carried, known⟩ :=
      recalls.decision_of_live sound about text found
    exact ⟨decision, validUntil, same, carried, fun fresh => known fun old =>
      fresh ⟨old, fun impossible => nomatch impossible⟩⟩
  · intro sound owner other text found
    obtain ⟨roles, validUntil, same, known⟩ := recalls.roles_of_live sound owner other text found
    refine ⟨roles, validUntil, same, ?_⟩
    rintro fresh rfl
    by_cases absent : other = subject
    · subst absent
      exact absurd found (lacks sound text)
    · exact known (fun old => fresh ⟨old, fun named => absent (Topic.roleSet.inj named)⟩) rfl

/-- What may happen while no other engine changes the rules of a tenant. Changes that others have
announced may be heard of at any time. -/
inductive Later (tenant : TenantId) : Engine → Engine → Prop
  | own {engine after : Engine} (step : Step False engine after) : Later tenant engine after
  | hears {engine : Engine} (change : Change) :
      Later tenant engine ((applyChange change : Act Engine Empty Bool) engine.newCall).2
  | others {engine : Engine} (commons : Commons) (sound : commons.store.Sound)
      (now : commons.now = engine.commons.now)
      (alike : AlikeRules engine.now (engine.commons.store.law tenant) (commons.store.law tenant)) :
      Later tenant engine { engine with commons := commons }

theorem Later.coherent {stale : TenantId → Topic → Prop} (later : Later tenant engine after)
    (coherent : Coherent (Regime.ofTenant tenant stale) engine) :
    Coherent (Regime.ofTenant tenant stale) after ∧ after.own.settings = engine.own.settings := by
  have leisure := leisure_ofTenant tenant stale
  cases later with
  | own step => exact step.coherent (fun _ => id) leisure coherent
  | hears change =>
    obtain ⟨_, final, ends, applied⟩ :=
      exists_applyChange (ε := Empty) coherent.newCall leisure (fun _ => True) change
    rw [ends]
    exact ⟨applied.coherent.mono fun _ => Or.inl, congrArg Fixed.settings applied.fixed⟩
  | others commons sound now alike =>
    refine ⟨?_, rfl⟩
    apply Coherent.alike coherent sound now
    rintro _ rfl
    exact alike

theorem coherent_of_later {stale : TenantId → Topic → Prop}
    (run : Relation.ReflTransGen (Later tenant) base engine)
    (coherent : Coherent (Regime.ofTenant tenant stale) base) :
    Coherent (Regime.ofTenant tenant stale) engine ∧ engine.own.settings = base.own.settings := by
  induction run with
  | refl => exact ⟨coherent, rfl⟩
  | tail _ later ih =>
    obtain ⟨kept, same⟩ := later.coherent ih.1
    exact ⟨kept, same.trans ih.2⟩

/-- A check is covered by a refresh: it is of the service that was named, if one was, and asks for no
role set that may have been cached before. -/
def Refreshes (service : Option String) (middle : Engine) (tenant : TenantId)
    (query : PermissionQuery) : Prop :=
  ∀ named, service = some named → query.service = named ∧
    (query.useCache = true → query.expandRoles = true →
      middle.own.cache.Lacks (CacheKey.roles tenant query.subject))

theorem Refreshes.covers {middle : Engine} {query : PermissionQuery}
    (refreshes : Refreshes service middle tenant query)
    (coherent : Coherent (Regime.ofTenant tenant (DecisionCache.leftStale service)) middle)
    (caller : Principal) : ∃ stale, Coherent (Regime.ofTenant tenant stale) middle ∧
      (Regime.ofTenant tenant stale).Covers (query.toRequest tenant caller) query.useCache
        query.expandRoles := by
  cases service with
  | none => exact ⟨_, coherent, fun _ => trivial, rfl, fun _ old => old, fun _ _ old => old⟩
  | some named =>
    obtain ⟨asked, lacks⟩ := refreshes named rfl
    by_cases consults : query.useCache = true ∧ query.expandRoles = true
    · refine ⟨_, coherent.without_roleSet (lacks consults.1 consults.2), fun _ => trivial, rfl, ?_, ?_⟩
      · exact fun _ other => other.1 asked
      · exact fun _ _ old => old.2 rfl
    · refine ⟨_, coherent, fun _ => trivial, rfl, fun _ other => other asked, fun cached expands => ?_⟩
      exact absurd ⟨cached, expands⟩ consults

/-- After a forced refresh a check that it covers is answered as by an engine that has just been
started over the store, unless one of the two runs out of time. -/
theorem agrees_start_of_renewed {middle : Engine} (usable : base.Usable)
    (renews : Renews tenant service command)
    (run : Relation.ReflTransGen (Later tenant) (command.perform base.newCall) middle)
    {query : PermissionQuery} (refreshes : Refreshes service middle tenant query)
    (more : Relation.ReflTransGen (Later tenant) middle engine) (caller : Principal) (id : Uuid)
    {settings : Settings} (superadmin : settings.superadminRole = base.own.settings.superadminRole)
    (auditing : Bool) :
    ∃ reply fresh : Decision,
      ((checkPermission tenant caller query : Act Engine Empty Decision) engine.newCall).1 =
        .ok reply ∧
      ((checkPermission tenant caller query : Act Engine Empty Decision)
        ⟨engine.commons, .start id settings [] auditing, .start⟩).1 = .ok fresh ∧
      (reply.Agrees fresh ∨
        base.own.settings.checkTimeout ≠ none ∧ reply = Decision.deny Reason.deadline ∨
        settings.checkTimeout ≠ none ∧ fresh = Decision.deny Reason.deadline) := by
  obtain ⟨renewed, first⟩ := coherent_of_renews usable renews
  obtain ⟨halfway, second⟩ := coherent_of_later run renewed
  obtain ⟨stale, coherent, covers⟩ := refreshes.covers halfway caller
  obtain ⟨kept, third⟩ := coherent_of_later more coherent
  have same : engine.own.settings = base.own.settings := third.trans (second.trans first)
  have start : Coherent (Regime.steady True)
      ⟨engine.commons, .start id settings [] auditing, .start⟩ :=
    coherent_start kept.sound id settings [] auditing fun _ => rfl
  obtain ⟨reply, replied⟩ := kept.exists_reply not_false tenant caller query
  obtain ⟨fresh, repliedToo⟩ := start.exists_reply not_false tenant caller query
  refine ⟨reply, fresh, replied, repliedToo, ?_⟩
  rcases kept.reply_of_covers (leisure_ofTenant tenant stale) covers replied with known | late
  · rcases start.reply_of_covers (not_hurried_steady True)
      (covers_steady (query.toRequest tenant caller) query.useCache query.expandRoles)
      repliedToo with knownToo | lateToo
    · left
      rw [Serves.enrich_plain kept trivial not_false] at known
      rw [Serves.enrich_plain start trivial not_false] at knownToo
      refine Decision.agrees_of_unmarked_eq (known.trans ?_)
      rw [knownToo, same]
      exact congrArg (fun role => (engine.reference tenant).reply role
        (query.toRequest tenant caller) query.expandRoles) superadmin.symm
    · exact Or.inr (Or.inr lateToo)
  · exact Or.inr (Or.inl (same ▸ late))

section Revocation

theorem usable_of_run (run : Relation.ReflTransGen (Step False) started engine) :
    engine.Usable := by
  have start : Coherent (Regime.steady True) started :=
    coherent_start RuleStore.sound_empty _ _ _ _ fun _ => rfl
  have coherent := (coherent_of_run run (fun _ impossible => impossible) start).1
  obtain ⟨enrichers, available, recalls⟩ := coherent.recollects trivial
  exact ⟨coherent.sound, enrichers.plain not_false, available,
    DecisionCache.Keeps.weaken recalls (fun _ _ _ _ => trivial) (fun _ _ _ _ _ => trivial)⟩

def annIsReader : Rule :=
  Rule.ofGrouping ⟨1⟩ "orders" "g" "ann" "reader" .epoch

def readersRead : Rule :=
  Rule.ofPermission ⟨1⟩ "orders" ⟨"reader", "*", "read", .allow⟩ .epoch

def hired : Engine :=
  (Command.create ⟨1⟩ readersRead).perform
    ((Command.create ⟨1⟩ annIsReader).perform started.newCall).newCall

/-- Ann may read as a reader. Her roles are cached since she was refused to write. -/
def employed : Engine :=
  (Command.checkPermission ⟨1⟩ ⟨"clerk", []⟩ { mayAnnRead with action := "write" }).perform
    hired.newCall

/-- Another engine has dismissed Ann. -/
def dismissed : Engine :=
  employed.withStore (employed.commons.store.eraseRow ⟨1⟩)

theorem usable_dismissed : dismissed.Usable := by
  have admissible : (Command.create ⟨1⟩ annIsReader).Admissible started.commons.store :=
    ⟨by decide, rfl⟩
  have first : Step False started ((Command.create ⟨1⟩ annIsReader).perform started.newCall) :=
    .call _ admissible
  have admissibleToo : (Command.create ⟨1⟩ readersRead).Admissible
      ((Command.create ⟨1⟩ annIsReader).perform started.newCall).commons.store := by
    refine ⟨by decide, ?_⟩
    unfold RuleStore.HasRoom
    decide +kernel
  have second : Step False ((Command.create ⟨1⟩ annIsReader).perform started.newCall) hired :=
    .call _ admissibleToo
  have third : Step False hired employed := .call _ trivial
  have usable := usable_of_run (((Relation.ReflTransGen.single first).tail second).tail third)
  exact ⟨RuleStore.sound_eraseRow usable.sound _, usable.enrichers, usable.available, usable.legible⟩

/-- The engine has been told to synchronise the service. -/
def synchronised : Engine :=
  (Command.sync ⟨1⟩ (some "orders") true).perform dismissed.newCall

def mayBobRead : PermissionQuery :=
  { mayAnnRead with subject := "bob" }

theorem agrees_start_of_synchronised : dismissed.Usable ∧
    Renews ⟨1⟩ (some "orders") (.sync ⟨1⟩ (some "orders") true) ∧
    Refreshes (some "orders") synchronised ⟨1⟩ mayBobRead ∧
    Settings.default.superadminRole = dismissed.own.settings.superadminRole ∧
    ∃ reply fresh : Decision,
      ((checkPermission ⟨1⟩ ⟨"clerk", []⟩ mayBobRead : Act Engine Empty Decision)
        synchronised.newCall).1 = .ok reply ∧
      ((checkPermission ⟨1⟩ ⟨"clerk", []⟩ mayBobRead : Act Engine Empty Decision)
        ⟨synchronised.commons, .start ⟨2⟩ .default [] false, .start⟩).1 = .ok fresh ∧
      (reply.Agrees fresh ∨
        dismissed.own.settings.checkTimeout ≠ none ∧ reply = Decision.deny Reason.deadline ∨
        Settings.default.checkTimeout ≠ none ∧ fresh = Decision.deny Reason.deadline) := by
  have renews : Renews ⟨1⟩ (some "orders") (.sync ⟨1⟩ (some "orders") true) := .sync
  have absent : synchronised.own.cache.backend.live?
      (CacheKey.roles ⟨1⟩ mayBobRead.subject) = none := by
    decide +kernel
  have refreshes : Refreshes (some "orders") synchronised ⟨1⟩ mayBobRead := by
    rintro _ ⟨⟩
    refine ⟨rfl, fun _ _ _ text found => ?_⟩
    rw [absent] at found
    cases found
  have superadmin : Settings.default.superadminRole = dismissed.own.settings.superadminRole := by
    decide +kernel
  exact ⟨usable_dismissed, renews, refreshes, superadmin,
    agrees_start_of_renewed usable_dismissed renews .refl refreshes .refl
      ⟨"clerk", []⟩ ⟨2⟩ superadmin false⟩

/-- Searches take ten milliseconds, and checks may take five. -/
def sluggish : Engine :=
  { granting.setFindDelay 10 with
    own := { granting.own with settings := { granting.own.settings with checkTimeout := some 5 } } }

theorem usable_sluggish : sluggish.Usable := by
  have admissible : (Command.create ⟨1⟩ annReads).Admissible started.commons.store :=
    ⟨by decide, rfl⟩
  have created : Step False started granting := .call _ admissible
  have usable := usable_of_run (.single created)
  exact ⟨usable.sound, usable.enrichers, usable.available, usable.legible⟩

/-- By her cached roles Ann may still read after the service was synchronised, and with a time limit a
refreshed engine may be in time where one that has just been started is not. -/
theorem spared_by_renewal : dismissed.Usable ∧ mayAnnRead.service = "orders" ∧
    Renews ⟨1⟩ (some "orders") (.sync ⟨1⟩ (some "orders") true) ∧
    allowed? ((checkPermission ⟨1⟩ ⟨"clerk", []⟩ mayAnnRead : Act Engine Empty Decision)
      synchronised.newCall).1 = some true ∧
    allowed? ((checkPermission ⟨1⟩ ⟨"clerk", []⟩ mayAnnRead : Act Engine Empty Decision)
      ⟨synchronised.commons, .start ⟨2⟩ .default [] false, .start⟩).1 = some false ∧
    sluggish.Usable ∧ Renews ⟨1⟩ none (.sync ⟨1⟩ none true) ∧
    allowed? ((checkPermission ⟨1⟩ ⟨"clerk", []⟩ mayAnnRead : Act Engine Empty Decision)
      ((Command.sync ⟨1⟩ none true).perform sluggish.newCall).newCall).1 = some true ∧
    allowed? ((checkPermission ⟨1⟩ ⟨"clerk", []⟩ mayAnnRead : Act Engine Empty Decision)
      ⟨sluggish.commons, .start ⟨2⟩ sluggish.own.settings [] false, .start⟩).1 = some false := by
  refine ⟨usable_dismissed, rfl, .sync, ?_, ?_, usable_sluggish, .sync, ?_, ?_⟩
  · decide +kernel
  · decide +kernel
  · decide +kernel
  · decide +kernel

end Revocation

end Engine

end AccessPolicy
