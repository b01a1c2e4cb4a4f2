import AccessPolicy.Engine.Write
import AccessPolicy.Proofs.Engine.Check

/-!
What a call leaves behind: an engine as right as it was, and an announcement for each tenant whose
rules it has changed. A change of another engine is applied by reloading what it names and dropping
what is cached of it, which makes the engine right about that, whatever it held before.
-/
namespace AccessPolicy

/-- The change asks the engine with an id to take up a tenant anew. -/
def Change.AsksFor (change : Change) (id : Uuid) (tenant : TenantId) : Prop :=
  change.origin ≠ id ∧ (change.tenant = none ∨ change.tenant = some tenant)

namespace Engine

open Act hiding pure bind state

/-- What calls leave as it is, except listening and shutting down. -/
structure Fixed where
  now : Instant
  busDown : Bool
  id : Uuid
  settings : Settings
  enrichers : Table String Enricher
  listener : Option Listener

def fixed (engine : Engine) : Fixed where
  now := engine.now
  busDown := engine.commons.busDown
  id := engine.own.id
  settings := engine.own.settings
  enrichers := engine.own.enrichers
  listener := engine.own.listener

/-- The evaluators follow the stored rules, and what is cached lasts by them. -/
def Coherent (regime : Regime) (engine : Engine) : Prop :=
  Serves regime engine engine

/-- While the bus is up, a change is published for each of the tenants. -/
def Announces (base engine : Engine) (published : TenantId → Prop) : Prop :=
  base.commons.busDown = false → ∃ changes : List Change,
    engine.commons.bus = changes.foldl Bus.publish base.commons.bus ∧
      (∀ change ∈ changes, change.origin = base.own.id) ∧
      ∀ tenant, published tenant → ∃ change ∈ changes, change.tenant = some tenant

/-- A call that began at a coherent state has ended at one, and a change is published for each
tenant whose rules are not alike. -/
structure Settles (regime : Regime) (base engine : Engine) : Prop where
  coherent : Coherent regime engine
  fixed : engine.fixed = base.fixed
  announces : ∃ published, Announces base engine published ∧ ∀ tenant, published tenant ∨
    AlikeRules base.now (base.commons.store.law tenant) (engine.commons.store.law tenant)

variable {regime : Regime} {base engine : Engine} {published more : TenantId → Prop}

theorem announces_refl (base : Engine) : Announces base base (fun _ => False) := by
  intro _
  refine ⟨[], rfl, ?_, ?_⟩
  · intro change member
    cases member
  · intro tenant impossible
    exact impossible.elim

theorem Announces.of_bus_eq (announces : Announces base engine published) {after : Engine}
    (same : after.commons.bus = engine.commons.bus) : Announces base after published :=
  fun up => same ▸ announces up

section Coherent

theorem coherent_of (sound : engine.commons.store.Sound)
    (tracks : Tracks regime.current engine.commons.store.law engine.now engine.own.evaluators)
    (recollects : regime.cached →
      Recollects engine.own regime.enriched regime.stale
        (Lasts regime.current engine.commons.store.law engine.now))
    (paced : Paced regime engine.timing) : Coherent regime engine :=
  ⟨⟨_, rfl⟩, ⟨_, _, _, rfl⟩, sound, .refl _ _, tracks, recollects, paced⟩

theorem Serves.fixed_eq (serves : Serves regime base engine) : engine.fixed = base.fixed := by
  obtain ⟨_, commons⟩ := serves.commons
  obtain ⟨_, _, _, own⟩ := serves.own
  unfold fixed Engine.now
  rw [commons, own]

theorem Recollects.alike {own : Replica} {enriched : Prop} {stale : TenantId → Topic → Prop}
    {current : TenantId → Prop} {laws others : TenantId → List Rule} {now : Instant}
    (recollects : Recollects own enriched stale (Lasts current laws now))
    (alike : ∀ tenant, current tenant → AlikeRules now (laws tenant) (others tenant)) :
    Recollects own enriched stale (Lasts current others now) :=
  recollects.weaken fun _ _ _ _ shared lasts => lasts.alike shared alike

/-- Checks leave the engine coherent and announce nothing. -/
theorem Serves.settles (serves : Serves regime base engine) : Settles regime base engine := by
  have same := congrArg Fixed.now serves.fixed_eq
  have now : engine.now = base.now := same
  have alike (tenant : TenantId) := serves.alike tenant
  refine ⟨coherent_of serves.sound ?_ (fun cached => ?_) serves.paced, serves.fixed_eq, ?_⟩
  · rw [now]
    exact serves.tracks.alike fun tenant _ => alike tenant
  · rw [now]
    exact (serves.recollects cached).alike fun tenant _ => alike tenant
  · obtain ⟨_, commons⟩ := serves.commons
    have bus := congrArg Commons.bus commons
    exact ⟨_, (announces_refl base).of_bus_eq bus, fun tenant => Or.inr (alike tenant)⟩

theorem Coherent.mono (coherent : Coherent regime engine) {fewer : TenantId → Prop}
    (less : ∀ tenant, fewer tenant → regime.current tenant) :
    Coherent { regime with current := fewer } engine := by
  refine coherent_of coherent.sound (coherent.tracks.mono less) (fun cached => ?_)
    ⟨coherent.paced.deadline, coherent.paced.last⟩
  exact (coherent.recollects cached).weaken fun _ _ _ _ _ lasts member => lasts (less _ member)

end Coherent

section Applying

/-- With a tenant's evaluator in line with the store, nothing of the tenant may stay cached. -/
theorem Coherent.retake (coherent : Coherent regime engine) {after : Engine}
    {current : TenantId → Prop} (attends : Attends { regime with current := current } engine after)
    {cache : DecisionCache} (known : regime.cached → cache.backend.available = true ∧
      cache.Recalls (Enricher.adds engine.own.enrichers) regime.stale
        (Lasts current engine.commons.store.law engine.now)) :
    Coherent { regime with current := current } (after.withCache cache) ∧
      (after.withCache cache).commons = engine.commons ∧
        (after.withCache cache).fixed = engine.fixed := by
  obtain ⟨evaluators, timing, rfl⟩ := attends.evolves
  refine ⟨coherent_of coherent.sound attends.tracks (fun cached => ?_) attends.paced, rfl, rfl⟩
  exact ⟨(coherent.recollects cached).enrichers, (known cached).1, (known cached).2⟩

theorem leads_onCache {ε α : Type} {step : DecisionCache → α × DecisionCache}
    {after : α → Engine → Prop} {failed : ε → Engine → Prop} {halted : Engine → Prop}
    (holds : after (step engine.own.cache).1 (engine.withCache (step engine.own.cache).2)) :
    Leads (onCache step) engine after failed halted :=
  holds

theorem Attends.cache_eq (attends : Attends regime base engine) : engine.own.cache = base.own.cache := by
  obtain ⟨evaluators, timing, rfl⟩ := attends.evolves
  rfl

/-- A change that is applied makes the engine right about what it asks for. -/
theorem ensures_applyChange {ε : Type} (coherent : Coherent regime engine)
    (leisure : ¬ regime.hurried) (change : Change) :
    Ensures (applyChange change : Act Engine ε Bool) engine (fun _ after =>
      Coherent { regime with
        current := fun tenant => regime.current tenant ∨ change.AsksFor engine.own.id tenant } after ∧
      after.commons = engine.commons ∧ after.fixed = engine.fixed) := by
  refine leads_read ?_
  by_cases own : change.origin = engine.own.id
  · rw [if_pos own]
    refine leads_pure ⟨coherent.mono fun tenant member => ?_, rfl, rfl⟩
    exact member.resolve_right fun asks => asks.1 own
  · rw [if_neg own]
    cases named : change.tenant with
    | some tenant =>
      have reloaded := (yields_reload coherent.sound coherent.attends tenant).ensures leisure
      refine reloaded.attempt.bind ?_
      rintro _ after ⟨_, rfl, attends, _⟩
      refine leads_bind (leads_onCache (leads_pure ?_))
      refine coherent.retake (attends.mono fun other member => ?_) fun cached => ?_
      · refine member.imp id fun asks => ?_
        simpa [named, eq_comm] using asks.2
      · have recollects := coherent.recollects cached
        rw [attends.cache_eq]
        refine ⟨(DecisionCache.invalidateTenant_narrows _ _).available.trans recollects.available, ?_⟩
        refine (recollects.recalls.invalidateTenant recollects.available tenant).weaken ?_
        rintro owner subject bound answer _ ⟨lasts, different⟩ (member | asks)
        · exact lasts member
        · have same : tenant = owner := by simpa [named] using asks.2
          exact absurd same.symm different
    | none =>
      have reloaded := (yields_reloadAll (ε := ε) coherent.sound coherent.attends).ensures leisure
      refine reloaded.bind ?_
      rintro _ after ⟨attends, _⟩
      refine leads_bind (leads_onCache (leads_pure ?_))
      refine coherent.retake (attends.mono fun _ _ => trivial) fun cached => ?_
      have recollects := coherent.recollects cached
      rw [attends.cache_eq]
      refine ⟨(DecisionCache.invalidateAll_narrows _ _).available.trans recollects.available, ?_⟩
      exact DecisionCache.recalls_invalidateAll recollects.available

end Applying

end Engine

end AccessPolicy
