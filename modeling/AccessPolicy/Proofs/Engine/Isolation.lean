import AccessPolicy.Proofs.Engine.Twins

/-!
Tenants apart. What is called for other tenants leaves a tenant's rows, evaluator and cached answers
as they are, so that the tenant is answered as if it had not been called.
-/
namespace AccessPolicy

namespace Engine

variable {tenant owner : TenantId} {base engine : Engine}

section Footprint

/-- A state after a first one, beside which the tenant is undisturbed. With `room` the store's next
id is not in use. -/
structure Beside (room : Prop) (tenant : TenantId) (base engine : Engine) : Prop where
  undisturbed : Undisturbed tenant base engine
  ordered : engine.RowsOrdered
  hasRoom : room → engine.commons.store.HasRoom
  later : base.own.cache.backend.uptime ≤ engine.own.cache.backend.uptime
  sound : engine.own.cache.Fits →
    engine.own.cache.backend.broken = base.own.cache.backend.broken

variable {room : Prop}

theorem beside_refl (ordered : base.RowsOrdered) (hasRoom : base.commons.store.HasRoom) :
    Beside room tenant base base where
  undisturbed := ⟨rfl, rfl, rfl, rfl, rfl, DecisionCache.alikeFor_refl _ _, rfl, rfl⟩
  ordered := ordered
  hasRoom := fun _ => hasRoom
  later := Nat.le_refl _
  sound := fun _ => rfl

namespace Beside

variable (beside : Beside room tenant base engine)
include beside

theorem withStore {store : RuleStore} (rows : store.rowsOf tenant = engine.commons.store.rowsOf tenant)
    (available : store.available = engine.commons.store.available) (ordered : store.rows.Ordered)
    (hasRoom : engine.commons.store.HasRoom → room → store.HasRoom) :
    Beside room tenant base (engine.withStore store) := by
  obtain ⟨undisturbed, _, roomy, later, sound⟩ := beside
  refine ⟨⟨rows.trans undisturbed.rows, available.trans undisturbed.available, undisturbed.now,
    undisturbed.findDelay, undisturbed.evaluator, undisturbed.cached, undisturbed.settings,
    undisturbed.enrichers⟩, ordered, ?_, later, sound⟩
  exact fun wanted => hasRoom (roomy wanted) wanted

theorem withEvaluators {evaluators : Table TenantId Evaluator}
    (same : evaluators.get? tenant = engine.evaluator? tenant) :
    Beside room tenant base (engine.withEvaluators evaluators) := by
  obtain ⟨undisturbed, ordered, hasRoom, later, sound⟩ := beside
  exact ⟨⟨undisturbed.rows, undisturbed.available, undisturbed.now, undisturbed.findDelay,
    same.trans undisturbed.evaluator, undisturbed.cached, undisturbed.settings,
    undisturbed.enrichers⟩, ordered, hasRoom, later, sound⟩

theorem withCache {cache : DecisionCache}
    (cached : DecisionCache.AlikeFor tenant base.own.cache cache)
    (later : engine.own.cache.backend.uptime ≤ cache.backend.uptime)
    (sound : cache.Fits → engine.own.cache.Fits ∧
      cache.backend.broken = engine.own.cache.backend.broken) :
    Beside room tenant base (engine.withCache cache) := by
  obtain ⟨undisturbed, ordered, hasRoom, before, soundBefore⟩ := beside
  refine ⟨⟨undisturbed.rows, undisturbed.available, undisturbed.now, undisturbed.findDelay,
    undisturbed.evaluator, cached, undisturbed.settings, undisturbed.enrichers⟩, ordered, hasRoom,
    Nat.le_trans before later, ?_⟩
  intro fits
  obtain ⟨fitted, same⟩ := sound fits
  exact same.trans (soundBefore fitted)

theorem delete {keys : List String} (foreign : owner ≠ tenant)
    (belong : ∀ key ∈ keys, CacheKey.BelongsTo key owner) :
    Beside room tenant base (engine.withCache (engine.own.cache.delete keys).2) := by
  obtain ⟨_, broken, uptime⟩ := DecisionCache.delete_switches engine.own.cache keys
  obtain ⟨decisionTtl, roleTtl⟩ := DecisionCache.delete_ttls engine.own.cache keys
  apply beside.withCache (beside.undisturbed.cached.delete foreign belong)
    (Nat.le_of_eq uptime.symm)
  intro fits
  unfold DecisionCache.Fits at fits ⊢
  rw [uptime, decisionTtl, roleTtl] at fits
  exact ⟨fits, broken⟩

theorem write {key : String} {ttl : Nat} (now : Instant) (value : Json) (bound : Option Instant)
    (foreign : owner ≠ tenant) (belongs : CacheKey.BelongsTo key owner)
    (kept : ttl = engine.own.cache.decisionTtl ∨ ttl = engine.own.cache.roleTtl) :
    Beside room tenant base (engine.withCache (engine.own.cache.write now key value ttl bound)) := by
  have cached : DecisionCache.AlikeFor tenant base.own.cache
      (engine.own.cache.write now key value ttl bound) :=
    beside.undisturbed.cached.write foreign belongs
  rcases DecisionCache.write_cases engine.own.cache now key value ttl bound with
    same | ⟨entry, writes, same⟩ | ⟨beyond, same⟩
  · rw [same]
    exact beside
  · rw [same] at cached ⊢
    apply beside.withCache cached (Nat.le_add_right ..)
    intro fits
    unfold DecisionCache.Fits at fits ⊢
    dsimp only at fits
    exact ⟨by omega, rfl⟩
  · rw [same] at cached ⊢
    apply beside.withCache cached (Nat.le_refl _)
    intro fits
    unfold DecisionCache.Fits at fits
    dsimp only at fits
    omega

end Beside

/-- Nothing that is done for other tenants disturbs the tenant. -/
theorem admits_beside (room : Prop) (tenant : TenantId) (base : Engine) :
    AdmitsChecks (Beside room tenant base) (· ≠ tenant) where
  timing := fun _ ⟨⟨rows, available, now, findDelay, evaluator, cached, settings, enrichers⟩,
      ordered, hasRoom, later, sound⟩ =>
    ⟨⟨rows, available, now, findDelay, evaluator, cached, settings, enrichers⟩, ordered, hasRoom,
      later, sound⟩
  build := fun _ foreign beside =>
    beside.withEvaluators (Table.get?_put_of_ne _ _ (Ne.symm foreign))
  drop := fun foreign beside =>
    beside.withEvaluators (Table.get?_erase_of_ne _ (Ne.symm foreign))
  updateRow := fun {engine rule} foreign beside => by
    obtain ⟨available, room⟩ := RuleStore.update_switches engine.commons.store rule
    exact beside.withStore (RuleStore.rowsOf_update_foreign foreign) available
      (RuleStore.ordered_update beside.ordered rule) fun free _ => room free
  deleteRow := fun {engine owner} id foreign beside => by
    obtain ⟨available, room⟩ := RuleStore.delete_switches engine.commons.store owner id
    exact beside.withStore (RuleStore.rowsOf_delete_foreign beside.ordered foreign id) available
      (RuleStore.ordered_delete beside.ordered owner id) fun free _ => room free
  forget := fun foreign belong beside => beside.delete foreign belong
  publish := fun _ ⟨⟨rows, available, now, findDelay, evaluator, cached, settings, enrichers⟩,
      ordered, hasRoom, later, sound⟩ =>
    ⟨⟨rows, available, now, findDelay, evaluator, cached, settings, enrichers⟩, ordered, hasRoom,
      later, sound⟩
  recordUsage := fun {engine owner} ids now foreign beside => by
    obtain ⟨available, room⟩ := RuleStore.recordUsage_switches engine.commons.store owner ids now
    exact beside.withStore (RuleStore.rowsOf_recordUsage_foreign foreign ids now) available
      (RuleStore.ordered_recordUsage beside.ordered owner ids now) fun free _ => room free
  keep := fun now value _ bound foreign belongs kept beside =>
    beside.write now value bound foreign belongs kept
  audit := fun _ ⟨⟨rows, available, now, findDelay, evaluator, cached, settings, enrichers⟩,
      ordered, hasRoom, later, sound⟩ =>
    ⟨⟨rows, available, now, findDelay, evaluator, cached, settings, enrichers⟩, ordered, hasRoom,
      later, sound⟩

theorem Beside.weaken (beside : Beside room tenant base engine) : Beside False tenant base engine :=
  ⟨beside.undisturbed, beside.ordered, fun impossible => impossible.elim, beside.later,
    beside.sound⟩

theorem Beside.insert {rule : Rule} (beside : Beside True tenant base engine)
    (foreign : rule.tenant ≠ tenant) :
    Beside False tenant base (engine.withStore (engine.commons.store.insert rule).2) := by
  exact beside.weaken.withStore (RuleStore.rowsOf_insert_foreign (beside.hasRoom trivial) foreign)
    (RuleStore.insert_available _ rule) (RuleStore.ordered_insert beside.ordered rule)
    fun _ impossible => impossible.elim

theorem Beside.perform {command : Command} (beside : Beside True tenant base engine)
    (foreign : command.For (· ≠ tenant)) : Beside False tenant base (command.perform engine) := by
  have before := admits_beside True tenant base
  have after := admits_beside False tenant base
  cases asks : command.decides with
  | true => exact after.toAdmitsDecisions.perform asks foreign beside.weaken
  | false =>
    exact before.toAdmits.perform after.toAdmits (fun _ => Beside.weaken)
      (fun _ _ foreign beside => beside.insert foreign) asks foreign beside

end Footprint

section Isolation

variable {first : Engine} {past : List Engine} {command : Command}

/-- Time goes by on the cache's clock alone. -/
def aged (engine : Engine) (nanos : Nat) : Engine :=
  engine.withBackend (engine.own.cache.backend.elapse nanos)

theorem Beside.twins {room : Prop} (beside : Beside room tenant base engine) (ordered : base.RowsOrdered)
    (fits : engine.own.cache.Fits) :
    Twins tenant (aged base.newCall (engine.own.cache.backend.uptime - base.own.cache.backend.uptime))
      engine.newCall := by
  obtain ⟨⟨rows, available, now, findDelay, evaluator, cached, settings, enrichers⟩, orderedToo, _,
    later, sound⟩ := beside
  refine ⟨⟨rows, available, now, findDelay, evaluator, ?_, settings, enrichers⟩, ?_, rfl, ordered,
    orderedToo⟩
  · exact ⟨cached.entries, cached.available, cached.decisionTtl, cached.roleTtl⟩
  · refine ⟨⟨cached.entries, cached.available, cached.decisionTtl, cached.roleTtl⟩, sound fits, ?_⟩
    exact (Nat.add_sub_cancel' later).symm

/-- What is called for other tenants disturbs no tenant, and as long as the cache can keep what it is
to keep, the tenant is replied as if it had not been called. What the tenant is replied depends on
nothing but what is the tenant's and what all tenants share. -/
theorem isolated_of_lived (lived : Lived first past engine) (ordered : first.RowsOrdered)
    (room : engine.commons.store.HasRoom) (foreign : command.For (· ≠ tenant)) :
    Undisturbed tenant engine (command.perform engine.newCall) ∧
    ((command.perform engine.newCall).own.cache.Fits → ∀ asked,
      replies tenant asked (command.perform engine.newCall) =
        replies tenant asked (engine.aged
          ((command.perform engine.newCall).own.cache.backend.uptime -
            engine.own.cache.backend.uptime))) ∧
    ∀ other, Twins tenant engine other → ∀ asked,
      replies tenant asked other = replies tenant asked engine := by
  have orderedNow := lived.rowsOrdered ordered
  have calls : Beside True tenant engine engine.newCall :=
    (admits_beside True tenant engine).timing .start (beside_refl orderedNow room)
  have beside := calls.perform foreign
  refine ⟨beside.undisturbed, ?_, fun _ twins => twins.replies_eq⟩
  intro fits asked
  have replied := (beside.twins orderedNow fits).replies_eq asked
  have calledAnew (engine : Engine) :
      replies tenant asked engine.newCall = replies tenant asked engine := by
    cases asked <;> rfl
  rw [calledAnew] at replied
  exact replied.trans (calledAnew (engine.aged _))

/-- Another tenant asks what the first may. -/
def intrusion : Command :=
  .checkPermission ⟨2⟩ ⟨"clerk", []⟩ mayAnnRead

theorem isolated_of_answered : Lived started [granting, started] answered ∧ started.RowsOrdered ∧
    answered.commons.store.HasRoom ∧ intrusion.For (· ≠ ⟨1⟩) ∧
    Undisturbed ⟨1⟩ answered (intrusion.perform answered.newCall) ∧
    ((intrusion.perform answered.newCall).own.cache.Fits → ∀ asked,
      replies ⟨1⟩ asked (intrusion.perform answered.newCall) =
        replies ⟨1⟩ asked (answered.aged ((intrusion.perform answered.newCall).own.cache.backend.uptime -
          answered.own.cache.backend.uptime))) ∧
    ∀ other, Twins ⟨1⟩ answered other → ∀ asked,
      replies ⟨1⟩ asked other = replies ⟨1⟩ asked answered :=
  have ordered : started.RowsOrdered := .nil
  have room : answered.commons.store.HasRoom :=
    Option.isNone_iff_eq_none.mp (by decide +kernel)
  have foreign : intrusion.For (· ≠ ⟨1⟩) := by
    unfold intrusion Command.For
    decide
  ⟨lived_answered, ordered, room, foreign, isolated_of_lived lived_answered ordered room foreign⟩

section Overlong

/-- An engine that is to keep role sets for longer than its cache's clock goes on. -/
def hoarding : Engine :=
  ⟨⟨.empty, .empty, false, .epoch, 0⟩,
    .start ⟨1⟩ { Settings.default with roleTtl := UInt64.size - 1 } [] false, .start⟩

def hoardingGrant : Engine :=
  (Command.create ⟨1⟩ annReads).perform hoarding.newCall

def hoardingAnswer : Engine :=
  (Command.checkPermission ⟨1⟩ ⟨"clerk", []⟩ mayAnnRead).perform hoardingGrant.newCall

/-- The answer is cached, and no evaluator is left. -/
def hoardingIdle : Engine :=
  ((shutdown : Act Engine Empty Unit) hoardingAnswer.newCall).2

def cutOff (engine : Engine) : Engine :=
  engine.withStore (engine.commons.store.setAvailable false)

def permits : Outcome Empty Decision → Bool
  | .ok decision => decision.allowed
  | _ => false

/-- A check of another tenant, which looks for roles, breaks the cache for all: with the store cut
off the first tenant is refused what it is granted without that check. -/
theorem refused_after_intrusion :
    Lived hoarding [hoardingAnswer, hoardingGrant, hoarding] hoardingIdle ∧
    intrusion.For (· ≠ ⟨1⟩) ∧
    (replies ⟨1⟩ [(⟨"clerk", []⟩, mayAnnRead)] (cutOff hoardingIdle)).map permits = [true] ∧
    (replies ⟨1⟩ [(⟨"clerk", []⟩, mayAnnRead)]
      (cutOff (intrusion.perform hoardingIdle.newCall))).map permits = [false] := by
  refine ⟨.turn (.turn (.turn .start (.call _)) (.call _)) .shutdown, ?_, ?_, ?_⟩
  · unfold intrusion Command.For
    decide
  · decide +kernel
  · decide +kernel

end Overlong

end Isolation

end Engine

end AccessPolicy
