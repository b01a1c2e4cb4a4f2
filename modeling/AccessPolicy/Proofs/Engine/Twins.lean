import AccessPolicy.Proofs.DecisionCache.Tenancy
import AccessPolicy.Proofs.Engine.History
import AccessPolicy.Proofs.Engine.Siblings

/-!
Two engines that have the same of a tenant. Whatever they have of other tenants, they answer the
tenant's checks alike, one after the other.
-/
namespace AccessPolicy

namespace Engine

open Act hiding pure bind state

variable {ε : Type} {tenant : TenantId} {one other two : Engine}

/-- Two states have the same of a tenant: its rows, its evaluator and its cached answers; and the
clock, the store's switch and the settings, which tenants share, are the same. -/
structure Undisturbed (tenant : TenantId) (one other : Engine) : Prop where
  rows : other.commons.store.rowsOf tenant = one.commons.store.rowsOf tenant
  available : other.commons.store.available = one.commons.store.available
  now : other.now = one.now
  findDelay : other.commons.findDelay = one.commons.findDelay
  evaluator : other.evaluator? tenant = one.evaluator? tenant
  cached : DecisionCache.AlikeFor tenant one.own.cache other.own.cache
  settings : other.own.settings = one.own.settings
  enrichers : other.own.enrichers = one.own.enrichers

/-- Two states that have the same of a tenant, and caches that work alike and at the same time. -/
structure Twins (tenant : TenantId) (one other : Engine) : Prop
    extends Undisturbed tenant one other where
  twin : DecisionCache.TwinFor tenant one.own.cache other.own.cache
  timing : other.timing = one.timing
  ordered : one.RowsOrdered
  orderedToo : other.RowsOrdered

/-- What twins have alike: the tenant's rows and what is cached of it. -/
def twinning (tenant : TenantId) (now : Instant) : Kinship where
  stores := fun one other => other.rowsOf tenant = one.rowsOf tenant ∧
    other.available = one.available ∧ one.rows.Ordered ∧ other.rows.Ordered
  caches := DecisionCache.TwinFor tenant
  tenant := tenant
  now := now

theorem close_twinning (tenant : TenantId) (now : Instant) : (twinning tenant now).Close where
  find := by
    rintro one other ⟨rows, available, _⟩
    dsimp only [twinning]
    rw [RuleStore.find_ofTenant, RuleStore.find_ofTenant, rows, available]
  recordUsage := by
    rintro one other ids ⟨rows, available, ordered, orderedToo⟩
    dsimp only [twinning]
    obtain ⟨switch, _⟩ := RuleStore.recordUsage_switches one tenant ids now
    obtain ⟨switchToo, _⟩ := RuleStore.recordUsage_switches other tenant ids now
    refine ⟨?_, ?_, switchToo.trans (available.trans switch.symm),
      RuleStore.ordered_recordUsage ordered tenant ids now,
      RuleStore.ordered_recordUsage orderedToo tenant ids now⟩
    · unfold RuleStore.recordUsage
      rw [available]
      split <;> rfl
    · rw [RuleStore.rowsOf_recordUsage ordered, RuleStore.rowsOf_recordUsage orderedToo, rows,
        available]
  get := by
    intro one other request owned twin
    change request.tenant = tenant at owned
    subst owned
    exact DecisionCache.TwinFor.get twin now
  getRoles := fun subject twin => DecisionCache.TwinFor.getRoles twin now subject
  set := fun request decision validUntil twin =>
    DecisionCache.TwinFor.set twin now request decision validUntil
  setRoles := fun subject roles validUntil twin =>
    DecisionCache.TwinFor.setRoles twin now tenant subject roles validUntil

theorem Twins.siblings (twins : Twins tenant one two) : Siblings (twinning tenant one.now) one two :=
  ⟨⟨twins.rows, twins.available, twins.ordered, twins.orderedToo⟩, twins.twin, rfl, twins.now,
    twins.findDelay, twins.evaluator, twins.settings, twins.enrichers, twins.timing⟩

theorem Siblings.twins {now : Instant} (siblings : Siblings (twinning tenant now) one two) :
    Twins tenant one two := by
  obtain ⟨rows, available, ordered, orderedToo⟩ := siblings.stores
  exact ⟨⟨rows, available, siblings.nowToo.trans siblings.now.symm, siblings.findDelay,
    siblings.evaluator, siblings.caches.toAlikeFor, siblings.settings, siblings.enrichers⟩,
    siblings.caches, siblings.timing, ordered, orderedToo⟩

theorem Twins.checkPermission (twins : Twins tenant one two) (caller : Principal)
    (query : PermissionQuery) :
    Agree (Twins tenant) (checkPermission tenant caller query : Act Engine ε Decision)
      (Engine.checkPermission tenant caller query) one two := by
  obtain ⟨same, after⟩ :=
    twins.siblings.checkPermission (ε := ε) (close_twinning tenant one.now) caller query
  exact ⟨same, after.twins⟩

/-- What a tenant's callers are replied when they ask one after the other. -/
def replies (tenant : TenantId) : List (Principal × PermissionQuery) → Engine →
    List (Outcome Empty Decision)
  | [], _ => []
  | (caller, query) :: rest, engine =>
    let (outcome, after) :=
      (checkPermission tenant caller query : Act Engine Empty Decision) engine.newCall
    outcome :: replies tenant rest after

theorem Twins.replies_eq (twins : Twins tenant one two)
    (asked : List (Principal × PermissionQuery)) :
    replies tenant asked two = replies tenant asked one := by
  induction asked generalizing one two with
  | nil => rfl
  | cons first rest ih =>
    obtain ⟨caller, query⟩ := first
    have calls : Twins tenant one.newCall two.newCall :=
      (twins.siblings.withTiming (rfl : Timing.start = Timing.start)).twins
    obtain ⟨same, after⟩ := calls.checkPermission (ε := Empty) caller query
    unfold replies
    dsimp only
    rw [same, ih after]

end Engine

end AccessPolicy
