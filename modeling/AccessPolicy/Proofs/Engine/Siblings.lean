import AccessPolicy.Engine.Check
import AccessPolicy.Proofs.Act.Agree
import AccessPolicy.Proofs.Table

/-!
Two engines side by side. If their stores and their caches answer alike about a tenant, step for step,
and they have the same evaluator of it, they answer the tenant's checks alike.
-/
namespace AccessPolicy

namespace Engine

open Act hiding pure bind state

/-- In what two engines are alike: how their stores and how their caches are related, about which tenant
and at which instant. -/
structure Kinship where
  stores : RuleStore → RuleStore → Prop
  caches : DecisionCache → DecisionCache → Prop
  tenant : TenantId
  now : Instant

/-- Related stores and related caches answer alike about the tenant at the instant, and stay related. -/
structure Kinship.Close (kin : Kinship) : Prop where
  find : ∀ {one other}, kin.stores one other →
    other.find (RuleFilter.ofTenant kin.tenant) = one.find (RuleFilter.ofTenant kin.tenant)
  recordUsage : ∀ {one other} (ids : List RuleId), kin.stores one other →
    (other.recordUsage kin.tenant ids kin.now).1 = (one.recordUsage kin.tenant ids kin.now).1 ∧
      kin.stores (one.recordUsage kin.tenant ids kin.now).2
        (other.recordUsage kin.tenant ids kin.now).2
  get : ∀ {one other} (request : CheckRequest), request.tenant = kin.tenant → kin.caches one other →
    (other.get kin.now request).1 = (one.get kin.now request).1 ∧
      kin.caches (one.get kin.now request).2 (other.get kin.now request).2
  getRoles : ∀ {one other} (subject : String), kin.caches one other →
    (other.getRoles kin.now kin.tenant subject).1 = (one.getRoles kin.now kin.tenant subject).1 ∧
      kin.caches (one.getRoles kin.now kin.tenant subject).2
        (other.getRoles kin.now kin.tenant subject).2
  set : ∀ {one other} (request : CheckRequest) (decision : Decision) (validUntil : Option Instant),
    kin.caches one other → kin.caches (one.set kin.now request decision validUntil)
      (other.set kin.now request decision validUntil)
  setRoles : ∀ {one other} (subject : String) (roles : List String) (validUntil : Option Instant),
    kin.caches one other → kin.caches (one.setRoles kin.now kin.tenant subject roles validUntil)
      (other.setRoles kin.now kin.tenant subject roles validUntil)

/-- Two states whose stores and caches are related, with the same evaluator of the tenant, the same
settings and enrichers, at the same time. -/
structure Siblings (kin : Kinship) (one other : Engine) : Prop where
  stores : kin.stores one.commons.store other.commons.store
  caches : kin.caches one.own.cache other.own.cache
  now : one.now = kin.now
  nowToo : other.now = kin.now
  findDelay : other.commons.findDelay = one.commons.findDelay
  evaluator : other.evaluator? kin.tenant = one.evaluator? kin.tenant
  settings : other.own.settings = one.own.settings
  enrichers : other.own.enrichers = one.own.enrichers
  timing : other.timing = one.timing

variable {ε α : Type} {kin : Kinship} {one two : Engine}

namespace Siblings

variable {request : CheckRequest} (siblings : Siblings kin one two)
include siblings

theorem withTiming {timing timingOther : Timing} (same : timingOther = timing) :
    Siblings kin (one.withTiming timing) (two.withTiming timingOther) :=
  ⟨siblings.stores, siblings.caches, siblings.now, siblings.nowToo, siblings.findDelay,
    siblings.evaluator, siblings.settings, siblings.enrichers, same⟩

theorem withCache {cache cacheOther : DecisionCache} (alike : kin.caches cache cacheOther) :
    Siblings kin (one.withCache cache) (two.withCache cacheOther) :=
  ⟨siblings.stores, alike, siblings.now, siblings.nowToo, siblings.findDelay, siblings.evaluator,
    siblings.settings, siblings.enrichers, siblings.timing⟩

theorem waitUntil (moment : Nat) :
    Agree (Siblings kin) (waitUntil moment : Act Engine ε Unit) (waitUntil moment) one two := by
  unfold Agree Engine.waitUntil
  rw [siblings.timing]
  exact ⟨rfl, siblings.withTiming rfl⟩

theorem consultCache (step : DecisionCache → α × DecisionCache)
    (same : (step two.own.cache).1 = (step one.own.cache).1)
    (alike : kin.caches (step one.own.cache).2 (step two.own.cache).2) :
    Agree (Siblings kin) (consultCache step : Act Engine ε α) (consultCache step) one two := by
  have after := siblings.withCache alike
  have late : (two.withCache (step two.own.cache).2).timing.isOver =
      (one.withCache (step one.own.cache).2).timing.isOver := congrArg Timing.isOver siblings.timing
  unfold Agree Engine.consultCache
  dsimp only
  rw [late, same]
  split
  · exact ⟨rfl, after⟩
  · exact ⟨rfl, after⟩

theorem within {millis : Option Nat} {late : α} {action : Act Engine ε α}
    (agree : ∀ one two, Siblings kin one two → Agree (Siblings kin) action action one two) :
    Agree (Siblings kin) (within millis late action) (within millis late action) one two := by
  have inside : Siblings kin (one.withDeadline (millis.map (one.timing.elapsed + ·)))
      (two.withDeadline (millis.map (two.timing.elapsed + ·))) := by
    apply siblings.withTiming
    rw [siblings.timing]
  obtain ⟨same, after⟩ := agree _ _ inside
  unfold Agree Engine.within
  generalize action (one.withDeadline _) = result at same after ⊢
  generalize action (two.withDeadline _) = resultOther at same after ⊢
  obtain ⟨outcome, first⟩ := result
  obtain ⟨_, second⟩ := resultOther
  cases same
  have leaves : Siblings kin (first.withDeadline one.timing.deadline)
      (second.withDeadline two.timing.deadline) := by
    apply Siblings.withTiming after
    rw [siblings.timing, Siblings.timing after]
  cases outcome with
  | ok value => exact ⟨rfl, leaves⟩
  | error cause => exact ⟨rfl, leaves⟩
  | halted cause => cases cause <;> exact ⟨rfl, leaves⟩

theorem withEvaluator (evaluator : Evaluator) :
    Siblings kin (one.withEvaluators (one.own.evaluators.put kin.tenant evaluator))
      (two.withEvaluators (two.own.evaluators.put kin.tenant evaluator)) :=
  ⟨siblings.stores, siblings.caches, siblings.now, siblings.nowToo, siblings.findDelay,
    (Table.get?_put_self ..).trans (Table.get?_put_self ..).symm, siblings.settings,
    siblings.enrichers, siblings.timing⟩

section Close

variable (close : kin.Close)
include close

theorem find : Agree (Siblings kin) (find (RuleFilter.ofTenant kin.tenant))
    (find (RuleFilter.ofTenant kin.tenant)) one two := by
  apply agree_read
  rw [close.find siblings.stores, siblings.timing, siblings.findDelay]
  apply (siblings.waitUntil _).bind
  intro _ one two siblings
  exact agree_ofExcept _ siblings

theorem rebuild : Agree (Siblings kin) (rebuild kin.tenant) (rebuild kin.tenant) one two := by
  have builds : Agree (Siblings kin) (buildEvaluator kin.tenant >>= fun evaluator =>
      setEvaluator kin.tenant evaluator >>= fun _ => Pure.pure evaluator)
      (buildEvaluator kin.tenant >>= fun evaluator =>
        setEvaluator kin.tenant evaluator >>= fun _ => Pure.pure evaluator) one two := by
    apply Agree.bind
    · apply agree_read
      rw [siblings.now, siblings.nowToo]
      apply ((siblings.find close).mapError _).bind
      intro rules one two siblings
      split
      · exact agree_pure _ siblings
      · exact agree_halt _ siblings
    · intro evaluator one two siblings
      apply (agree_modify (siblings.withEvaluator evaluator)).bind
      intro _ one two siblings
      exact agree_pure _ siblings
  obtain ⟨same, after⟩ := builds
  exact ⟨same, after.withTiming (congrArg (Timing.endBuild · kin.tenant) after.timing)⟩

theorem askedEvaluator :
    Agree (Siblings kin) (Engine.evaluator kin.tenant) (Engine.evaluator kin.tenant) one two := by
  apply Agree.bind
  · apply agree_read
    rw [siblings.timing]
    exact siblings.waitUntil _
  · intro _ one two siblings
    apply agree_read
    rw [siblings.evaluator, siblings.now, siblings.nowToo]
    cases one.evaluator? kin.tenant with
    | none => exact siblings.rebuild close
    | some kept =>
      dsimp only
      split
      · apply (siblings.rebuild close).attempt.bind
        intro result one two siblings
        cases result with
        | ok fresh => exact agree_pure _ siblings
        | error cause => exact agree_pure _ siblings
      · exact agree_pure _ siblings

theorem ask (ask : Evaluator → α) :
    Agree (Siblings kin) (do Pure.pure (ask (← Engine.evaluator kin.tenant)))
      (do Pure.pure (ask (← Engine.evaluator kin.tenant))) one two := by
  apply (siblings.askedEvaluator close).bind
  intro evaluator one two siblings
  exact agree_pure _ siblings

theorem recordUse (ids : List RuleId) :
    Agree (Siblings kin) (recordUse kin.tenant ids : Act Engine ε Unit) (recordUse kin.tenant ids)
      one two := by
  have counted : Agree (Siblings kin)
      (onStore (fun store => store.recordUsage kin.tenant ids kin.now))
      (onStore (fun store => store.recordUsage kin.tenant ids kin.now)) one two := by
    obtain ⟨result, related⟩ := close.recordUsage ids siblings.stores
    have after : Siblings kin
        (one.withStore (one.commons.store.recordUsage kin.tenant ids kin.now).2)
        (two.withStore (two.commons.store.recordUsage kin.tenant ids kin.now).2) :=
      ⟨related, siblings.caches, siblings.now, siblings.nowToo, siblings.findDelay,
        siblings.evaluator, siblings.settings, siblings.enrichers, siblings.timing⟩
    unfold Agree onStore
    dsimp only
    rw [result]
    exact agree_ofExcept _ after
  apply agree_read
  rw [siblings.now, siblings.nowToo]
  apply counted.attempt.bind
  intro _ one two siblings
  exact agree_pure _ siblings

theorem remember (request : CheckRequest) (decision : Decision) (bound : Option Instant) :
    Agree (Siblings kin) (remember request decision bound : Act Engine ε Unit)
      (remember request decision bound) one two := by
  apply agree_read
  rw [siblings.now, siblings.nowToo]
  exact siblings.consultCache _ rfl (close.set request decision bound siblings.caches)

section Deciding

variable (owned : request.tenant = kin.tenant)
include owned

theorem evaluate : Agree (Siblings kin) (evaluate request) (evaluate request) one two := by
  unfold Engine.evaluate enforce
  rw [owned]
  apply ((siblings.ask close _).mapError _).bind
  intro evaluation one two siblings
  have finishes {one two : Engine} (siblings : Siblings kin one two) :
      Agree (Siblings kin)
        (Act.state >>= fun engine => Pure.pure
          (engine.enrich request (Decision.ofEvaluation evaluation), evaluation.validUntil) :
          Act Engine CheckError (Decision × Option Instant))
        (Act.state >>= fun engine => Pure.pure
          (engine.enrich request (Decision.ofEvaluation evaluation), evaluation.validUntil))
        one two := by
    have same : two.enrich request (Decision.ofEvaluation evaluation) =
        one.enrich request (Decision.ofEvaluation evaluation) := by
      unfold enrich
      rw [siblings.enrichers]
    apply agree_read
    rw [same]
    exact agree_pure _ siblings
  split
  · apply (siblings.recordUse close _).bind
    intro _ one two siblings
    exact finishes siblings
  · exact finishes siblings

theorem lookUp : Agree (Siblings kin) (lookUp request : Act Engine ε (Option Decision))
    (lookUp request) one two := by
  obtain ⟨same, alike⟩ := close.get request owned siblings.caches
  apply agree_read
  rw [siblings.now, siblings.nowToo]
  exact siblings.consultCache _ same alike

theorem decideFresh (useCache : Bool) : Agree (Siblings kin) (decideFresh request useCache)
    (decideFresh request useCache) one two := by
  apply (siblings.evaluate close owned).bind
  intro answer one two siblings
  dsimp only
  split
  · apply (siblings.remember close request _ _).bind
    intro _ one two siblings
    exact agree_pure _ siblings
  · exact agree_pure _ siblings

theorem decide (useCache : Bool) : Agree (Siblings kin) (decide request useCache)
    (decide request useCache) one two := by
  have super : two.isSuperadmin request = one.isSuperadmin request := by
    unfold isSuperadmin
    rw [siblings.settings]
  have bypass : two.superadminDecision = one.superadminDecision := by
    unfold superadminDecision
    rw [siblings.settings]
  apply agree_read
  rw [super, bypass]
  split
  · exact agree_pure _ siblings
  · split
    · apply (siblings.lookUp close owned).bind
      intro found one two siblings
      cases found with
      | some decision => exact agree_pure _ siblings
      | none => exact siblings.decideFresh close owned _
    · exact siblings.decideFresh close owned _

omit owned in
theorem roles (subject : String) (useCache : Bool) :
    Agree (Siblings kin) (roles kin.tenant subject useCache)
      (Engine.roles kin.tenant subject useCache) one two := by
  have named {one two : Engine} (siblings : Siblings kin one two) :
      Agree (Siblings kin)
        ((rolesUntil kin.tenant subject).mapError CheckError.evaluator >>= fun answer =>
          if useCache then
            Engine.consultCache (fun cache =>
              ((), cache.setRoles kin.now kin.tenant subject answer.1 answer.2)) >>= fun _ =>
                Pure.pure answer.1
          else Pure.pure answer.1)
        ((rolesUntil kin.tenant subject).mapError CheckError.evaluator >>= fun answer =>
          if useCache then
            Engine.consultCache (fun cache =>
              ((), cache.setRoles kin.now kin.tenant subject answer.1 answer.2)) >>= fun _ =>
                Pure.pure answer.1
          else Pure.pure answer.1) one two := by
    apply ((siblings.ask close _).mapError _).bind
    intro answer one two siblings
    split
    · apply (siblings.consultCache _ rfl (close.setRoles subject _ _ siblings.caches)).bind
      intro _ one two siblings
      exact agree_pure _ siblings
    · exact agree_pure _ siblings
  apply agree_read
  rw [siblings.now, siblings.nowToo]
  cases useCache with
  | false => exact named siblings
  | true =>
    obtain ⟨same, alike⟩ := close.getRoles subject siblings.caches
    apply (siblings.consultCache _ same alike).bind
    intro found one two later
    cases found with
    | some roles => exact agree_pure _ later
    | none => exact named later

theorem firstAllowed (useCache : Bool) (roles : List String) :
    Agree (Siblings kin) (firstAllowed request useCache roles)
      (Engine.firstAllowed request useCache roles) one two := by
  induction roles generalizing one two with
  | nil => exact agree_pure _ siblings
  | cons role rest ih =>
    have ownedRole : (request.asSubject role).tenant = kin.tenant := owned
    apply (siblings.decide close ownedRole useCache).bind
    intro decision one two siblings
    split
    · exact agree_pure _ siblings
    · exact ih siblings

theorem decideExpanded (useCache : Bool) : Agree (Siblings kin) (decideExpanded request useCache)
    (Engine.decideExpanded request useCache) one two := by
  unfold Engine.decideExpanded
  rw [owned]
  apply (siblings.decide close owned useCache).bind
  intro direct one two siblings
  split
  · exact agree_pure _ siblings
  · split
    · exact agree_pure _ siblings
    · apply (siblings.roles close _ useCache).bind
      intro roles one two siblings
      apply (siblings.firstAllowed close owned useCache roles).bind
      intro found one two siblings
      cases found with
      | some decision => exact agree_pure _ siblings
      | none => exact agree_pure _ siblings

theorem check (options : CheckOptions) (expand : Bool) :
    Agree (Siblings kin) (check request options expand) (Engine.check request options expand) one
      two := by
  have audited {one two : Engine} (siblings : Siblings kin one two) (decision : Decision) :
      Siblings kin (auditDecision request options.audit decision one)
        (auditDecision request options.audit decision two) := by
    unfold Engine.auditDecision
    split <;> split <;>
      exact ⟨siblings.stores, siblings.caches, siblings.now, siblings.nowToo, siblings.findDelay,
        siblings.evaluator, siblings.settings, siblings.enrichers, siblings.timing⟩
  unfold Engine.check
  split
  · exact agree_fail _ siblings
  · apply agree_read
    rw [siblings.settings]
    apply Agree.bind
    · apply siblings.within
      intro one two siblings
      split
      · exact siblings.decideExpanded close owned _
      · exact siblings.decide close owned _
    · intro decision one two siblings
      apply (agree_modify (audited siblings decision)).bind
      intro _ one two siblings
      exact agree_pure _ siblings

end Deciding

theorem checkPermission (caller : Principal) (query : PermissionQuery) :
    Agree (Siblings kin) (checkPermission kin.tenant caller query : Act Engine ε Decision)
      (Engine.checkPermission kin.tenant caller query) one two := by
  have owned : (query.toRequest kin.tenant caller).tenant = kin.tenant := rfl
  apply (siblings.check close owned query.options query.expandRoles).attempt.bind
  intro result one two siblings
  cases result with
  | ok decision => exact agree_pure _ siblings
  | error fault => exact agree_pure _ siblings

end Close

end Siblings

end Engine

end AccessPolicy
