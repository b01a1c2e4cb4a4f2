import AccessPolicy.Proofs.Engine.Run
import AccessPolicy.Proofs.RuleStore.Tenancy

/-!
The evaluator that an engine has at hand for a tenant: the one that is kept, or the one that the
store would give now. Checks change which evaluators are kept, count uses and write to the cache, but
not what is at hand, whatever the state in which the first of them finds the engine.
-/
namespace AccessPolicy

namespace Engine

open Act hiding pure bind state

variable {ε : Type} {engine one two three : Engine} {tenant : TenantId} {request : CheckRequest}

section Building

/-- The evaluator that the store gives for a tenant now. -/
def built (engine : Engine) (tenant : TenantId) : Outcome EvaluatorError Evaluator :=
  match engine.commons.store.find (RuleFilter.ofTenant tenant) with
  | .error fault => .error (.store fault)
  | .ok rules =>
    match Evaluator.build tenant rules engine.now with
    | .ok evaluator => .ok evaluator
    | .error _ => .halted .calendarEnd

/-- The evaluator that is kept, unless it is stale and the store gives another one. -/
def atHand (engine : Engine) (tenant : TenantId) : Outcome EvaluatorError Evaluator :=
  match engine.evaluator? tenant with
  | none => engine.built tenant
  | some kept =>
    if kept.isStale engine.now then
      match engine.built tenant with
      | .error _ => .ok kept
      | outcome => outcome
    else .ok kept

theorem atHand_of_fresh {evaluator : Evaluator} (kept : engine.evaluator? tenant = some evaluator)
    (fresh : evaluator.isStale engine.now = false) : engine.atHand tenant = .ok evaluator := by
  unfold atHand
  simp [kept, fresh]

theorem built_congr (now : two.now = one.now)
    (available : two.commons.store.available = one.commons.store.available)
    (rows : two.commons.store.rowsOf tenant = one.commons.store.rowsOf tenant) :
    two.built tenant = one.built tenant := by
  unfold built
  rw [RuleStore.find_ofTenant, RuleStore.find_ofTenant, available, rows, now]

/-- An evaluator that the store gives is not stale. -/
theorem isStale_of_built {evaluator : Evaluator} (given : engine.built tenant = .ok evaluator) :
    evaluator.isStale engine.now = false := by
  unfold built at given
  split at given
  · cases given
  · split at given
    · rename_i found compiled
      cases given
      exact Evaluator.isStale_of_build compiled
    · cases given

/-- Only an outage of the store keeps an evaluator from being built with an error. -/
theorem unavailable_of_built {cause : EvaluatorError} (given : engine.built tenant = .error cause) :
    engine.commons.store.available = false := by
  unfold built at given
  rw [RuleStore.find_ofTenant] at given
  cases available : engine.commons.store.available with
  | false => rfl
  | true =>
    rw [available, if_pos rfl] at given
    dsimp only at given
    split at given <;> cases given

/-- The time that an evaluator takes to build never ends a call that has no deadline. -/
theorem atHand_ne_deadline (engine : Engine) (tenant : TenantId) :
    engine.atHand tenant ≠ .halted .deadline := by
  have unbuilt : engine.built tenant ≠ .halted .deadline := by
    unfold built
    split
    · simp
    · split <;> simp
  unfold atHand
  split
  · exact unbuilt
  · split
    · split
      · simp
      · exact unbuilt
    · simp

end Building

/-- Nothing ends the calls of the engine early. -/
structure Unhurried (engine : Engine) : Prop where
  deadline : engine.timing.deadline = none
  last : engine.timing.last = none

theorem unhurried_newCall (engine : Engine) : engine.newCall.Unhurried :=
  ⟨rfl, rfl⟩

/-- What is at hand for the tenant does not depend on the tenant's rows any more: the store is out of
reach, or there is an evaluator that is not stale. -/
def Settled (engine : Engine) (tenant : TenantId) : Prop :=
  engine.commons.store.available = false ∨
    ∃ kept, engine.evaluator? tenant = some kept ∧ kept.isStale engine.now = false

/-- What is served from the cache is what the evaluators at hand decide. -/
def Truthful (engine : Engine) : Prop :=
  ∀ request decision, (engine.own.cache.get engine.now request).1 = some decision →
    ∃ evaluator, engine.atHand request.tenant = .ok evaluator ∧
      decision.Agrees (evaluator.ruled request)

/-- What does not change while requests are decided. -/
structure Persists (one other : Engine) : Prop where
  now : other.now = one.now
  settings : other.own.settings = one.own.settings
  enrichers : other.own.enrichers = one.own.enrichers
  available : other.commons.store.available = one.commons.store.available
  atHand : ∀ tenant, other.atHand tenant = one.atHand tenant
  settled : ∀ tenant, one.Settled tenant → other.Settled tenant
  unhurried : one.Unhurried → other.Unhurried
  truthful : one.Truthful → other.Truthful

namespace Persists

theorem refl (engine : Engine) : Persists engine engine :=
  ⟨rfl, rfl, rfl, rfl, fun _ => rfl, fun _ => id, id, id⟩

theorem trans (first : Persists one two) (second : Persists two three) : Persists one three where
  now := second.now.trans first.now
  settings := second.settings.trans first.settings
  enrichers := second.enrichers.trans first.enrichers
  available := second.available.trans first.available
  atHand := fun tenant => (second.atHand tenant).trans (first.atHand tenant)
  settled := fun tenant settled => second.settled tenant (first.settled tenant settled)
  unhurried := fun unhurried => second.unhurried (first.unhurried unhurried)
  truthful := fun truthful => second.truthful (first.truthful truthful)

theorem withTiming {timing : Timing} (unhurried : (engine.withTiming timing).Unhurried) :
    Persists engine (engine.withTiming timing) :=
  ⟨rfl, rfl, rfl, rfl, fun _ => rfl, fun _ => id, fun _ => unhurried, id⟩

theorem auditDecision (engine : Engine) (request : CheckRequest) (asked : Bool)
    (decision : Decision) : Persists engine (engine.auditDecision request asked decision) := by
  unfold Engine.auditDecision
  split
  · exact ⟨rfl, rfl, rfl, rfl, fun _ => rfl, fun _ => id,
      fun unhurried => ⟨unhurried.1, unhurried.2⟩, id⟩
  · exact .refl engine

/-- An evaluator that was at hand may as well be kept. -/
theorem put {evaluator : Evaluator} (given : engine.atHand tenant = .ok evaluator)
    (fresh : evaluator.isStale engine.now = false) :
    Persists engine (engine.withEvaluators (engine.own.evaluators.put tenant evaluator)) := by
  let kept := engine.withEvaluators (engine.own.evaluators.put tenant evaluator)
  have resident : kept.evaluator? tenant = some evaluator := Table.get?_put_self ..
  have elsewhere (other : TenantId) (apart : other ≠ tenant) :
      kept.evaluator? other = engine.evaluator? other := Table.get?_put_of_ne _ _ apart
  have same (other : TenantId) : kept.atHand other = engine.atHand other := by
    by_cases own : other = tenant
    · rw [own, given]
      exact atHand_of_fresh resident fresh
    · unfold Engine.atHand
      rw [elsewhere other own]
      rfl
  refine ⟨rfl, rfl, rfl, rfl, same, ?_, fun unhurried => ⟨unhurried.1, unhurried.2⟩, ?_⟩
  · intro other settled
    by_cases own : other = tenant
    · subst own
      exact Or.inr ⟨evaluator, resident, fresh⟩
    · refine settled.imp_right fun ⟨held, found, current⟩ => ⟨held, ?_, current⟩
      exact (elsewhere other own).trans found
  · intro truthful request decision found
    rw [same]
    exact truthful request decision found

theorem withCache {cache : DecisionCache} (truthful : engine.Truthful →
      ∀ request decision, (cache.get engine.now request).1 = some decision →
        ∃ evaluator, engine.atHand request.tenant = .ok evaluator ∧
          decision.Agrees (evaluator.ruled request)) :
    Persists engine (engine.withCache cache) :=
  ⟨rfl, rfl, rfl, rfl, fun _ => rfl, fun _ => id, fun unhurried => ⟨unhurried.1, unhurried.2⟩,
    truthful⟩

/-- Uses of a tenant's rules are counted when its evaluator is settled. -/
theorem recordUsage (settled : engine.Settled tenant) (ids : List RuleId) :
    Persists engine
      (engine.withStore (engine.commons.store.recordUsage tenant ids engine.now).2) := by
  let counted := engine.withStore (engine.commons.store.recordUsage tenant ids engine.now).2
  have available : counted.commons.store.available = engine.commons.store.available :=
    (RuleStore.recordUsage_switches _ _ _ _).1
  have same (other : TenantId) : counted.atHand other = engine.atHand other := by
    by_cases own : other = tenant
    · subst own
      rcases settled with down | ⟨kept, resident, fresh⟩
      · have idle : engine.commons.store.recordUsage other ids engine.now =
            (.error .unavailable, engine.commons.store) := by
          simp [RuleStore.recordUsage, down]
        have unchanged : counted = engine := by
          simp [counted, idle, withStore]
        rw [unchanged]
      · rw [atHand_of_fresh resident fresh]
        have residentToo : counted.evaluator? other = some kept := resident
        exact atHand_of_fresh residentToo fresh
    · have rows : counted.commons.store.rowsOf other = engine.commons.store.rowsOf other :=
        RuleStore.rowsOf_recordUsage_foreign (Ne.symm own) ids engine.now
      have given : counted.built other = engine.built other := built_congr rfl available rows
      unfold Engine.atHand
      rw [given]
      rfl
  refine ⟨rfl, rfl, rfl, available, same, ?_, fun unhurried => ⟨unhurried.1, unhurried.2⟩, ?_⟩
  · intro other before
    exact before.imp_left fun down => available.trans down
  · intro truthful request decision found
    rw [same]
    exact truthful request decision found

end Persists

section Access

theorem waitUntil_of_unhurried (unhurried : engine.Unhurried) (moment : Nat) :
    ∃ timing, (engine.withTiming timing).Unhurried ∧
      (waitUntil moment : Act Engine ε Unit) engine = (.ok (), engine.withTiming timing) := by
  refine ⟨(engine.timing.goTo moment).2, ⟨unhurried.deadline, unhurried.last⟩, ?_⟩
  rw [waitUntil_apply]
  simp [Timing.goTo, unhurried.deadline, unhurried.last]

/-- A search ends as the store has it, after the time that it takes. -/
theorem find_of_unhurried (unhurried : engine.Unhurried) (filter : RuleFilter) :
    ∃ timing, (engine.withTiming timing).Unhurried ∧
      find filter engine =
        Act.ofExcept (engine.commons.store.find filter) (engine.withTiming timing) := by
  obtain ⟨timing, free, waited⟩ := waitUntil_of_unhurried (ε := StoreError) unhurried
    (engine.timing.elapsed + engine.commons.findDelay)
  refine ⟨timing, free, ?_⟩
  unfold find
  rw [bind_apply, state_apply]
  dsimp only
  rw [bind_apply, waited]

theorem buildEvaluator_of_unhurried (unhurried : engine.Unhurried) (tenant : TenantId) :
    ∃ timing, (engine.withTiming timing).Unhurried ∧
      buildEvaluator tenant engine = (engine.built tenant, engine.withTiming timing) := by
  obtain ⟨timing, free, found⟩ := find_of_unhurried unhurried (RuleFilter.ofTenant tenant)
  refine ⟨timing, free, ?_⟩
  unfold buildEvaluator built
  rw [bind_apply, state_apply]
  dsimp only
  rw [bind_apply, mapError_apply, found]
  cases engine.commons.store.find (RuleFilter.ofTenant tenant) with
  | error fault => rfl
  | ok rules =>
    change (match Evaluator.build tenant rules engine.now with
      | .ok evaluator => Pure.pure evaluator
      | .error _ => Act.halt .calendarEnd : Act Engine EvaluatorError Evaluator)
        (engine.withTiming timing) = _
    dsimp only
    cases Evaluator.build tenant rules engine.now <;> rfl

/-- A rebuild ends as the store has it, and what the store gives is kept. -/
theorem rebuild_of_unhurried (unhurried : engine.Unhurried) (tenant : TenantId) :
    ∃ timing, (engine.withTiming timing).Unhurried ∧
      rebuild tenant engine = (engine.built tenant,
        (match engine.built tenant with
          | .ok evaluator =>
            engine.withEvaluators (engine.own.evaluators.put tenant evaluator)
          | _ => engine).withTiming timing) := by
  obtain ⟨timing, free, build⟩ := buildEvaluator_of_unhurried unhurried tenant
  refine ⟨timing.endBuild tenant, ⟨free.deadline, free.last⟩, ?_⟩
  unfold rebuild timingBuild
  rw [bind_apply, build]
  cases engine.built tenant <;> rfl

/-- What a rebuild leaves behind for a tenant that had none, or a stale one, at hand. -/
theorem persists_rebuild {timing : Timing} (free : (engine.withTiming timing).Unhurried)
    (asked : ∀ evaluator, engine.built tenant = .ok evaluator →
      engine.atHand tenant = .ok evaluator) :
    Persists engine ((match engine.built tenant with
      | .ok evaluator => engine.withEvaluators (engine.own.evaluators.put tenant evaluator)
      | _ => engine).withTiming timing) := by
  cases given : engine.built tenant with
  | ok evaluator =>
    have kept := Persists.put (asked evaluator given) (isStale_of_built given)
    exact kept.trans (.withTiming ⟨free.deadline, free.last⟩)
  | error cause => exact .withTiming free
  | halted halt => exact .withTiming free

/-- The action hands out the evaluator at hand, and the tenant is settled. -/
def HandsOut (engine : Engine) (tenant : TenantId) (action : Act Engine EvaluatorError Evaluator) :
    Prop :=
  ∃ after, action engine = (engine.atHand tenant, after) ∧ Persists engine after ∧
    ((∃ found, engine.atHand tenant = .ok found) → after.Settled tenant)

theorem handsOut_kept {kept : Evaluator} (resident : engine.evaluator? tenant = some kept)
    (fresh : kept.isStale engine.now = false) : engine.HandsOut tenant (Pure.pure kept) := by
  refine ⟨engine, ?_, .refl engine, fun _ => Or.inr ⟨kept, resident, fresh⟩⟩
  rw [atHand_of_fresh resident fresh]
  rfl

theorem handsOut_rebuild (unhurried : engine.Unhurried) (absent : engine.evaluator? tenant = none) :
    engine.HandsOut tenant (rebuild tenant) := by
  obtain ⟨timing, free, rebuilt⟩ := rebuild_of_unhurried unhurried tenant
  have same : engine.atHand tenant = engine.built tenant := by
    unfold atHand
    rw [absent]
  refine ⟨_, rebuilt.trans (by rw [same]), persists_rebuild free fun _ => same.trans, ?_⟩
  rintro ⟨found, given⟩
  rw [same] at given
  rw [given]
  exact Or.inr ⟨found, Table.get?_put_self .., isStale_of_built given⟩

/-- One that is stale goes on serving when the store gives no other. -/
theorem handsOut_renewed {kept : Evaluator} (unhurried : engine.Unhurried)
    (resident : engine.evaluator? tenant = some kept) (stale : kept.isStale engine.now = true) :
    engine.HandsOut tenant (do
      match ← (rebuild tenant).attempt with
      | .ok fresh => Pure.pure fresh
      | .error _ => Pure.pure kept) := by
  obtain ⟨timing, free, rebuilt⟩ := rebuild_of_unhurried unhurried tenant
  have same : engine.atHand tenant = match engine.built tenant with
      | .error _ => .ok kept
      | outcome => outcome := by
    unfold atHand
    rw [resident]
    dsimp only
    rw [if_pos stale]
  have rebuilds := persists_rebuild free fun evaluator given => by
    rw [same, given]
  unfold HandsOut
  rw [bind_apply]
  unfold Act.attempt
  rw [rebuilt]
  cases given : engine.built tenant with
  | ok fresh =>
    rw [given] at same rebuilds
    rw [same]
    exact ⟨_, rfl, rebuilds, fun _ =>
      Or.inr ⟨fresh, Table.get?_put_self .., isStale_of_built given⟩⟩
  | error cause =>
    rw [given] at same rebuilds
    rw [same]
    exact ⟨_, rfl, rebuilds, fun _ => Or.inl (unavailable_of_built given)⟩
  | halted halt =>
    rw [given] at same rebuilds
    rw [same]
    exact ⟨_, rfl, rebuilds, fun ⟨_, impossible⟩ => nomatch impossible⟩

theorem evaluator_of_unhurried (unhurried : engine.Unhurried) (tenant : TenantId) :
    engine.HandsOut tenant (evaluator tenant) := by
  obtain ⟨waited, free, waits⟩ := waitUntil_of_unhurried (ε := EvaluatorError) unhurried
    (engine.timing.afterBuild tenant)
  let ready := engine.withTiming waited
  have persists : Persists engine ready := .withTiming free
  suffices answered : ready.HandsOut tenant (match ready.evaluator? tenant with
      | none => rebuild tenant
      | some kept => if kept.isStale ready.now then do
          match ← (rebuild tenant).attempt with
          | .ok fresh => Pure.pure fresh
          | .error _ => Pure.pure kept
        else Pure.pure kept) by
    obtain ⟨after, answer, kept, settles⟩ := answered
    rw [persists.atHand] at answer settles
    refine ⟨after, ?_, persists.trans kept, settles⟩
    unfold evaluator awaitBuild
    rw [bind_apply, bind_apply, state_apply]
    dsimp only
    rw [waits]
    exact answer
  cases resident : ready.evaluator? tenant with
  | none => exact handsOut_rebuild free resident
  | some kept =>
    dsimp only
    cases stale : kept.isStale ready.now with
    | false => exact handsOut_kept resident stale
    | true => exact handsOut_renewed free resident stale

/-- A question to the evaluator at hand. -/
theorem ask_of_unhurried {α : Type} (unhurried : engine.Unhurried) (tenant : TenantId)
    (ask : Evaluator → α) :
    ∃ after, (do pure (ask (← evaluator tenant)) : Act Engine EvaluatorError α) engine =
        ((engine.atHand tenant).map ask, after) ∧ Persists engine after ∧
      ((∃ found, engine.atHand tenant = .ok found) → after.Settled tenant) := by
  obtain ⟨after, answer, persists, settles⟩ := evaluator_of_unhurried unhurried tenant
  refine ⟨after, ?_, persists, settles⟩
  rw [bind_pure_apply, answer]

theorem recordUse_of_settled (settled : engine.Settled tenant) (ids : List RuleId) :
    ∃ after, (recordUse tenant ids : Act Engine ε Unit) engine = (.ok (), after) ∧
      Persists engine after := by
  have persists := Persists.recordUsage settled ids
  unfold recordUse
  rw [bind_apply, state_apply]
  dsimp only
  rw [bind_apply]
  unfold Act.attempt onStore
  dsimp only
  generalize engine.commons.store.recordUsage tenant ids engine.now = counted at persists ⊢
  obtain ⟨result, store⟩ := counted
  cases result <;> exact ⟨_, rfl, persists⟩

/-- A step of the cache beside a check that nothing hurries. -/
theorem consultCache_of_unhurried {α : Type} (unhurried : engine.Unhurried)
    (step : DecisionCache → α × DecisionCache) :
    (consultCache step : Act Engine ε α) engine =
      (.ok (step engine.own.cache).1, engine.withCache (step engine.own.cache).2) := by
  have free : (engine.withCache (step engine.own.cache).2).timing.isOver = false := by
    change (engine.timing.deadline == some engine.timing.elapsed) = false
    rw [unhurried.deadline]
    rfl
  unfold consultCache
  dsimp only
  rw [free]
  rfl

theorem lookUp_of_unhurried (unhurried : engine.Unhurried) (request : CheckRequest) :
    ∃ after, (lookUp request : Act Engine ε (Option Decision)) engine =
        (.ok (engine.own.cache.get engine.now request).1, after) ∧ Persists engine after := by
  unfold lookUp
  rw [bind_apply, state_apply]
  refine ⟨_, consultCache_of_unhurried unhurried _, Persists.withCache ?_⟩
  intro truthful other decision found
  exact truthful other decision
    (DecisionCache.get_of_narrows (DecisionCache.get_narrows _ _ request) found)

/-- What the evaluator at hand decides may be kept. -/
theorem remember_of_unhurried (unhurried : engine.Unhurried) {evaluator : Evaluator}
    (given : engine.atHand request.tenant = .ok evaluator) (bound : Option Instant) :
    ∃ after, (remember request (evaluator.ruled request) bound : Act Engine ε Unit) engine =
        (.ok (), after) ∧ Persists engine after := by
  unfold remember
  rw [bind_apply, state_apply]
  refine ⟨_, consultCache_of_unhurried unhurried _, Persists.withCache ?_⟩
  intro truthful other decision found
  rcases DecisionCache.get_of_set (Decision.carried_ofEvaluation _) found with ⟨same, rfl⟩ | before
  · obtain ⟨tenant, ruled⟩ := evaluator.ruled_congr same
    refine ⟨evaluator, tenant ▸ given, ?_⟩
    rw [ruled]
    exact ⟨rfl, rfl, rfl⟩
  · exact truthful other decision before

end Access

/-- A coherent engine has cached what its evaluators decide. -/
theorem Coherent.truthful (coherent : Coherent (Regime.steady True) engine) : engine.Truthful := by
  intro request decision found
  obtain ⟨rendering, renders, asked⟩ := coherent.asked request.tenant id
  obtain ⟨_, answer, _⟩ := ask_of_unhurried (unhurried_newCall engine) request.tenant id
  have given : engine.atHand request.tenant = .ok rendering := by
    rw [answer] at asked
    cases atHand : engine.newCall.atHand request.tenant with
    | ok evaluator =>
      rw [atHand] at asked
      cases asked
      exact atHand
    | error cause =>
      rw [atHand] at asked
      cases asked
    | halted halt =>
      rw [atHand] at asked
      cases asked
  obtain ⟨_, looked, _⟩ := lookUp_of_unhurried (ε := Empty) (unhurried_newCall engine) request
  have right := (yields_lookUp (ε := Empty) coherent.newCall request).ensures
    (not_hurried_steady True)
  obtain ⟨_, _, ends, told, _⟩ := Leads.exists_ok right
  rw [looked] at ends
  cases ends
  have same := told decision found (covers_steady request true false)
  rw [Serves.enrich_plain coherent.newCall trivial not_false] at same
  refine ⟨rendering, given, Decision.agrees_of_unmarked_eq (same.trans ?_)⟩
  rw [renders.mirrors.ruled_eq (mirrors_reference engine request.tenant)]
  rfl

end Engine

end AccessPolicy
