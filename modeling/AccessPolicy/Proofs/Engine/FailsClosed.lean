import AccessPolicy.Proofs.Engine.Footprint
import AccessPolicy.Proofs.Engine.History
import AccessPolicy.Proofs.Engine.Origin

/-!
An engine fails closed. Through every call, outage and move of the clocks, what an engine has cached
comes from evaluators that it held, so that what it allows is allowed by one of them.
-/
namespace AccessPolicy

namespace Engine

open Act hiding pure bind state

variable {engine after : Engine}

section Narrowing

/-- Nothing has been cached since. -/
structure Narrowed (base engine : Engine) : Prop where
  settings : engine.own.settings = base.own.settings
  enrichers : engine.own.enrichers = base.own.enrichers
  narrows : engine.own.cache.backend.Narrows base.own.cache.backend

variable {base : Engine}

theorem narrowed_refl (base : Engine) : Narrowed base base :=
  ⟨rfl, rfl, CacheBackend.Narrows.refl _⟩

theorem Narrowed.withCache (narrowed : Narrowed base engine) {cache : DecisionCache}
    (narrows : cache.backend.Narrows engine.own.cache.backend) :
    Narrowed base (engine.withCache cache) :=
  ⟨narrowed.settings, narrowed.enrichers, narrows.trans narrowed.narrows⟩

theorem admits_narrowed (base : Engine) : AdmitsSync (Narrowed base) where
  timing := fun _ narrowed => ⟨narrowed.settings, narrowed.enrichers, narrowed.narrows⟩
  build := fun _ _ narrowed => ⟨narrowed.settings, narrowed.enrichers, narrowed.narrows⟩
  drop := fun _ narrowed => ⟨narrowed.settings, narrowed.enrichers, narrowed.narrows⟩
  updateRow := fun _ narrowed => ⟨narrowed.settings, narrowed.enrichers, narrowed.narrows⟩
  deleteRow := fun _ _ narrowed => ⟨narrowed.settings, narrowed.enrichers, narrowed.narrows⟩
  forget := fun _ _ narrowed => narrowed.withCache (DecisionCache.narrows_delete _ _)
  publish := fun _ narrowed => ⟨narrowed.settings, narrowed.enrichers, narrowed.narrows⟩
  dropAll := fun narrowed => ⟨narrowed.settings, narrowed.enrichers, narrowed.narrows⟩
  listener := fun _ narrowed => ⟨narrowed.settings, narrowed.enrichers, narrowed.narrows⟩
  clear := fun _ narrowed => narrowed.withCache (DecisionCache.narrows_delete _ _)

end Narrowing

section Histories

variable {settings : Settings} {past : List Engine}

/-- One of the states has the evaluator for the tenant. -/
def HeldIn (states : List Engine) (tenant : TenantId) (evaluator : Evaluator) : Prop :=
  ∃ state ∈ states, state.evaluator? tenant = some evaluator

theorem heldIn_of_known {tenant : TenantId} {evaluator : Evaluator}
    (known : Known (HeldIn past) engine tenant evaluator) :
    HeldIn (engine :: past) tenant evaluator := by
  rcases known with ⟨state, member, present⟩ | present
  · exact ⟨state, List.mem_cons_of_mem _ member, present⟩
  · exact ⟨engine, List.mem_cons_self .., present⟩

/-- An engine between its calls: all that it has cached comes from evaluators that it held. -/
structure Rooted (settings : Settings) (states : List Engine) (engine : Engine) : Prop where
  settings : engine.own.settings = settings
  enrichers : engine.own.enrichers = []
  sources : Sources engine.own.cache (HeldIn states)

theorem Rooted.sourced (rooted : Rooted settings (engine :: past) engine) :
    Sourced (HeldIn (engine :: past)) engine.newCall :=
  ⟨rooted.enrichers, fun _ _ present => Or.inl ⟨engine, List.mem_cons_self .., present⟩,
    rooted.sources.mono fun _ _ => Or.inl⟩

theorem Rooted.traced (rooted : Rooted settings past engine) (traces : Traces (HeldIn past) engine after) :
    Rooted settings (after :: past) after :=
  ⟨traces.settings.trans rooted.settings, traces.sourced.enrichers,
    traces.sourced.sources.mono fun _ _ => heldIn_of_known⟩

theorem Rooted.narrowed (rooted : Rooted settings past engine) (narrowed : Narrowed engine after) :
    Rooted settings (after :: past) after := by
  have sources : Sources after.own.cache (HeldIn past) :=
    rooted.sources.of_narrows narrowed.narrows
  refine ⟨narrowed.settings.trans rooted.settings, narrowed.enrichers.trans rooted.enrichers, ?_⟩
  exact sources.mono fun _ _ before => heldIn_of_known (Or.inl before)

theorem Rooted.perform (rooted : Rooted settings (engine :: past) engine) (command : Command) :
    Rooted settings (command.perform engine.newCall :: engine :: past)
      (command.perform engine.newCall) := by
  have calls : Rooted settings (engine :: past) engine.newCall :=
    ⟨rooted.settings, rooted.enrichers, rooted.sources⟩
  have sourced := rooted.sourced
  have admits := (admits_narrowed engine.newCall).toAdmits
  have every : command.For fun _ => True := by
    cases command <;> simp [Command.For]
  have plain (known : command.decides = false) : Rooted settings
      (command.perform engine.newCall :: engine :: past) (command.perform engine.newCall) :=
    calls.narrowed (admits.perform admits (fun _ kept => kept)
      (fun _ _ _ kept => ⟨kept.settings, kept.enrichers, kept.narrows⟩) known every
      (narrowed_refl _))
  cases command with
  | check request options expand =>
    exact calls.traced (carries_check sourced request options expand).settled
  | checkPermission tenant caller query =>
    exact calls.traced (carries_checkPermission sourced tenant caller query).settled
  | batch requests options failFast =>
    exact calls.traced (carries_batch sourced requests options failFast).settled
  | batchPermission tenant caller queries failFast =>
    exact calls.traced (carries_batchPermission sourced tenant caller queries failFast).settled
  | _ => exact plain rfl

theorem Rooted.turn (rooted : Rooted settings (engine :: past) engine) (turn : Turn engine after) :
    Rooted settings (after :: engine :: past) after := by
  have calls : Narrowed engine engine.newCall := ⟨rfl, rfl, CacheBackend.Narrows.refl _⟩
  have admits := admits_narrowed engine
  cases turn with
  | call command => exact rooted.perform command
  | listen => exact rooted.narrowed (admits.listen _ calls)
  | shutdown => exact rooted.narrowed (admits.shutdown _ calls)
  | takeChanges => exact rooted.narrowed (admits.takeChanges _ calls)
  | applyChange change => exact rooted.narrowed (admits.applyChange change _ calls)
  | share commons ordered => exact rooted.narrowed ⟨rfl, rfl, CacheBackend.Narrows.refl _⟩
  | elapse nanos => exact rooted.narrowed ⟨rfl, rfl, CacheBackend.narrows_elapse _ nanos⟩
  | outage available =>
    refine ⟨rooted.settings, rooted.enrichers, ?_⟩
    have same : Sources
        (engine.withBackend (engine.own.cache.backend.setAvailable available)).own.cache
        (HeldIn (engine :: past)) :=
      ⟨rooted.sources.decision_of_live, rooted.sources.roles_of_live⟩
    exact same.mono fun _ _ before => heldIn_of_known (Or.inl before)

theorem rooted_of_lived {commons : Commons} {id : Uuid} {auditing : Bool}
    (lived : Lived ⟨commons, Replica.start id settings [] auditing, .start⟩ past engine) :
    Rooted settings (engine :: past) engine := by
  induction lived with
  | start => exact ⟨rfl, rfl, DecisionCache.keeps_ofSeconds _ _⟩
  | turn _ step ih => exact ih.turn step

/-- What an allowing decision rests on: a role that the caller brings along, or an evaluator. -/
def Warranted (engine : Engine) (held : TenantId → Evaluator → Prop) (request : CheckRequest)
    (expand : Bool) (decision : Decision) : Prop :=
  engine.own.settings.superadminRole ∈ request.callerRoles ∨
    decision.reason ≠ Reason.superadmin ∧ Origin (held request.tenant) request.about expand

theorem warranted_of_explained {request : CheckRequest} {expand : Bool}
    {decision : Decision} (explained : engine.isSuperadmin request = false →
      decision.Explained (Known (HeldIn past) after request.tenant) request.about expand)
    (allowed : decision.allowed = true) :
    Warranted engine (HeldIn (after :: past)) request expand decision := by
  cases super : engine.isSuperadmin request with
  | true => exact Or.inl (List.contains_iff_mem.mp super)
  | false =>
    obtain ⟨ordinary, origin⟩ := explained super allowed
    exact Or.inr ⟨ordinary, origin.mono fun _ => heldIn_of_known⟩

/-- The answers that an engine gives after its past allow only what is warranted by the evaluators
that it has held up to the end of the call. A check that fails, or that runs out of time in any
state of a call, does not allow. -/
structure FailsClosed (past : List Engine) (engine : Engine) : Prop where
  check : ∀ request options expand decision after,
    check request options expand engine.newCall = (.ok decision, after) → decision.allowed = true →
      Warranted engine (HeldIn (after :: engine :: past)) request expand decision
  checkPermission : ∀ tenant caller query decision after,
    (checkPermission tenant caller query : Act Engine Empty Decision) engine.newCall =
      (.ok decision, after) → decision.allowed = true →
      Warranted engine (HeldIn (after :: engine :: past)) (query.toRequest tenant caller)
        query.expandRoles decision
  batch : ∀ requests options failFast decisions after,
    batch requests options failFast engine.newCall = (.ok decisions, after) →
      ∀ (place : Nat) (decision : Decision), decisions[place]? = some decision →
        decision.allowed = true → ∃ request, requests[place]? = some request ∧
          Warranted engine (HeldIn (after :: engine :: past)) request false decision
  batchPermission : ∀ tenant caller queries failFast response after,
    batchPermission tenant caller queries failFast engine.newCall = (.ok response, after) →
      ∀ (place : Nat) (decision : Decision), response.decisions[place]? = some decision →
        decision.allowed = true → ∃ query : PermissionQuery, queries[place]? = some query ∧
          Warranted engine (HeldIn (after :: engine :: past)) (query.toRequest tenant caller) false
            decision
  failed : ∀ (state : Engine) tenant caller (query : PermissionQuery) fault after,
    Engine.check (query.toRequest tenant caller) query.options query.expandRoles state =
      (.error fault, after) →
      (Engine.checkPermission tenant caller query : Act Engine Empty Decision) state =
        (.ok (Decision.deny fault.message), after)
  failedItem : ∀ (answer : BatchAnswer) fault, answer.result = .error fault →
    answer.decision.allowed = false
  late : ∀ (state : Engine) (request : CheckRequest) options expand after,
    request.missingField? = none →
    (if expand then decideExpanded request options.useCache else decide request options.useCache)
      (state.withDeadline ((options.deadline <|> state.own.settings.checkTimeout).map
        (state.timing.elapsed + ·))) = (.halted .deadline, after) →
      (Engine.check request options expand state).1 = .ok (Decision.deny Reason.deadline)

theorem check_of_late {state : Engine} {request : CheckRequest} {options : CheckOptions}
    {expand : Bool} (complete : request.missingField? = none)
    (late : (if expand then decideExpanded request options.useCache
        else decide request options.useCache)
      (state.withDeadline ((options.deadline <|> state.own.settings.checkTimeout).map
        (state.timing.elapsed + ·))) = (.halted .deadline, after)) :
    Engine.check request options expand state =
      (.ok (Decision.deny Reason.deadline), auditDecision request options.audit
        (Decision.deny Reason.deadline) (after.withDeadline state.timing.deadline)) := by
  unfold Engine.check
  rw [complete]
  dsimp only
  rw [bind_apply, state_apply]
  dsimp only
  rw [bind_apply, within, late]
  rfl

/-- Whatever has failed in an engine's past and however the clocks have gone, it allows only what one
of its evaluators allows or has allowed, or what the superadmin's role allows to its bearer. -/
theorem failsClosed_of_lived {commons : Commons} {id : Uuid} {auditing : Bool}
    (lived : Lived ⟨commons, Replica.start id settings [] auditing, .start⟩ past engine) :
    FailsClosed past engine := by
  have rooted := rooted_of_lived lived
  have sourced := rooted.sourced
  constructor
  · intro request options expand decision after ends
    exact warranted_of_explained ((carries_check sourced request options expand).of_eq_ok ends).2
  · intro tenant caller query decision after ends
    exact warranted_of_explained ((carries_checkPermission sourced tenant caller query).of_eq_ok ends).2
  · intro requests options failFast decisions after ends place decision present allowed
    have decided := ((carries_batch sourced requests options failFast).of_eq_ok ends).2
    obtain ⟨request, asked, explained⟩ := decided place decision present
    exact ⟨request, asked, warranted_of_explained explained allowed⟩
  · intro tenant caller queries failFast response after ends place decision present allowed
    have decided := ((carries_batchPermission sourced tenant caller queries failFast).of_eq_ok ends).2
    obtain ⟨request, asked, explained⟩ := decided place decision present
    rw [List.getElem?_map] at asked
    obtain ⟨query, listed, same⟩ := Option.map_eq_some_iff.mp asked
    subst same
    exact ⟨query, listed, warranted_of_explained explained allowed⟩
  · intro state tenant caller query fault after ends
    unfold Engine.checkPermission
    rw [bind_apply, Act.attempt, ends]
    rfl
  · exact fun _ _ => allowed_of_error
  · exact fun _ _ _ _ _ complete late => congrArg Prod.fst (check_of_late complete late)

theorem failsClosed_answered : Lived started [granting, started] answered ∧
    FailsClosed [granting, started] answered :=
  ⟨lived_answered, failsClosed_of_lived lived_answered⟩

end Histories

end Engine

end AccessPolicy
