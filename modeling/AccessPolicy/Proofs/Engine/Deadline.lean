import AccessPolicy.Proofs.DecisionCache.Sifting
import AccessPolicy.Proofs.Engine.FailsClosed
import AccessPolicy.Proofs.Engine.Run
import AccessPolicy.Proofs.Engine.Siblings
import AccessPolicy.Proofs.Engine.Usage

/-!
A missed deadline leaves no trace. With a deadline shorter than a search of the store a check is late only
when it needs an evaluator that has to be built, and then it has done nothing but read the cache.
-/
namespace AccessPolicy

theorem Timing.goTo_zero {timing : Timing} (start : timing.elapsed = 0) (last : timing.last = none) :
    timing.goTo 0 = (none, timing) := by
  obtain ⟨elapsed, deadline, _, builds⟩ := timing
  subst start last
  cases deadline <;> simp [goTo, Option.filter]

namespace Engine

open Act hiding pure bind state

variable {ε α : Type} {engine base : Engine} {tenant : TenantId} {request : CheckRequest}

section Recalling

/-- The tenant has an evaluator that is not stale. -/
def Ready (engine : Engine) (tenant : TenantId) : Prop :=
  ∃ kept, engine.evaluator? tenant = some kept ∧ kept.isStale engine.now = false

/-- What the caller's role or the cache decides. -/
def recalled (request : CheckRequest) (useCache : Bool) (engine : Engine) : Option Decision :=
  if engine.isSuperadmin request then some engine.superadminDecision
  else if useCache then (engine.own.cache.get engine.now request).1
  else none

def recalledRoles (tenant : TenantId) (subject : String) (useCache : Bool) (engine : Engine) :
    Option (List String) :=
  if useCache then (engine.own.cache.getRoles engine.now tenant subject).1 else none

/-- The first allow that is recalled for a role, if all that come before it are recalled. -/
def firstRecalled (request : CheckRequest) (useCache : Bool) (engine : Engine) :
    List String → Option (Option Decision)
  | [] => some none
  | role :: rest => do
    let decision ← engine.recalled (request.asSubject role) useCache
    if decision.allowed then pure (some (viaRole decision role))
    else engine.firstRecalled request useCache rest

def recalledExpanded (request : CheckRequest) (useCache : Bool) (engine : Engine) :
    Option Decision := do
  let direct ← engine.recalled request useCache
  if direct.allowed then pure (nameRole direct)
  else if direct.explicitDeny then pure direct
  else
    let roles ← engine.recalledRoles request.tenant request.subject useCache
    let found ← engine.firstRecalled request useCache roles
    pure (found.getD direct)

/-- What is decided without an evaluator, by the subject alone or also by its roles. -/
def recalledAnswer (request : CheckRequest) (useCache expand : Bool) (engine : Engine) :
    Option Decision :=
  if expand then engine.recalledExpanded request useCache else engine.recalled request useCache

end Recalling

section Asking

/-- Nothing has happened to the engine but reads of its cache, and time. -/
structure Untouched (base engine : Engine) : Prop where
  commons : engine.commons = base.commons
  own : engine.own = { base.own with cache := engine.own.cache }
  cache : DecisionCache.Sifts base.now base.own.cache engine.own.cache

theorem untouched_refl (engine : Engine) : Untouched engine engine :=
  ⟨rfl, rfl, .refl _ _⟩

theorem Untouched.withTiming (untouched : Untouched base engine) (timing : Timing) :
    Untouched base (engine.withTiming timing) :=
  ⟨untouched.commons, untouched.own, untouched.cache⟩

theorem Untouched.withCache (untouched : Untouched base engine) {cache : DecisionCache}
    (sifts : DecisionCache.Sifts base.now engine.own.cache cache) :
    Untouched base (engine.withCache cache) := by
  refine ⟨untouched.commons, ?_, untouched.cache.trans sifts⟩
  change { engine.own with cache := cache } = { base.own with cache := cache }
  rw [untouched.own]

/-- A call with a deadline shorter than a search, in which no time has gone by yet. As long as there is no
evaluator to ask, it has only read the cache. -/
structure Pressed (base : Engine) (tenant : TenantId) (engine : Engine) : Prop where
  elapsed : engine.timing.elapsed = 0
  last : engine.timing.last = none
  builds : engine.timing.builds = []
  deadline : ∃ millis, engine.timing.deadline = some millis ∧ 0 < millis ∧
    millis < engine.commons.findDelay
  now : engine.now = base.now
  settings : engine.own.settings = base.own.settings
  evaluator : engine.evaluator? tenant = base.evaluator? tenant
  idle : ¬ base.Ready tenant → Untouched base engine

/-- The call has no evaluator to ask, and has only read the cache. -/
def Stranded (base : Engine) (tenant : TenantId) (engine : Engine) : Prop :=
  ¬ base.Ready tenant ∧ Untouched base engine

theorem Pressed.withCache (pressed : Pressed base tenant engine) {cache : DecisionCache}
    (sifts : ¬ base.Ready tenant → DecisionCache.Sifts base.now engine.own.cache cache) :
    Pressed base tenant (engine.withCache cache) :=
  ⟨pressed.elapsed, pressed.last, pressed.builds, pressed.deadline, pressed.now,
    pressed.settings, pressed.evaluator, fun lacking => (pressed.idle lacking).withCache (sifts lacking)⟩

theorem Pressed.consultCache (pressed : Pressed base tenant engine)
    (step : DecisionCache → α × DecisionCache) :
    (consultCache step : Act Engine ε α) engine =
      (.ok (step engine.own.cache).1, engine.withCache (step engine.own.cache).2) := by
  obtain ⟨millis, deadline, positive, _⟩ := pressed.deadline
  have early : (engine.withCache (step engine.own.cache).2).timing.isOver = false := by
    change (engine.timing.deadline == some engine.timing.elapsed) = false
    rw [deadline, pressed.elapsed]
    simp
    omega
  unfold Engine.consultCache
  dsimp only
  rw [early]
  rfl

/-- A search is not over in time. -/
theorem Pressed.find (pressed : Pressed base tenant engine) (filter : RuleFilter) :
    ∃ timing, find filter engine = (.halted .deadline, engine.withTiming timing) := by
  obtain ⟨millis, deadline, _, short⟩ := pressed.deadline
  have late : millis < engine.timing.elapsed + engine.commons.findDelay := by
    rw [pressed.elapsed]
    omega
  refine ⟨{ engine.timing with elapsed := millis }, ?_⟩
  unfold Engine.find
  rw [bind_apply, state_apply]
  dsimp only
  rw [bind_apply]
  simp [waitUntil, Timing.goTo, deadline, pressed.last, late, Option.filter]

theorem Pressed.awaitBuild (pressed : Pressed base tenant engine) :
    (awaitBuild tenant : Act Engine ε Unit) engine = (.ok (), engine) := by
  have free : engine.timing.afterBuild tenant = 0 := by
    simp [Timing.afterBuild, pressed.elapsed, pressed.builds, Table.get?]
  unfold Engine.awaitBuild
  rw [bind_apply, state_apply]
  dsimp only
  rw [free]
  unfold waitUntil
  rw [Timing.goTo_zero pressed.elapsed pressed.last]
  rfl

theorem Pressed.rebuild (pressed : Pressed base tenant engine) :
    ∃ timing, rebuild tenant engine = (.halted .deadline, engine.withTiming timing) := by
  obtain ⟨timing, finds⟩ := pressed.find (RuleFilter.ofTenant tenant)
  refine ⟨timing.endBuild tenant, ?_⟩
  have builds : buildEvaluator tenant engine = (.halted .deadline, engine.withTiming timing) := by
    unfold buildEvaluator
    rw [bind_apply, state_apply]
    dsimp only
    rw [bind_apply, mapError_apply, finds]
    rfl
  unfold Engine.rebuild timingBuild
  rw [bind_apply, builds]
  rfl

end Asking

section Timeliness

variable {δ β : Type} {action : Act Engine ε α} {next : α → Act Engine ε β}
variable {memory memoryToo : Option α} {memoryNext : α → Option β} {after : Engine} {value : α}

/-- The action ends in time, without an evaluator to ask with what is recalled; or it is late, for
it has none to ask and nothing is recalled. -/
def Timely (base : Engine) (tenant : TenantId) (memory : Option α) (action : Act Engine ε α)
    (engine : Engine) : Prop :=
  match action engine with
  | (.ok value, after) => Pressed base tenant after ∧ (¬ base.Ready tenant → memory = some value)
  | (.halted .deadline, after) => memory = none ∧ Stranded base tenant after
  | _ => False

theorem timely_of_eq (ends : action engine = (.ok value, after)) (pressed : Pressed base tenant after)
    (same : ¬ base.Ready tenant → memory = some value) : Timely base tenant memory action engine := by
  rw [Timely, ends]
  exact ⟨pressed, same⟩

theorem timely_pure (pressed : Pressed base tenant engine) :
    Timely base tenant (some value) (Pure.pure value : Act Engine ε α) engine :=
  timely_of_eq (pure_apply ..) pressed fun _ => rfl

theorem timely_of_ready (ends : action engine = (.ok value, after)) (pressed : Pressed base tenant after)
    (ready : base.Ready tenant) : Timely base tenant memory action engine :=
  timely_of_eq ends pressed (absurd ready)

theorem timely_read {next : Engine → Act Engine ε α}
    (onward : Timely base tenant memory (next engine) engine) :
    Timely base tenant memory (Act.state >>= next) engine :=
  onward

/-- What is recalled matters only as long as there is no evaluator. -/
theorem Timely.congr (timely : Timely base tenant memory action engine)
    (same : ¬ base.Ready tenant → memoryToo = memory) : Timely base tenant memoryToo action engine := by
  unfold Timely at *
  rcases begins : action engine with ⟨outcome, after⟩
  rw [begins] at timely
  cases outcome with
  | ok value => exact ⟨timely.1, fun lacking => (same lacking).trans (timely.2 lacking)⟩
  | error => exact timely
  | halted cause =>
    cases cause with
    | deadline => exact ⟨(same timely.2.1).trans timely.1, timely.2⟩
    | calendarEnd | tooWide | abandoned => exact timely

theorem Timely.bind_of (timely : Timely base tenant memory action engine)
    (onward : ∀ value middle, Pressed base tenant middle →
      (¬ base.Ready tenant → memory = some value) →
      Timely base tenant (memory >>= memoryNext) (next value) middle) :
    Timely base tenant (memory >>= memoryNext) (action >>= next) engine := by
  unfold Timely at timely
  rw [Timely, bind_apply]
  rcases begins : action engine with ⟨outcome, middle⟩
  rw [begins] at timely
  cases outcome with
  | ok value => exact onward value middle timely.1 timely.2
  | error => exact timely.elim
  | halted cause =>
    cases cause with
    | deadline => exact ⟨congrArg (· >>= memoryNext) timely.1, timely.2⟩
    | calendarEnd | tooWide | abandoned => exact timely.elim

/-- What is recalled follows the steps of the action. -/
theorem Timely.bind (timely : Timely base tenant memory action engine)
    (onward : ∀ value middle, Pressed base tenant middle →
      Timely base tenant (memoryNext value) (next value) middle) :
    Timely base tenant (memory >>= memoryNext) (action >>= next) engine :=
  timely.bind_of fun value middle pressed same =>
    (onward value middle pressed).congr fun lacking => by
      rw [same lacking, Option.bind_eq_bind, Option.bind_some]

/-- After a step for which nothing is recalled there is an evaluator. -/
theorem Timely.bind_none (timely : Timely base tenant none action engine)
    (onward : ∀ value middle, Pressed base tenant middle → base.Ready tenant →
      Timely base tenant none (next value) middle) :
    Timely base tenant none (action >>= next) engine := by
  change Timely base tenant ((none : Option α) >>= fun _ => none) _ _
  refine timely.bind_of fun value middle pressed same => onward value middle pressed ?_
  by_contra lacking
  cases same lacking

theorem Timely.mapError (timely : Timely base tenant memory action engine) (say : ε → δ) :
    Timely base tenant memory (action.mapError say) engine := by
  unfold Timely at *
  rw [mapError_apply]
  rcases begins : action engine with ⟨outcome, after⟩
  rw [begins] at timely
  cases outcome with
  | ok value => exact timely
  | error => exact timely.elim
  | halted cause => cases cause <;> exact timely

end Timeliness

section Deciding

/-- The evaluator is at hand, or there is no time to build it. -/
theorem Pressed.asks (pressed : Pressed base tenant engine) :
    Timely base tenant none (Engine.evaluator tenant) engine := by
  obtain ⟨timing, rebuilds⟩ := pressed.rebuild
  have stranded (lacking : ¬ base.Ready tenant) : Stranded base tenant (engine.withTiming timing) :=
    ⟨lacking, (pressed.idle lacking).withTiming timing⟩
  unfold Engine.evaluator
  rw [Timely, bind_apply, pressed.awaitBuild]
  dsimp only
  rw [bind_apply, state_apply]
  dsimp only
  cases resident : engine.evaluator? tenant with
  | none =>
    dsimp only
    rw [rebuilds]
    refine ⟨rfl, stranded ?_⟩
    rintro ⟨kept, present, _⟩
    rw [← pressed.evaluator, resident] at present
    cases present
  | some kept =>
    dsimp only
    by_cases stale : kept.isStale engine.now = true
    · rw [if_pos stale, bind_apply, attempt, rebuilds]
      refine ⟨rfl, stranded ?_⟩
      rintro ⟨other, present, fresh⟩
      rw [← pressed.evaluator, resident] at present
      cases present
      rw [← pressed.now, stale] at fresh
      cases fresh
    · rw [if_neg stale]
      refine ⟨pressed, absurd ⟨kept, pressed.evaluator.symm.trans resident, ?_⟩⟩
      rw [← pressed.now]
      exact Bool.eq_false_iff.mpr stale

theorem Pressed.ask (pressed : Pressed base tenant engine) (ask : Evaluator → α) :
    Timely base tenant none (do pure (ask (← Engine.evaluator tenant))) engine :=
  pressed.asks.bind_none fun _ _ pressed ready => timely_of_ready (pure_apply ..) pressed ready

/-- Where there is an evaluator, the cache may be written. -/
theorem Pressed.keeps (pressed : Pressed base tenant engine) (ready : base.Ready tenant)
    (step : DecisionCache → α × DecisionCache) :
    Timely base tenant none (Engine.consultCache step : Act Engine ε α) engine :=
  timely_of_ready (pressed.consultCache step) (pressed.withCache (absurd ready)) ready

theorem Pressed.roles (pressed : Pressed base tenant engine) (subject : String) (useCache : Bool) :
    Timely base tenant (base.recalledRoles tenant subject useCache) (roles tenant subject useCache)
      engine := by
  have named {middle : Engine} (pressed : Pressed base tenant middle) : Timely base tenant none
      ((rolesUntil tenant subject).mapError CheckError.evaluator >>= fun answer =>
        if useCache then
          Engine.consultCache (fun cache =>
            ((), cache.setRoles engine.now tenant subject answer.1 answer.2)) >>= fun _ =>
              Pure.pure answer.1
        else Pure.pure answer.1) middle := by
    apply ((pressed.ask _).mapError _).bind_none
    intro answer middle pressed ready
    split
    · apply (pressed.keeps ready _).bind_none
      exact fun _ _ pressed ready => timely_of_ready (pure_apply ..) pressed ready
    · exact timely_of_ready (pure_apply ..) pressed ready
  apply timely_read
  unfold recalledRoles
  cases useCache with
  | false => exact named pressed
  | true =>
    have found : Timely base tenant (some (base.own.cache.getRoles base.now tenant subject).1)
        (Engine.consultCache fun cache => cache.getRoles engine.now tenant subject :
          Act Engine CheckError _) engine := by
      rw [pressed.now]
      refine timely_of_eq (pressed.consultCache _) (pressed.withCache fun _ =>
        DecisionCache.sifts_getRoles ..) fun lacking => ?_
      exact congrArg some ((pressed.idle lacking).cache.getRoles tenant subject).1.symm
    change Timely base tenant (some (base.own.cache.getRoles base.now tenant subject).1 >>= id) _ _
    apply found.bind
    intro kept middle pressed
    cases kept with
    | some roles => exact timely_pure pressed
    | none => exact named pressed

section Asked

variable (pressed : Pressed base request.tenant engine)
include pressed

/-- Where there is an evaluator, the use is counted. -/
theorem Pressed.recordUse (ready : base.Ready request.tenant) (ids : List RuleId) :
    Timely base request.tenant none (recordUse request.tenant ids : Act Engine ε Unit) engine := by
  have after : Pressed base request.tenant (engine.withStore
      (engine.commons.store.recordUsage request.tenant ids engine.now).2) :=
    ⟨pressed.elapsed, pressed.last, pressed.builds, pressed.deadline, pressed.now, pressed.settings,
      pressed.evaluator, absurd ready⟩
  have ends : (Engine.recordUse request.tenant ids : Act Engine ε Unit) engine =
      (.ok (), engine.withStore
        (engine.commons.store.recordUsage request.tenant ids engine.now).2) := by
    unfold Engine.recordUse
    simp only [bind_apply, state_apply, attempt, onStore]
    cases (engine.commons.store.recordUsage request.tenant ids engine.now).1 <;> rfl
  exact timely_of_ready ends after ready

theorem Pressed.evaluate : Timely base request.tenant none (evaluate request) engine := by
  apply ((pressed.ask _).mapError _).bind_none
  intro evaluation middle pressed ready
  have ends {later : Engine} (pressed : Pressed base request.tenant later) :
      Timely base request.tenant none
        (Act.state >>= fun engine => Pure.pure
          (engine.enrich request (Decision.ofEvaluation evaluation), evaluation.validUntil) :
          Act Engine CheckError (Decision × Option Instant)) later :=
    timely_read (timely_of_ready (pure_apply ..) pressed ready)
  split
  · exact (pressed.recordUse ready _).bind_none fun _ _ pressed _ => ends pressed
  · exact ends pressed

theorem Pressed.decideFresh (useCache : Bool) :
    Timely base request.tenant none (decideFresh request useCache) engine := by
  apply pressed.evaluate.bind_none
  rintro ⟨decision, bound⟩ middle pressed ready
  dsimp only
  split
  · apply (timely_read (pressed.keeps ready _)).bind_none
    exact fun _ _ pressed ready => timely_of_ready (pure_apply ..) pressed ready
  · exact timely_of_ready (pure_apply ..) pressed ready

/-- The cache answers in time. -/
theorem Pressed.lookUp : Timely base request.tenant
    (some (base.own.cache.get base.now request).1) (lookUp request : Act Engine ε _) engine := by
  apply timely_read
  rw [pressed.now]
  refine timely_of_eq (pressed.consultCache _) (pressed.withCache fun _ =>
    DecisionCache.sifts_get ..) fun lacking => ?_
  exact congrArg some ((pressed.idle lacking).cache.get request).1.symm

/-- Without an evaluator only what is recalled is decided in time. -/
theorem Pressed.decide (useCache : Bool) :
    Timely base request.tenant (base.recalled request useCache) (decide request useCache) engine := by
  have super : engine.isSuperadmin request = base.isSuperadmin request := by
    unfold isSuperadmin
    rw [pressed.settings]
  have bypass : engine.superadminDecision = base.superadminDecision := by
    unfold superadminDecision
    rw [pressed.settings]
  apply timely_read
  rw [super, bypass]
  unfold recalled
  split
  · exact timely_pure pressed
  · cases useCache with
    | false => exact pressed.decideFresh false
    | true =>
      change Timely base _ (some (base.own.cache.get base.now request).1 >>= id) _ _
      apply pressed.lookUp.bind
      intro found middle pressed
      cases found with
      | some decision => exact timely_pure pressed
      | none => exact pressed.decideFresh true

theorem Pressed.firstAllowed (useCache : Bool) (roles : List String) :
    Timely base request.tenant (base.firstRecalled request useCache roles)
      (firstAllowed request useCache roles) engine := by
  induction roles generalizing engine with
  | nil => exact timely_pure pressed
  | cons role rest ih =>
    have asRole : Pressed base (request.asSubject role).tenant engine := pressed
    apply (asRole.decide useCache).bind
    intro decision middle pressed
    split
    · exact timely_pure pressed
    · exact ih pressed

theorem Pressed.decideExpanded (useCache : Bool) :
    Timely base request.tenant (base.recalledExpanded request useCache)
      (decideExpanded request useCache) engine := by
  apply (pressed.decide useCache).bind
  intro direct middle pressed
  split
  · exact timely_pure pressed
  · split
    · exact timely_pure pressed
    · apply (pressed.roles request.subject useCache).bind
      intro roles middle pressed
      apply (pressed.firstAllowed useCache roles).bind
      intro found middle pressed
      cases found with
      | some decision => exact timely_pure pressed
      | none => exact timely_pure pressed

end Asked

end Deciding

section Deadlines

variable {options : CheckOptions} {expand useCache : Bool} {millis : Nat}

/-- A call that is given so many milliseconds. -/
def given (engine : Engine) (millis : Nat) : Engine :=
  engine.newCall.withDeadline (some millis)

/-- The check runs into its deadline. -/
def RunsLate (request : CheckRequest) (useCache expand : Bool) (millis : Nat) (engine : Engine) : Prop :=
  ((if expand then decideExpanded request useCache else decide request useCache)
    (engine.given millis)).1 = .halted .deadline

theorem pressed_given (positive : 0 < millis) (short : millis < engine.commons.findDelay)
    (tenant : TenantId) : Pressed engine tenant (engine.given millis) :=
  ⟨rfl, rfl, rfl, ⟨millis, rfl, positive, short⟩, rfl, rfl, rfl,
    fun _ => (untouched_refl engine).withTiming _⟩

theorem Pressed.decideBy (pressed : Pressed base request.tenant engine) (useCache expand : Bool) :
    Timely base request.tenant (base.recalledAnswer request useCache expand)
      (if expand then Engine.decideExpanded request useCache else Engine.decide request useCache)
      engine := by
  unfold recalledAnswer
  split
  · exact pressed.decideExpanded useCache
  · exact pressed.decide useCache

theorem runsLate_iff (positive : 0 < millis) (short : millis < engine.commons.findDelay) :
    engine.RunsLate request useCache expand millis ↔
      ¬ engine.Ready request.tenant ∧ engine.recalledAnswer request useCache expand = none := by
  have timely := (pressed_given positive short request.tenant).decideBy useCache expand
  unfold RunsLate
  unfold Timely at timely
  generalize (if expand then decideExpanded request useCache else decide request useCache)
    (engine.given millis) = result at timely ⊢
  obtain ⟨outcome, after⟩ := result
  cases outcome with
  | ok value =>
    refine ⟨nofun, fun ⟨lacking, forgotten⟩ => ?_⟩
    rw [timely.2 lacking] at forgotten
    cases forgotten
  | error => exact timely.elim
  | halted cause =>
    cases cause with
    | deadline => exact ⟨fun _ => ⟨timely.2.1, timely.1⟩, fun _ => rfl⟩
    | calendarEnd | tooWide | abandoned => exact timely.elim

theorem RunsLate.untouched (late : engine.RunsLate request useCache expand millis)
    (positive : 0 < millis) (short : millis < engine.commons.findDelay) :
    ∃ left, (if expand then decideExpanded request useCache else decide request useCache)
        (engine.given millis) = (.halted .deadline, left) ∧ Untouched engine left := by
  have timely := (pressed_given positive short request.tenant).decideBy useCache expand
  rcases ends : (if expand then decideExpanded request useCache else decide request useCache)
    (engine.given millis) with ⟨outcome, left⟩
  have halted : outcome = .halted .deadline := by
    rw [RunsLate, ends] at late
    exact late
  subst halted
  rw [Timely, ends] at timely
  exact ⟨left, rfl, timely.2.2⟩

/-- The check has been refused, and but for an audit record of that the engine is untouched. No later
check tells. -/
structure Traceless (engine : Engine) (request : CheckRequest) (options : CheckOptions) (expand : Bool) :
    Prop where
  denies : ∃ left, check request options expand engine.newCall =
      (.ok (Decision.deny Reason.deadline),
        auditDecision request options.audit (Decision.deny Reason.deadline) left) ∧
    Untouched engine left
  later : ∀ (later : CheckRequest) (optionsToo : CheckOptions) (expandToo : Bool),
    (check later optionsToo expandToo (check request options expand engine.newCall).2.newCall).1 =
      (check later optionsToo expandToo engine.newCall).1

/-- What a tenant's checks can tell of two engines, if one has the cache of the other as reads at this
instant leave it. -/
def sifting (now : Instant) (tenant : TenantId) : Kinship :=
  ⟨Eq, DecisionCache.Sifts now, tenant, now⟩

theorem close_sifting (now : Instant) (tenant : TenantId) : (sifting now tenant).Close where
  find := by
    rintro _ _ rfl
    rfl
  recordUsage := by
    rintro _ _ ids rfl
    exact ⟨rfl, rfl⟩
  get := fun request _ sifts => sifts.get request
  getRoles := fun subject sifts => sifts.getRoles tenant subject
  set := fun request decision validUntil sifts => sifts.set request decision validUntil
  setRoles := fun subject roles validUntil sifts => sifts.setRoles tenant subject roles validUntil

theorem Untouched.siblings (untouched : Untouched base engine) (asked : CheckRequest) (audit : Bool)
    (decision : Decision) (tenant : TenantId) :
    Siblings (sifting base.now tenant) base.newCall
      (auditDecision asked audit decision engine).newCall := by
  have store := congrArg Commons.store untouched.commons.symm
  have now := congrArg Commons.now untouched.commons
  have findDelay := congrArg Commons.findDelay untouched.commons
  have evaluator := congrArg (·.evaluators.get? tenant) untouched.own
  have settings := congrArg Replica.settings untouched.own
  have enrichers := congrArg Replica.enrichers untouched.own
  unfold auditDecision
  split <;> exact ⟨store, untouched.cache, rfl, now, findDelay, evaluator, settings, enrichers, rfl⟩

/-- With a deadline shorter than a search of the store a check runs late only if the tenant has no
evaluator that is fit to answer, and what the cache holds does not answer instead; then it leaves no
trace. -/
theorem late_leaves_no_trace (whole : request.missingField? = none)
    (limit : (options.deadline <|> engine.own.settings.checkTimeout) = some millis)
    (positive : 0 < millis) (short : millis < engine.commons.findDelay) :
    (engine.RunsLate request options.useCache expand millis ↔
      ¬ engine.Ready request.tenant ∧ engine.recalledAnswer request options.useCache expand = none) ∧
    (engine.RunsLate request options.useCache expand millis →
      engine.Traceless request options expand) := by
  refine ⟨runsLate_iff positive short, fun late => ?_⟩
  obtain ⟨left, ends, untouched⟩ := late.untouched positive short
  have begins : engine.newCall.withDeadline ((options.deadline <|>
      engine.newCall.own.settings.checkTimeout).map (engine.newCall.timing.elapsed + ·)) =
      engine.given millis := by
    change engine.newCall.withDeadline ((options.deadline <|>
      engine.own.settings.checkTimeout).map (0 + ·)) = _
    rw [limit, Option.map_some, Nat.zero_add, given]
  rw [← begins] at ends
  have answer := check_of_late whole ends
  refine ⟨⟨_, answer, untouched.withTiming _⟩, fun later optionsToo expandToo => ?_⟩
  have siblings := (untouched.withTiming { left.timing with deadline := none }).siblings request
    options.audit (Decision.deny Reason.deadline) later.tenant
  have same := congrArg (fun ended => (check later optionsToo expandToo ended.2.newCall).1) answer
  exact same.trans (siblings.check (close_sifting _ _) rfl optionsToo expandToo).1

/-- A check for Ann that has five milliseconds for a search of ten. -/
theorem late_leaves_no_trace_of_slowToAnswer :
    slowToAnswer.RunsLate (mayAnnRead.toRequest ⟨1⟩ ⟨"clerk", []⟩) false true 5 ∧
      slowToAnswer.Traceless (mayAnnRead.toRequest ⟨1⟩ ⟨"clerk", []⟩)
        { useCache := false, deadline := some 5 } true := by
  have short : 5 < slowToAnswer.commons.findDelay := by decide +kernel
  obtain ⟨lateIff, traceless⟩ := @late_leaves_no_trace slowToAnswer
    (mayAnnRead.toRequest ⟨1⟩ ⟨"clerk", []⟩) { useCache := false, deadline := some 5 } true 5
    (by decide) rfl (by decide) short
  have absent : slowToAnswer.evaluator? ⟨1⟩ = none := rfl
  have lacking : ¬ slowToAnswer.Ready ⟨1⟩ := by
    rintro ⟨kept, present, _⟩
    rw [absent] at present
    cases present
  have late := lateIff.mpr ⟨lacking, by decide +kernel⟩
  exact ⟨late, traceless late⟩

end Deadlines

end Engine

end AccessPolicy
