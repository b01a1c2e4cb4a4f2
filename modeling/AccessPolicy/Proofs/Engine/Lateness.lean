import AccessPolicy.Proofs.Engine.Run

/-!
A check over a store that can be reached halts for lack of time only. What it is part of answers in
its place, so that every question is replied to.
-/
namespace AccessPolicy

namespace Act

variable {σ ε δ α β : Type} {action : Act σ ε α} {next : α → Act σ ε β} {state : σ}

/-- The action does not halt but for lack of time. -/
def OnlyLate (action : Act σ ε α) (state : σ) : Prop :=
  match (action state).1 with
  | .ok _ => True
  | .error _ => True
  | .halted cause => cause = .deadline

theorem onlyLate_pure (value : α) (state : σ) : OnlyLate (Pure.pure value : Act σ ε α) state :=
  trivial

theorem onlyLate_ofExcept (result : Except ε α) (state : σ) :
    OnlyLate (Act.ofExcept result) state := by
  cases result with
  | ok value => exact trivial
  | error cause => exact trivial

theorem onlyLate_read {next : σ → Act σ ε β} (onward : OnlyLate (next state) state) :
    OnlyLate (Act.state >>= next) state :=
  onward

theorem OnlyLate.bind (late : OnlyLate action state)
    (onward : ∀ value middle, action state = (.ok value, middle) → OnlyLate (next value) middle) :
    OnlyLate (action >>= next) state := by
  unfold OnlyLate at *
  rw [bind_apply]
  generalize action state = result at late onward
  obtain ⟨outcome, middle⟩ := result
  cases outcome with
  | ok value => exact onward value middle rfl
  | error cause => exact trivial
  | halted cause => exact late

theorem OnlyLate.attempt (late : OnlyLate action state) :
    OnlyLate (action.attempt : Act σ δ (Except ε α)) state := by
  unfold OnlyLate Act.attempt at *
  generalize action state = result at late ⊢
  obtain ⟨outcome, middle⟩ := result
  cases outcome with
  | ok value => exact trivial
  | error cause => exact trivial
  | halted cause => exact late

theorem OnlyLate.mapError (late : OnlyLate action state) (say : ε → δ) :
    OnlyLate (action.mapError say) state := by
  unfold OnlyLate Act.mapError at *
  generalize action state = result at late ⊢
  obtain ⟨outcome, middle⟩ := result
  cases outcome with
  | ok value => exact trivial
  | error cause => exact trivial
  | halted cause => exact late

end Act

namespace Engine

open Act hiding pure bind state

variable {ε : Type} {regime : Regime} {base engine : Engine}

section Access

theorem onlyLate_waitUntil (whole : engine.timing.last = none) (moment : Nat) :
    OnlyLate (waitUntil moment : Act Engine ε Unit) engine := by
  unfold OnlyLate
  rw [waitUntil_apply]
  simp only [Timing.goTo, whole, Option.any_none, Bool.false_eq_true, if_false]
  by_cases late : (engine.timing.deadline.filter (· < moment)).getD moment < moment
  · rw [if_pos late]
  · rw [if_neg late]
    trivial

theorem onlyLate_consultCache {α : Type} (step : DecisionCache → α × DecisionCache)
    (engine : Engine) : OnlyLate (consultCache step : Act Engine ε α) engine := by
  unfold OnlyLate consultCache
  dsimp only
  by_cases late : (engine.withCache (step engine.own.cache).2).timing.isOver = true
  · rw [if_pos late]
  · rw [if_neg late]
    trivial

variable (leisurely : ¬ regime.brief) (sound : base.commons.store.Sound)
  (attends : Attends regime base engine)
include leisurely sound attends

theorem onlyLate_buildEvaluator (tenant : TenantId) : OnlyLate (buildEvaluator tenant) engine := by
  apply onlyLate_read
  have finds : OnlyLate (find (RuleFilter.ofTenant tenant)) engine := by
    apply onlyLate_read
    apply (onlyLate_waitUntil (attends.paced.last leisurely) _).bind
    exact fun _ _ _ => onlyLate_ofExcept _ _
  apply (finds.mapError _).bind
  intro rules after ends
  -- What has been found are the tenant's rules, of which an evaluator can be built.
  obtain ⟨found, _⟩ := Leads.of_eq_ok ((yields_find sound attends _).mapError _) ends
  have law : rules = base.commons.store.law tenant :=
    found.trans (RuleStore.filter_accepts_ofTenant _ _)
  have closing : ∀ rule ∈ rules, rule.closes := by
    intro rule member
    exact sound.closes_of_mem_law (law ▸ member)
  obtain ⟨evaluator, built⟩ := Evaluator.build_of_closes closing tenant engine.now
  rw [built]
  exact onlyLate_pure _ _

theorem onlyLate_rebuild (tenant : TenantId) : OnlyLate (rebuild tenant) engine := by
  have builds : OnlyLate (buildEvaluator tenant >>= fun evaluator =>
      setEvaluator tenant evaluator >>= fun _ => Pure.pure evaluator) engine :=
    (onlyLate_buildEvaluator leisurely sound attends tenant).bind fun _ _ _ => trivial
  exact builds

theorem onlyLate_evaluator (tenant : TenantId) : OnlyLate (evaluator tenant) engine := by
  have awaits : OnlyLate (awaitBuild tenant : Act Engine EvaluatorError Unit) engine :=
    onlyLate_read (onlyLate_waitUntil (attends.paced.last leisurely) _)
  apply awaits.bind
  intro _ after ends
  obtain ⟨_, attends⟩ := Leads.of_eq_ok
    (yields_read (yields_waitUntil attends (engine.timing.afterBuild tenant))) ends
  apply onlyLate_read
  split
  · exact onlyLate_rebuild leisurely sound attends tenant
  · split
    · apply (onlyLate_rebuild leisurely sound attends tenant).attempt.bind
      intro result _ _
      split <;> exact onlyLate_pure _ _
    · exact onlyLate_pure _ _

theorem onlyLate_ask {α : Type} (tenant : TenantId) (ask : Evaluator → α) :
    OnlyLate (do pure (ask (← evaluator tenant))) engine :=
  (onlyLate_evaluator leisurely sound attends tenant).bind fun _ _ _ => onlyLate_pure _ _

end Access

section Deciding

variable (leisurely : ¬ regime.brief) (serves : Serves regime base engine)
include leisurely serves

theorem onlyLate_evaluate (request : CheckRequest) : OnlyLate (evaluate request) engine := by
  have asks := onlyLate_ask leisurely serves.sound serves.attends request.tenant
    (·.enforce request.subject request.service request.object request.action)
  apply (asks.mapError _).bind
  intro evaluation after _
  split
  · have counts : OnlyLate (recordUse request.tenant evaluation.matchedRules :
        Act Engine CheckError Unit) after :=
      onlyLate_read (((onlyLate_ofExcept _ _).attempt).bind fun _ _ _ => onlyLate_pure _ _)
    exact counts.bind fun _ _ _ => onlyLate_read (onlyLate_pure _ _)
  · exact onlyLate_read (onlyLate_pure _ _)

theorem onlyLate_decideFresh (request : CheckRequest) (useCache : Bool) :
    OnlyLate (decideFresh request useCache) engine := by
  apply (onlyLate_evaluate leisurely serves request).bind
  rintro ⟨decision, bound⟩ after _
  have remembers : OnlyLate (remember request decision bound : Act Engine CheckError Unit) after :=
    onlyLate_read (onlyLate_consultCache _ _)
  dsimp only
  split
  · exact remembers.bind fun _ _ _ => onlyLate_pure _ _
  · exact onlyLate_pure _ _

theorem onlyLate_decide (request : CheckRequest) (useCache : Bool) :
    OnlyLate (decide request useCache) engine := by
  apply onlyLate_read
  split
  · exact onlyLate_pure _ _
  · split
    · have looks : OnlyLate (lookUp request : Act Engine CheckError (Option Decision)) engine :=
        onlyLate_read (onlyLate_consultCache _ _)
      apply looks.bind
      intro found after ends
      obtain ⟨_, kept⟩ := Leads.of_eq_ok (yields_lookUp serves request) ends
      cases found with
      | some decision => exact onlyLate_pure _ _
      | none => exact onlyLate_decideFresh leisurely kept request useCache
    · exact onlyLate_decideFresh leisurely serves request useCache

theorem onlyLate_roles (tenant : TenantId) (subject : String) (useCache : Bool) :
    OnlyLate (roles tenant subject useCache) engine := by
  have asks (after : Engine) (kept : Serves regime base after) :
      OnlyLate ((rolesUntil tenant subject).mapError CheckError.evaluator) after :=
    (onlyLate_ask leisurely kept.sound kept.attends tenant
      (fun evaluator => (evaluator.rolesOf subject, evaluator.nextTransition))).mapError _
  apply onlyLate_read
  cases useCache with
  | true =>
    apply (onlyLate_consultCache _ _).bind
    intro found after ends
    obtain ⟨_, kept⟩ := Leads.of_eq_ok (yields_lookUpRoles serves tenant subject) ends
    cases found with
    | some roles => exact onlyLate_pure _ _
    | none =>
      apply (asks after kept).bind
      rintro ⟨roles, bound⟩ _ _
      exact (onlyLate_consultCache _ _).bind fun _ _ _ => onlyLate_pure _ _
  | false =>
    apply (asks engine serves).bind
    exact fun _ _ _ => onlyLate_pure _ _

theorem onlyLate_firstAllowed (request : CheckRequest) (useCache : Bool) (roles : List String) :
    OnlyLate (firstAllowed request useCache roles) engine := by
  induction roles generalizing engine with
  | nil => exact onlyLate_pure _ _
  | cons role rest ih =>
    apply (onlyLate_decide leisurely serves (request.asSubject role) useCache).bind
    intro decision after ends
    obtain ⟨_, kept⟩ := Leads.of_eq_ok
      (yields_decide serves (request.asSubject role) useCache) ends
    split
    · exact onlyLate_pure _ _
    · exact ih kept

theorem onlyLate_decideExpanded (request : CheckRequest) (useCache : Bool) :
    OnlyLate (decideExpanded request useCache) engine := by
  apply (onlyLate_decide leisurely serves request useCache).bind
  intro direct after ends
  obtain ⟨_, kept⟩ := Leads.of_eq_ok (yields_decide serves request useCache) ends
  split
  · exact onlyLate_pure _ _
  · split
    · exact onlyLate_pure _ _
    · apply (onlyLate_roles leisurely kept request.tenant request.subject useCache).bind
      intro roles next ends
      obtain ⟨_, kept⟩ := Leads.of_eq_ok
        (yields_roles kept request.tenant request.subject useCache) ends
      apply (onlyLate_firstAllowed leisurely kept request useCache roles).bind
      intro found _ _
      cases found with
      | some decision => exact onlyLate_pure _ _
      | none => exact onlyLate_pure _ _

theorem onlyLate_decideOrExpand (request : CheckRequest) (useCache expand : Bool) :
    OnlyLate (if expand then decideExpanded request useCache else decide request useCache) engine := by
  cases expand with
  | true => exact onlyLate_decideExpanded leisurely serves request useCache
  | false => exact onlyLate_decide leisurely serves request useCache

end Deciding

section Replying

/-- An action that does not fail, and halts for lack of time only, has a value within a limit. -/
theorem exists_within {α : Type} {millis : Option Nat} {late : α} {action : Act Engine ε α}
    {kept : Engine → Prop} {hurried : Prop} {after : α → Engine → Prop}
    (yields : Yields kept hurried action
      (engine.withDeadline (millis.map (engine.timing.elapsed + ·))) after)
    (onlyLate : OnlyLate action (engine.withDeadline (millis.map (engine.timing.elapsed + ·)))) :
    ∃ value final, within millis late action engine = (.ok value, final) := by
  unfold Yields Leads Ends at yields
  unfold OnlyLate at onlyLate
  unfold within
  generalize action _ = result at yields onlyLate ⊢
  obtain ⟨outcome, final⟩ := result
  cases outcome with
  | ok value => exact ⟨_, _, rfl⟩
  | error cause => exact yields.elim
  | halted cause =>
    cases onlyLate
    exact ⟨_, _, rfl⟩

theorem exists_check (serves : Serves regime base engine) (leisurely : ¬ regime.brief)
    {request : CheckRequest} (whole : request.missingField? = none) (options : CheckOptions)
    (expand : Bool) :
    ∃ decision after, check request options expand engine = (.ok decision, after) := by
  let millis := options.deadline <|> engine.own.settings.checkTimeout
  have limited := serves.limited millis
  have unbroken : ¬ (regime.within millis).brief := leisurely
  obtain ⟨decision, after, ends⟩ := exists_within
    (yields_decideOrExpand limited whole options.useCache expand)
    (onlyLate_decideOrExpand unbroken limited request options.useCache expand)
  unfold check
  rw [whole]
  dsimp only
  rw [bind_apply, state_apply]
  dsimp only
  rw [bind_apply, ends]
  exact ⟨_, _, rfl⟩

/-- Every question about a tenant is replied to, whatever the time limit. -/
theorem Coherent.exists_reply (coherent : Coherent regime engine) (leisurely : ¬ regime.brief)
    (tenant : TenantId) (caller : Principal) (query : PermissionQuery) : ∃ reply,
      ((checkPermission tenant caller query : Act Engine Empty Decision) engine.newCall).1 =
        .ok reply := by
  have serves : Serves regime engine.newCall engine.newCall := coherent.newCall
  unfold checkPermission
  cases missing : (query.toRequest tenant caller).missingField? with
  | some field =>
    rw [check_of_missing missing]
    exact ⟨_, rfl⟩
  | none =>
    obtain ⟨decision, after, ends⟩ :=
      exists_check serves leisurely missing query.options query.expandRoles
    rw [bind_apply, Act.attempt, ends]
    exact ⟨_, rfl⟩

/-- Engines over rules that are alike reply alike, unless one of the two runs out of time. -/
theorem Coherent.agrees {one two : Regime} {other : Engine} (coherent : Coherent one engine)
    (coherentToo : Coherent two other) (leisure : ¬ one.hurried) (leisureToo : ¬ two.hurried)
    {tenant : TenantId} {caller : Principal} {query : PermissionQuery}
    (covers : one.Covers (query.toRequest tenant caller) query.useCache query.expandRoles)
    (coversToo : two.Covers (query.toRequest tenant caller) query.useCache query.expandRoles)
    (alike : AlikeRules engine.now (engine.commons.store.law tenant) (other.commons.store.law tenant))
    (now : other.now = engine.now) (settings : other.own.settings = engine.own.settings)
    (enrich : other.enrich = engine.enrich) :
    ∃ reply answer : Decision,
      ((checkPermission tenant caller query : Act Engine Empty Decision) engine.newCall).1 =
        .ok reply ∧
      ((checkPermission tenant caller query : Act Engine Empty Decision) other.newCall).1 =
        .ok answer ∧
      (reply.Agrees answer ∨ engine.own.settings.checkTimeout ≠ none ∧
        (reply = Decision.deny Reason.deadline ∨ answer = Decision.deny Reason.deadline)) := by
  obtain ⟨reply, replied⟩ :=
    coherent.exists_reply (fun brief => leisure (Or.inr brief)) tenant caller query
  obtain ⟨answer, answered⟩ :=
    coherentToo.exists_reply (fun brief => leisureToo (Or.inr brief)) tenant caller query
  refine ⟨reply, answer, replied, answered, ?_⟩
  rcases coherent.reply_of_covers leisure covers replied with known | late
  · rcases coherentToo.reply_of_covers leisureToo coversToo answered with knownToo | late
    · have mirrors := (mirrors_reference engine tenant).alike alike
      have mirrorsOther := mirrors_reference other tenant
      rw [now] at mirrorsOther
      rw [settings, enrich] at knownToo
      refine Or.inl (Decision.agrees_of_unmarked_eq (known.trans ?_))
      rw [knownToo]
      exact mirrors.reply_eq mirrorsOther _ _ _ _
    · rw [settings] at late
      exact Or.inr ⟨late.1, Or.inr late.2⟩
  · exact Or.inr ⟨late.1, Or.inl late.2⟩

end Replying

end Engine

end AccessPolicy
