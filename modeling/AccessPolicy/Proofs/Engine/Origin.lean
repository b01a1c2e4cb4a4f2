import AccessPolicy.Proofs.Engine.Run
import AccessPolicy.Proofs.Act.Preserves

/-!
Where permission comes from. Whatever fails and however the clocks move, an engine that allows a
request holds, or once held, an evaluator of the tenant that allows it; without that it denies.
-/
namespace AccessPolicy

/-- The evaluator, asked now, allows. -/
def Evaluator.Allows (evaluator : Evaluator) (about : DecisionSubject) : Prop :=
  (evaluator.enforce about.subject about.service about.object about.action).allowed = true

/-- Among evaluators one allows the subject, or, with its roles asked for as well, one allows a role
that one of them says the subject has. -/
def Origin (held : Evaluator → Prop) (about : DecisionSubject) (expand : Bool) : Prop :=
  (∃ evaluator, held evaluator ∧ evaluator.Allows about) ∨
    expand = true ∧ ∃ namer, held namer ∧ ∃ role ∈ namer.rolesOf about.subject,
      ∃ granter, held granter ∧ granter.Allows { about with subject := role }

theorem Origin.mono {held more : Evaluator → Prop} {about : DecisionSubject} {expand : Bool}
    (origin : Origin held about expand) (contains : ∀ evaluator, held evaluator → more evaluator) :
    Origin more about expand := by
  rcases origin with ⟨evaluator, member, allows⟩ | ⟨wide, namer, member, role, listed, granter, other, allows⟩
  · exact Or.inl ⟨evaluator, contains evaluator member, allows⟩
  · exact Or.inr ⟨wide, namer, contains namer member, role, listed, granter,
      contains granter other, allows⟩

/-- An allowing decision has an origin, and is not the superadmin's. -/
def Decision.Explained (decision : Decision) (held : Evaluator → Prop) (about : DecisionSubject)
    (expand : Bool) : Prop :=
  decision.allowed = true → decision.reason ≠ Reason.superadmin ∧ Origin held about expand

namespace Decision

variable {decision : Decision} {held more : Evaluator → Prop} {about : DecisionSubject}
variable {expand : Bool}

theorem Explained.mono (explained : decision.Explained held about expand)
    (contains : ∀ evaluator, held evaluator → more evaluator) :
    decision.Explained more about expand :=
  fun allowed => ⟨(explained allowed).1, (explained allowed).2.mono contains⟩

theorem explained_deny (reason : String) : (Decision.deny reason).Explained held about expand :=
  fun impossible => nomatch impossible

theorem Explained.widen (explained : decision.Explained held about false) :
    decision.Explained held about true := by
  intro allowed
  obtain ⟨ordinary, origin⟩ := explained allowed
  refine ⟨ordinary, ?_⟩
  rcases origin with direct | ⟨impossible, _⟩
  · exact Or.inl direct
  · cases impossible

theorem explained_ofEvaluation {evaluator : Evaluator} (member : held evaluator)
    (about : DecisionSubject) :
    (Decision.ofEvaluation (evaluator.enforce about.subject about.service about.object
      about.action)).Explained held about false := by
  generalize answer : evaluator.enforce about.subject about.service about.object about.action =
    evaluation
  intro allowed
  have granted : evaluation.allowed = true := by
    unfold Decision.ofEvaluation at allowed
    dsimp only at allowed
    split at allowed
    · rename_i granted
      exact granted
    · split at allowed <;> cases allowed
  refine ⟨?_, Or.inl ⟨evaluator, member, ?_⟩⟩
  · have reason : (Decision.ofEvaluation evaluation).reason = Reason.allowed := by
      unfold Decision.ofEvaluation
      dsimp only
      rw [if_pos granted]
      rfl
    rw [reason]
    decide
  · unfold Evaluator.Allows
    rw [answer]
    exact granted

theorem viaRole_reason_ne (role : String) : Reason.viaRole role ≠ Reason.superadmin := by
  intro same
  have written : (Reason.viaRole role).toList = "allowed via role ".toList ++ role.toList :=
    String.toList_append
  have first : (Reason.viaRole role).toList.head? = some 'a' := congrArg List.head? written
  rw [same] at first
  exact absurd first (by decide)

end Decision

namespace Engine

open Act hiding pure bind state

variable {ε α : Type} {held more : TenantId → Evaluator → Prop} {engine after : Engine}
variable {tenant : TenantId} {request : CheckRequest}

/-- Evaluators that were held when a call began, and those that are resident now. -/
def Known (held : TenantId → Evaluator → Prop) (engine : Engine) (tenant : TenantId)
    (evaluator : Evaluator) : Prop :=
  held tenant evaluator ∨ engine.evaluator? tenant = some evaluator

/-- Cached decisions and role sets come from known evaluators. -/
def Sources (cache : DecisionCache) (known : TenantId → Evaluator → Prop) : Prop :=
  cache.Keeps (fun about decision _ => decision.Explained (known about.tenant) about false)
    (fun tenant subject roles _ => ∃ evaluator, known tenant evaluator ∧
      roles = evaluator.rolesOf subject)

theorem Sources.mono {cache : DecisionCache} {known : TenantId → Evaluator → Prop}
    (sources : Sources cache known)
    (contains : ∀ tenant evaluator, known tenant evaluator → more tenant evaluator) :
    Sources cache more := by
  apply sources.weaken
  · exact fun about _ _ explained => explained.mono (contains about.tenant)
  · intro tenant _ _ _ ⟨evaluator, member, same⟩
    exact ⟨evaluator, contains tenant evaluator member, same⟩

/-- What is cached has a source, and an evaluator that was built in this call is not stale, so that
it stays until the call ends. -/
structure Sourced (held : TenantId → Evaluator → Prop) (engine : Engine) : Prop where
  enrichers : engine.own.enrichers = []
  fresh : ∀ tenant evaluator, engine.evaluator? tenant = some evaluator →
    held tenant evaluator ∨ evaluator.isStale engine.now = false
  sources : Sources engine.own.cache (Known held engine)

/-- A call has gone on from one state to another: what was known is known still. -/
structure Traces (held : TenantId → Evaluator → Prop) (engine after : Engine) : Prop where
  sourced : Sourced held after
  settings : after.own.settings = engine.own.settings
  known : ∀ tenant evaluator, Known held engine tenant evaluator → Known held after tenant evaluator

theorem Traces.trans {one two three : Engine} (first : Traces held one two)
    (second : Traces held two three) : Traces held one three :=
  ⟨second.sourced, second.settings.trans first.settings, fun tenant evaluator member =>
    second.known tenant evaluator (first.known tenant evaluator member)⟩

namespace Sourced

variable (sourced : Sourced held engine)
include sourced

theorem traces : Traces held engine engine :=
  ⟨sourced, rfl, fun _ _ member => member⟩

theorem withTiming (timing : Timing) : Traces held engine (engine.withTiming timing) :=
  ⟨⟨sourced.enrichers, sourced.fresh, sourced.sources⟩, rfl, fun _ _ member => member⟩

theorem withStore (store : RuleStore) : Traces held engine (engine.withStore store) :=
  ⟨⟨sourced.enrichers, sourced.fresh, sourced.sources⟩, rfl, fun _ _ member => member⟩

theorem withCache {cache : DecisionCache} (sources : Sources cache (Known held engine)) :
    Traces held engine (engine.withCache cache) :=
  ⟨⟨sourced.enrichers, sourced.fresh, sources⟩, rfl, fun _ _ member => member⟩

/-- Only a stale evaluator is replaced, and a stale one was held when the call began. -/
theorem put {evaluator : Evaluator} (exact : evaluator.isStale engine.now = false)
    (stale : ∀ resident, engine.evaluator? tenant = some resident →
      resident.isStale engine.now = true) :
    Traces held engine (engine.withEvaluators (engine.own.evaluators.put tenant evaluator)) := by
  have now_resident {other : TenantId} {found : Evaluator}
      (present : (engine.own.evaluators.put tenant evaluator).get? other = some found) :
      other = tenant ∧ found = evaluator ∨ engine.evaluator? other = some found := by
    by_cases same : other = tenant
    · rw [same, Table.get?_put_self] at present
      exact Or.inl ⟨same, (Option.some.inj present).symm⟩
    · rw [Table.get?_put_of_ne _ _ same] at present
      exact Or.inr present
  have known : ∀ other found, Known held engine other found →
      Known held (engine.withEvaluators (engine.own.evaluators.put tenant evaluator)) other
        found := by
    intro other found member
    rcases member with before | resident
    · exact Or.inl before
    · by_cases same : other = tenant
      · subst same
        have old := stale found resident
        rcases sourced.fresh other found resident with before | fresh
        · exact Or.inl before
        · rw [old] at fresh
          cases fresh
      · refine Or.inr ?_
        have kept : (engine.own.evaluators.put tenant evaluator).get? other = some found := by
          rw [Table.get?_put_of_ne _ _ same]
          exact resident
        exact kept
  refine ⟨⟨sourced.enrichers, ?_, sourced.sources.mono known⟩, rfl, known⟩
  intro other found present
  rcases now_resident present with ⟨_, same⟩ | resident
  · rw [same]
    exact Or.inr exact
  · exact sourced.fresh other found resident

end Sourced

section Building

variable (sourced : Sourced held engine)
include sourced

theorem carries_waitUntil (moment : Nat) :
    Carries (Traces held) (waitUntil moment : Act Engine ε Unit) engine
      (fun _ after => ∃ timing, after = engine.withTiming timing) := by
  have traces := sourced.withTiming (engine.timing.goTo moment).2
  unfold Carries Leads Ends
  rw [waitUntil_apply]
  cases (engine.timing.goTo moment).1 with
  | none => exact ⟨traces, _, rfl⟩
  | some cause => exact traces

theorem carries_find (filter : RuleFilter) :
    Carries (Traces held) (find filter) engine
      (fun _ after => ∃ timing, after = engine.withTiming timing) := by
  apply carries_read
  apply (carries_waitUntil sourced _).bind Traces.trans
  intro _ middle traces waited
  apply leads_ofExcept
  · exact fun _ _ => ⟨traces.sourced.traces, waited⟩
  · exact fun _ _ => traces.sourced.traces

theorem carries_buildEvaluator (tenant : TenantId) :
    Carries (Traces held) (buildEvaluator tenant) engine (fun evaluator after =>
      evaluator.isStale engine.now = false ∧ ∃ timing, after = engine.withTiming timing) := by
  apply carries_read
  apply ((carries_find sourced _).mapError _).bind Traces.trans
  intro rules middle traces found
  split
  · rename_i evaluator built
    exact carries_pure traces.sourced.traces ⟨Evaluator.isStale_of_build built, found⟩
  · exact traces.sourced.traces

omit sourced in
theorem carries_timingBuild {action : Act Engine ε α}
    (right : α → (TenantId → Evaluator → Prop) → Prop)
    (carries : Carries (Traces held) action engine fun value after => right value (Known held after)) :
    Carries (Traces held) (timingBuild tenant action) engine fun value after =>
      right value (Known held after) := by
  unfold Carries Leads Ends timingBuild at *
  generalize action engine = result at carries ⊢
  obtain ⟨outcome, final⟩ := result
  cases outcome with
  | ok value => exact ⟨carries.1.trans (carries.1.sourced.withTiming _), carries.2⟩
  | error cause => exact Traces.trans carries (carries.sourced.withTiming _)
  | halted cause => exact Traces.trans carries (carries.sourced.withTiming _)

theorem carries_rebuild (stale : ∀ resident, engine.evaluator? tenant = some resident →
      resident.isStale engine.now = true) :
    Carries (Traces held) (rebuild tenant) engine
      (fun evaluator after => Known held after tenant evaluator) := by
  apply carries_timingBuild fun evaluator known => known tenant evaluator
  apply (carries_buildEvaluator sourced tenant).bind Traces.trans
  intro evaluator middle traces ⟨exact, timing, same⟩
  subst same
  have put := traces.sourced.put exact stale
  have resident : (engine.own.evaluators.put tenant evaluator).get? tenant = some evaluator :=
    Table.get?_put_self ..
  exact leads_bind (leads_modify (leads_pure ⟨put, Or.inr resident⟩))

theorem carries_awaitBuild (tenant : TenantId) :
    Carries (Traces held) (awaitBuild tenant : Act Engine ε Unit) engine (fun _ _ => True) :=
  carries_read ((carries_waitUntil sourced _).mono fun _ _ _ _ => trivial)

theorem carries_evaluator (tenant : TenantId) :
    Carries (Traces held) (evaluator tenant) engine
      (fun evaluator after => Known held after tenant evaluator) := by
  apply (carries_awaitBuild sourced tenant).bind Traces.trans
  intro _ middle traces _
  have sourced := traces.sourced
  apply carries_read
  cases resident : middle.evaluator? tenant with
  | none =>
    apply carries_rebuild sourced
    intro other present
    rw [resident] at present
    cases present
  | some kept =>
    dsimp only
    split
    · rename_i stale
      have stale_only : ∀ other, middle.evaluator? tenant = some other →
          other.isStale middle.now = true := by
        intro other present
        rw [resident] at present
        cases present
        exact stale
      apply (carries_rebuild sourced stale_only).attempt.bind Traces.trans
      intro result final onward rebuilt
      cases result with
      | ok fresh => exact carries_pure onward.sourced.traces (rebuilt fresh rfl)
      | error cause =>
        exact carries_pure onward.sourced.traces (onward.known tenant kept (Or.inr resident))
    · exact carries_pure sourced.traces (Or.inr resident)

theorem carries_ask (tenant : TenantId) (ask : Evaluator → α) :
    Carries (Traces held) (do Pure.pure (ask (← evaluator tenant))) engine
      (fun answer after => ∃ evaluator, Known held after tenant evaluator ∧ answer = ask evaluator) := by
  apply (carries_evaluator sourced tenant).bind Traces.trans
  intro evaluator middle traces member
  exact carries_pure traces.sourced.traces ⟨evaluator, member, rfl⟩

end Building

section Deciding

theorem carries_consultCache (step : DecisionCache → α × DecisionCache)
    (traces : Traces held engine (engine.withCache (step engine.own.cache).2)) :
    Carries (Traces held) (consultCache step : Act Engine ε α) engine (fun value after =>
      value = (step engine.own.cache).1 ∧ after = engine.withCache (step engine.own.cache).2) := by
  unfold Carries Leads Ends consultCache
  dsimp only
  by_cases late : (engine.withCache (step engine.own.cache).2).timing.isOver = true
  · rw [if_pos late]
    exact traces
  · rw [if_neg late]
    exact ⟨traces, rfl, rfl⟩

variable (sourced : Sourced held engine)
include sourced

theorem carries_recordUse (tenant : TenantId) (ids : List RuleId) :
    Carries (Traces held) (recordUse tenant ids : Act Engine ε Unit) engine (fun _ _ => True) := by
  apply carries_read
  have counts : Carries (Traces held)
      (onStore (fun store => store.recordUsage tenant ids engine.now)) engine (fun _ _ => True) := by
    have traces := sourced.withStore (engine.commons.store.recordUsage tenant ids engine.now).2
    apply (leads_onStore _ engine).mono
    · intro _ _ ⟨_, same⟩
      exact ⟨same ▸ traces, trivial⟩
    · intro _ _ ⟨_, same⟩
      exact same ▸ traces
    · exact fun _ impossible => impossible.elim
  apply counts.attempt.bind Traces.trans
  intro _ _ traces _
  exact carries_pure traces.sourced.traces trivial

/-- A fresh decision may be cached: it comes from a known evaluator, and nothing was added to it. -/
theorem carries_evaluate (request : CheckRequest) :
    Carries (Traces held) (evaluate request) engine (fun answer after =>
      answer.1.dataFilters = [] ∧ answer.1.fromCache = false ∧
        answer.1.Explained (Known held after request.tenant) request.about false) := by
  have finishes {middle : Engine} (sourced : Sourced held middle) {evaluation : Evaluation}
      (explained : (Decision.ofEvaluation evaluation).Explained (Known held middle request.tenant)
        request.about false) :
      Carries (Traces held) (do
        let engine ← Act.state
        Pure.pure (engine.enrich request (Decision.ofEvaluation evaluation),
          evaluation.validUntil) : Act Engine CheckError (Decision × Option Instant)) middle
        (fun answer after => answer.1.dataFilters = [] ∧ answer.1.fromCache = false ∧
          answer.1.Explained (Known held after request.tenant) request.about false) := by
    have plain : middle.enrich request (Decision.ofEvaluation evaluation) =
        Decision.ofEvaluation evaluation := by
      rw [enrich, sourced.enrichers]
      rfl
    have unmarked := congrArg Decision.fromCache (Decision.unmarked_ofEvaluation evaluation)
    apply carries_read
    apply carries_pure sourced.traces
    rw [plain]
    exact ⟨Decision.dataFilters_ofEvaluation _, unmarked.symm, explained⟩
  have asks := carries_ask sourced request.tenant
    (·.enforce request.subject request.service request.object request.action)
  apply (asks.mapError CheckError.evaluator).bind Traces.trans
  intro evaluation middle traces asked
  obtain ⟨evaluator, member, same⟩ := asked
  have explained : (Decision.ofEvaluation evaluation).Explained
      (Known held middle request.tenant) request.about false := by
    rw [same]
    exact Decision.explained_ofEvaluation member request.about
  split
  · apply (carries_recordUse traces.sourced request.tenant _).bind Traces.trans
    intro _ final onward _
    exact finishes onward.sourced (explained.mono (onward.known request.tenant))
  · exact finishes traces.sourced explained

theorem carries_lookUp (request : CheckRequest) :
    Carries (Traces held) (lookUp request : Act Engine ε (Option Decision)) engine
      (fun found after => ∀ decision, found = some decision →
        decision.Explained (Known held after request.tenant) request.about false) := by
  apply carries_read
  have narrows := DecisionCache.get_narrows engine.own.cache engine.now request
  have traces := sourced.withCache (sourced.sources.of_narrows narrows)
  apply (carries_consultCache _ traces).mono
  intro found after onward ⟨same, _⟩ decision present
  rw [same] at present
  obtain ⟨kept, _, marked, explained, _⟩ := sourced.sources.get_eq_some present
  rw [marked]
  exact explained.mono (onward.known request.tenant)

theorem carries_remember (request : CheckRequest) {decision : Decision}
    (unfiltered : decision.dataFilters = []) (unmarked : decision.fromCache = false)
    (explained : decision.Explained (Known held engine request.tenant) request.about false)
    (bound : Option Instant) :
    Carries (Traces held) (remember request decision bound : Act Engine ε Unit) engine
      (fun _ _ => True) := by
  have same : { decision with fromCache := false } = decision := by
    rw [← unmarked]
  apply carries_read
  have keeps : Sources (engine.own.cache.set engine.now request decision bound) (Known held engine) :=
    sourced.sources.set (DecisionCache.carried_of_unfiltered unfiltered) (same.symm ▸ explained) engine.now
  exact (carries_consultCache _ (sourced.withCache keeps)).mono fun _ _ _ _ => trivial

theorem carries_decideFresh (request : CheckRequest) (useCache : Bool) :
    Carries (Traces held) (decideFresh request useCache) engine (fun decision after =>
      decision.Explained (Known held after request.tenant) request.about false) := by
  apply (carries_evaluate sourced request).bind Traces.trans
  intro answer middle traces ⟨unfiltered, unmarked, explained⟩
  dsimp only
  split
  · apply (carries_remember traces.sourced request unfiltered unmarked explained _).bind
      Traces.trans
    intro _ final onward _
    exact carries_pure onward.sourced.traces (explained.mono (onward.known request.tenant))
  · exact carries_pure traces.sourced.traces explained

theorem carries_decide (request : CheckRequest) (useCache : Bool) :
    Carries (Traces held) (decide request useCache) engine (fun decision after =>
      engine.isSuperadmin request = false →
        decision.Explained (Known held after request.tenant) request.about false) := by
  have fresh {middle : Engine} (sourced : Sourced held middle) :
      Carries (Traces held) (decideFresh request useCache) middle (fun decision after =>
        engine.isSuperadmin request = false →
          decision.Explained (Known held after request.tenant) request.about false) :=
    (carries_decideFresh sourced request useCache).mono fun _ _ _ explained _ => explained
  apply carries_read
  split
  · rename_i super
    apply carries_pure sourced.traces
    intro ordinary
    rw [super] at ordinary
    cases ordinary
  · split
    · apply (carries_lookUp sourced request).bind Traces.trans
      intro found middle traces known
      cases found with
      | some decision => exact carries_pure traces.sourced.traces fun _ => known decision rfl
      | none => exact fresh traces.sourced
    · exact fresh sourced

theorem carries_roles (tenant : TenantId) (subject : String) (useCache : Bool) :
    Carries (Traces held) (roles tenant subject useCache) engine (fun roles after =>
      ∃ namer, Known held after tenant namer ∧ roles = namer.rolesOf subject) := by
  have named {middle : Engine} (sourced : Sourced held middle) :
      Carries (Traces held) ((rolesUntil tenant subject).mapError CheckError.evaluator) middle
        (fun answer after => ∃ namer, Known held after tenant namer ∧
          answer = (namer.rolesOf subject, namer.nextTransition)) :=
    (carries_ask sourced tenant _).mapError _
  have narrows := DecisionCache.getRoles_narrows engine.own.cache engine.now tenant subject
  apply carries_read
  cases useCache with
  | false =>
    apply (named sourced).bind Traces.trans
    intro answer middle traces ⟨namer, member, same⟩
    subst same
    exact carries_pure traces.sourced.traces ⟨namer, member, rfl⟩
  | true =>
    have looks := sourced.withCache (sourced.sources.of_narrows narrows)
    apply (carries_consultCache _ looks).bind Traces.trans
    intro found middle traces ⟨same, _⟩
    cases found with
    | some roles =>
      obtain ⟨_, ⟨namer, member, listed⟩, _⟩ := sourced.sources.getRoles_eq_some same.symm
      exact carries_pure traces.sourced.traces ⟨namer, traces.known tenant namer member, listed⟩
    | none =>
      apply (named traces.sourced).bind Traces.trans
      intro answer final onward ⟨namer, member, same⟩
      subst same
      have keeps : Sources (final.own.cache.setRoles engine.now tenant subject
          (namer.rolesOf subject) namer.nextTransition) (Known held final) :=
        onward.sourced.sources.setRoles ⟨namer, member, rfl⟩ engine.now
      apply (carries_consultCache _ (onward.sourced.withCache keeps)).bind Traces.trans
      intro _ last written _
      exact carries_pure written.sourced.traces ⟨namer, written.known tenant namer member, rfl⟩

theorem carries_firstAllowed (request : CheckRequest) (useCache : Bool) (roles : List String) :
    Carries (Traces held) (firstAllowed request useCache roles) engine (fun found after =>
      ∀ decision, found = some decision → decision.reason ≠ Reason.superadmin ∧ ∃ role ∈ roles,
        ∃ granter, Known held after request.tenant granter ∧
          granter.Allows { request.about with subject := role }) := by
  induction roles generalizing engine with
  | nil => exact carries_pure sourced.traces fun _ impossible => nomatch impossible
  | cons role rest ih =>
    -- Who asks as a role brings no roles of the caller along.
    have ordinary : engine.isSuperadmin (request.asSubject role) = false := rfl
    apply (carries_decide sourced (request.asSubject role) useCache).bind Traces.trans
    intro decision middle traces explained
    split
    · rename_i allowed
      apply carries_pure traces.sourced.traces
      intro other same
      cases same
      refine ⟨Decision.viaRole_reason_ne role, role, List.mem_cons_self .., ?_⟩
      rcases (explained ordinary allowed).2 with direct | ⟨impossible, _⟩
      · exact direct
      · cases impossible
    · apply (ih traces.sourced).mono
      intro found final _ later other same
      obtain ⟨reason, name, listed, granted⟩ := later other same
      exact ⟨reason, name, List.mem_cons_of_mem _ listed, granted⟩

theorem carries_decideExpanded (request : CheckRequest) (useCache : Bool) :
    Carries (Traces held) (decideExpanded request useCache) engine (fun decision after =>
      engine.isSuperadmin request = false →
        decision.Explained (Known held after request.tenant) request.about true) := by
  have named {decision : Decision} {known : Evaluator → Prop}
      (explained : decision.Explained known request.about true) :
      (nameRole decision).Explained known request.about true := by
    unfold nameRole
    split
    · split
      · exact explained
      · exact explained
    · exact explained
  apply (carries_decide sourced request useCache).bind Traces.trans
  intro direct middle traces explained
  split
  · exact carries_pure traces.sourced.traces fun ordinary => named (explained ordinary).widen
  · rename_i refused
    have denied {known : Evaluator → Prop} : direct.Explained known request.about true :=
      fun allowed => absurd allowed refused
    split
    · exact carries_pure traces.sourced.traces fun _ => denied
    · apply (carries_roles traces.sourced request.tenant request.subject useCache).bind Traces.trans
      intro roles next onward ⟨namer, member, listed⟩
      apply (carries_firstAllowed onward.sourced request useCache roles).bind Traces.trans
      intro found final later granted
      cases found with
      | none => exact carries_pure later.sourced.traces fun _ => denied
      | some decision =>
        apply carries_pure later.sourced.traces
        intro _ _
        obtain ⟨reason, role, among, granter, granting, allows⟩ := granted decision rfl
        refine ⟨reason, Or.inr ⟨rfl, namer, later.known _ namer member, role, ?_, granter, granting,
          allows⟩⟩
        rw [listed] at among
        exact among

theorem carries_within {millis : Option Nat} {late : α} {action : Act Engine ε α}
    (right : α → (TenantId → Evaluator → Prop) → Prop)
    (carries : ∀ {middle}, Sourced held middle → middle.own.settings = engine.own.settings →
      Carries (Traces held) action middle fun value after => right value (Known held after))
    (lateRight : ∀ known, right late known) :
    Carries (Traces held) (within millis late action) engine fun value after =>
      right value (Known held after) := by
  have inside := sourced.withTiming
    { engine.timing with deadline := millis.map (engine.timing.elapsed + ·) }
  have ends := carries inside.sourced inside.settings
  unfold Carries Leads Ends within withDeadline at *
  generalize action _ = result at ends ⊢
  obtain ⟨outcome, final⟩ := result
  have lifted {final : Engine} (onward : Traces held (engine.withTiming
      { engine.timing with deadline := millis.map (engine.timing.elapsed + ·) }) final) :
      Traces held engine
        (final.withTiming { final.timing with deadline := engine.timing.deadline }) :=
    (inside.trans onward).trans (onward.sourced.withTiming _)
  cases outcome with
  | ok value => exact ⟨lifted ends.1, ends.2⟩
  | error cause => exact lifted ends
  | halted cause =>
    cases cause with
    | deadline => exact ⟨lifted ends, lateRight _⟩
    | calendarEnd => exact lifted ends
    | tooWide => exact lifted ends
    | abandoned => exact lifted ends

theorem carries_check (request : CheckRequest) (options : CheckOptions) (expand : Bool) :
    Carries (Traces held) (check request options expand) engine (fun decision after =>
      engine.isSuperadmin request = false →
        decision.Explained (Known held after request.tenant) request.about expand) := by
  have audited {middle : Engine} (sourced : Sourced held middle) (decision : Decision) :
      Carries (Traces held) (Act.modify (auditDecision request options.audit decision) :
        Act Engine CheckError Unit) middle (fun _ _ => True) := by
    apply leads_modify
    refine ⟨?_, trivial⟩
    unfold Engine.auditDecision
    split
    · exact ⟨⟨sourced.enrichers, sourced.fresh, sourced.sources⟩, rfl, fun _ _ member => member⟩
    · exact sourced.traces
  unfold check
  split
  · exact leads_fail sourced.traces
  · apply carries_read
    apply (carries_within sourced (fun decision known => engine.isSuperadmin request = false →
      decision.Explained (known request.tenant) request.about expand) ?_ ?_).bind Traces.trans
    · intro decision middle traces explained
      apply (audited traces.sourced decision).bind Traces.trans
      intro _ final onward _
      exact carries_pure onward.sourced.traces fun ordinary =>
        (explained ordinary).mono (onward.known request.tenant)
    · intro middle sourced settings
      have same : middle.isSuperadmin request = engine.isSuperadmin request := by
        unfold isSuperadmin
        rw [settings]
      rw [← same]
      cases expand with
      | true => exact carries_decideExpanded sourced request _
      | false => exact carries_decide sourced request _
    · exact fun _ _ => Decision.explained_deny _

theorem carries_checkPermission (tenant : TenantId) (caller : Principal) (query : PermissionQuery) :
    Carries (Traces held) (checkPermission tenant caller query : Act Engine ε Decision) engine
      (fun decision after => engine.isSuperadmin (query.toRequest tenant caller) = false →
        decision.Explained (Known held after tenant) (query.toRequest tenant caller).about
          query.expandRoles) := by
  apply (carries_check sourced (query.toRequest tenant caller) query.options
    query.expandRoles).attempt.bind Traces.trans
  intro result middle traces explained
  cases result with
  | ok decision => exact carries_pure traces.sourced.traces (explained decision rfl)
  | error fault =>
    exact carries_pure traces.sourced.traces fun _ => Decision.explained_deny fault.message

end Deciding

section Batches

theorem allowed_of_error {answer : BatchAnswer} {fault : CheckError}
    (failed : answer.result = .error fault) : answer.decision.allowed = false := by
  unfold BatchAnswer.decision
  rw [failed]
  cases fault <;> rfl

/-- The answer stands for the request at its place. -/
def Answers (base : Engine) (held : TenantId → Evaluator → Prop) (requests : List (Nat × CheckRequest))
    (after : Engine) (answer : BatchAnswer) : Prop :=
  ∃ request, (answer.place, request) ∈ requests ∧ (base.isSuperadmin request = false →
    answer.decision.Explained (Known held after request.tenant) request.about false)

variable (sourced : Sourced held engine)
include sourced

theorem traces_batchItem (place start : Nat) (request : CheckRequest) (options : CheckOptions) :
    Traces held engine (batchItem place start request options engine).2 ∧
      Answers engine held [(place, request)] (batchItem place start request options engine).2
        (batchItem place start request options engine).1 := by
  have decides : Carries (Traces held)
      (waitUntil start >>= fun _ => check request options false) engine (fun decision after =>
        engine.isSuperadmin request = false →
          decision.Explained (Known held after request.tenant) request.about false) := by
    apply (carries_waitUntil sourced start).bind Traces.trans
    intro _ middle traces ⟨timing, same⟩
    subst same
    exact carries_check traces.sourced request options false
  unfold Carries Leads Ends at decides
  unfold batchItem
  dsimp only
  generalize (waitUntil start >>= fun _ => check request options false) engine = result at decides ⊢
  obtain ⟨outcome, final⟩ := result
  have listed : (place, request) ∈ [(place, request)] := List.mem_singleton.mpr rfl
  have refused {fault : CheckError} (known : Evaluator → Prop) :
      (BatchAnswer.decision ⟨place, final.timing.elapsed, .error fault⟩).Explained known
        request.about false := by
    intro allowed
    rw [allowed_of_error rfl] at allowed
    cases allowed
  cases outcome with
  | ok decision => exact ⟨decides.1, request, listed, decides.2⟩
  | error fault => exact ⟨decides, request, listed, fun _ => refused _⟩
  | halted cause => exact ⟨decides, request, listed, fun _ => refused _⟩

theorem traces_decideEach (options : CheckOptions) (free : List Nat)
    (requests : List (Nat × CheckRequest)) :
    Traces held engine (decideEach options free engine requests).2 ∧
      ∀ answer ∈ (decideEach options free engine requests).1,
        Answers engine held requests (decideEach options free engine requests).2 answer := by
  induction requests generalizing free engine with
  | nil => exact ⟨sourced.traces, fun _ impossible => nomatch impossible⟩
  | cons item rest ih =>
    obtain ⟨place, request⟩ := item
    unfold decideEach
    dsimp only
    obtain ⟨traces, found, listed, explained⟩ :=
      traces_batchItem sourced place ((Ascending.least? free).getD 0) request options
    generalize batchItem place ((Ascending.least? free).getD 0) request options engine = result
      at traces listed explained ⊢
    obtain ⟨answer, middle⟩ := result
    obtain ⟨onward, others⟩ := ih traces.sourced
      (answer.finish :: free.erase ((Ascending.least? free).getD 0))
    refine ⟨traces.trans onward, ?_⟩
    intro other member
    rcases List.mem_cons.mp member with first | later
    · subst first
      refine ⟨found, ?_, fun ordinary => (explained ordinary).mono (onward.known found.tenant)⟩
      rw [List.mem_singleton.mp listed]
      exact List.mem_cons_self ..
    · obtain ⟨asked, among, explained⟩ := others other later
      refine ⟨asked, List.mem_cons_of_mem _ among, ?_⟩
      intro ordinary
      apply explained
      unfold isSuperadmin at ordinary ⊢
      rw [traces.settings]
      exact ordinary

/-- Each decision of a batch stands for the request at its place. -/
def DecidesEach (base : Engine) (held : TenantId → Evaluator → Prop) (requests : List CheckRequest)
    (decisions : List Decision) (after : Engine) : Prop :=
  ∀ (place : Nat) (decision : Decision), decisions[place]? = some decision →
    ∃ request, requests[place]? = some request ∧
      (base.isSuperadmin request = false →
        decision.Explained (Known held after request.tenant) request.about false)

theorem traces_decideInOrder (order : List Nat) (requests : List CheckRequest)
    (options : CheckOptions) (last : Option Nat) :
    Traces held engine (decideInOrder order requests options last engine).2 ∧
      DecidesEach engine held requests
        (BatchAnswer.inOrder requests.length (decideInOrder order requests options last engine).1)
        (decideInOrder order requests options last engine).2 := by
  have inside := sourced.withTiming { engine.timing with last := last }
  obtain ⟨traces, answered⟩ := traces_decideEach inside.sourced options
    (List.replicate (min engine.own.settings.batchConcurrency requests.length)
      engine.timing.elapsed)
    (order.filterMap fun place => requests[place]?.map fun request => (place, request))
  refine ⟨(inside.trans traces).trans (traces.sourced.withTiming _), ?_⟩
  intro place decision present
  unfold BatchAnswer.inOrder at present
  rw [List.getElem?_map, Option.map_eq_some_iff] at present
  obtain ⟨number, counted, same⟩ := present
  obtain ⟨bound, numbered⟩ := List.getElem?_eq_some_iff.mp counted
  rw [List.length_range] at bound
  rw [List.getElem_range] at numbered
  subst numbered
  unfold decideInOrder at same ⊢
  dsimp only at same ⊢
  generalize decideEach options _ _ _ = result at answered same ⊢
  obtain ⟨answers, final⟩ := result
  dsimp only at answered same
  cases found : answers.find? (fun answer => answer.place = place) with
  | none =>
    rw [found] at same
    refine ⟨requests[place], List.getElem?_eq_getElem bound, fun _ => ?_⟩
    rw [← same]
    exact Decision.explained_deny _
  | some answer =>
    rw [found] at same
    obtain ⟨request, listed, explained⟩ := answered answer (List.mem_of_find?_eq_some found)
    have placed : answer.place = place := by simpa using List.find?_some found
    obtain ⟨other, _, paired⟩ := List.mem_filterMap.mp listed
    obtain ⟨asked, at_place, pair⟩ := Option.map_eq_some_iff.mp paired
    obtain ⟨rfl, rfl⟩ := Prod.mk.inj pair
    refine ⟨asked, placed ▸ at_place, ?_⟩
    rw [← same]
    exact explained

theorem carries_batch (requests : List CheckRequest) (options : CheckOptions) (failFast : Bool) :
    Carries (Traces held) (batch requests options failFast) engine
      (DecidesEach engine held requests) := by
  apply carries_read
  split
  · exact sourced.traces
  · have decided := traces_decideInOrder sourced (List.range requests.length) requests options
    unfold Carries Leads Ends batchInOrder
    dsimp only
    cases BatchAnswer.firstFailure?
      (decideInOrder (List.range requests.length) requests options none engine).1 with
    | none => exact decided none
    | some first =>
      obtain ⟨finish, fault⟩ := first
      dsimp only
      cases failFast with
      | true => exact (decided (some finish)).1
      | false => exact decided none

theorem carries_batchPermission (tenant : TenantId) (caller : Principal)
    (queries : List PermissionQuery) (failFast : Bool) :
    Carries (Traces held) (batchPermission tenant caller queries failFast) engine
      (fun response => DecidesEach engine held (queries.map (·.toRequest tenant caller))
        response.decisions) := by
  apply (carries_batch sourced _ _ failFast).bind Traces.trans
  intro decisions middle traces explained
  exact carries_pure traces.sourced.traces explained

end Batches

end Engine

end AccessPolicy
