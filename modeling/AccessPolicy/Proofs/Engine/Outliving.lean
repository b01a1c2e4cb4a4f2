import AccessPolicy.Proofs.Engine.Racing

/-!
A write outlives the checks that it overlaps. Whatever order the steps of a write and of a check are
made in, the cache answers as the evaluators do when both have ended, as long as no answer waits to be
cached, while the cache is invalidated, that does not last by the stored rules. An answer that does
not, and is cached afterwards, is served until its entry expires.
-/
namespace AccessPolicy

namespace Engine

open Act hiding pure bind state
open Steps

variable {ε α β : Type} {debt : Debt} {waits : Option Answer} {answer : Answer} {engine : Engine}

namespace Racing

theorem forget (racing : Racing debt waits engine) : Racing debt none engine :=
  ⟨racing.owing, racing.recollects, fun _ impossible => (nomatch impossible), racing.read⟩

theorem withCache (racing : Racing debt waits engine) {cache : DecisionCache}
    (available : cache.backend.available = true)
    (recalls : cache.Recalls (Enricher.adds engine.own.enrichers) NoneStale
      (Prone debt engine.commons.store.law engine.now)) :
    Racing debt waits (engine.withCache cache) :=
  ⟨racing.owing.of_same rfl rfl rfl racing.owing.paced,
    ⟨racing.recollects.enrichers, available, recalls⟩, racing.waiting, racing.read⟩

theorem narrowed (racing : Racing debt waits engine) {cache : DecisionCache}
    (narrows : cache.backend.Narrows engine.own.cache.backend) :
    Racing debt waits (engine.withCache cache) :=
  racing.withCache (narrows.available.trans racing.recollects.available)
    (racing.recollects.recalls.of_narrows narrows)

/-- A step of the cache is waited for. -/
theorem ensures_consultCache (racing : Racing debt waits engine)
    (step : DecisionCache → α × DecisionCache) :
    Ensures (consultCache step : Act Engine ε α) engine (fun value after =>
      value = (step engine.own.cache).1 ∧ after = engine.withCache (step engine.own.cache).2) := by
  have free : engine.timing.deadline = none := racing.owing.paced.deadline id
  have leisure : (engine.withCache (step engine.own.cache).2).timing.isOver = false := by
    have same : (engine.withCache (step engine.own.cache).2).timing = engine.timing := rfl
    rw [same]
    simp [Timing.isOver, free]
  unfold Ensures Leads Ends consultCache
  dsimp only
  rw [leisure]
  exact ⟨rfl, rfl⟩

/-- An answer by an evaluator that drifts at most is prone at most. -/
theorem ensures_ask (racing : Racing debt none engine) {tenant : TenantId}
    (ask : Evaluator → α) (answers : α → Answer)
    (right : ∀ evaluator, (answers (ask evaluator)).tenant = tenant ∧
      (answers (ask evaluator)).bound = evaluator.nextTransition ∧
        (answers (ask evaluator)).right evaluator) :
    Ensures (do Pure.pure (ask (← evaluator tenant))) engine
      (fun value => Racing debt (some (answers value))) := by
  apply (racing.owing.ask tenant ask).mono
  rintro _ after ⟨tends, evaluator, rfl, ⟨rules, follows, drifts⟩, _⟩
  have owing := racing.owing.of_tends tends
  obtain ⟨evaluators, timing, rfl⟩ := tends.evolves
  obtain ⟨owned, bound, correct⟩ := right evaluator
  refine ⟨owing, racing.recollects.of_cache_eq rfl rfl, ?_, racing.read⟩
  intro waiting same
  cases same
  refine ⟨rules, owned ▸ drifts.owned, ?_, ?_⟩
  · rw [bound]
    exact follows.lasting (answers (ask evaluator)).shared correct
  · rw [owned]
    exact drifts.adrift.mono fun _ _ pardon => Or.inl pardon.2

theorem ensures_recordUse (racing : Racing debt waits engine) (tenant : TenantId)
    (ids : List RuleId) :
    Ensures (recordUse tenant ids : Act Engine ε Unit) engine (fun _ => Racing debt waits) := by
  obtain ⟨accepted, sound, alike⟩ := racing.owing.sound.recordUsage tenant ids engine.now
  have counted : Racing debt waits
      (engine.withStore (engine.commons.store.recordUsage tenant ids engine.now).2) := by
    refine racing.renew (racing.owing.recount sound alike) ⟨rfl, rfl⟩ ?_ ?_
    · exact fun owner _ _ _ _ prone => prone.alike (alike owner)
    · intro rule read stored found
      have identified := sound.keyed rule.id stored found
      have member := sound.mem_law_iff.mpr ⟨identified.symm ▸ found, rfl⟩
      obtain ⟨before, present, same⟩ := (alike stored.tenant).back stored member
      have held := (racing.owing.sound.mem_law_iff.mp present).1
      rw [same.id, identified] at held
      exact (racing.read rule read before held).trans same
  apply leads_read
  apply leads_bind
  apply leads_attempt
  unfold Leads onStore
  dsimp only
  rw [accepted]
  exact leads_pure counted

theorem ensures_lookUp (racing : Racing debt none engine) (request : CheckRequest) :
    Ensures (lookUp request : Act Engine ε (Option Decision)) engine
      (fun _ => Racing debt none) := by
  apply leads_read
  apply Ensures.mono (racing.ensures_consultCache _)
  rintro _ _ ⟨_, rfl⟩
  exact racing.narrowed (DecisionCache.get_narrows ..)

/-- An answer that has waited is cached. -/
theorem ensures_remember {request : CheckRequest} {evaluation : Evaluation}
    (racing : Racing debt (some (.ofDecision request.about evaluation)) engine) :
    Ensures (remember request (Decision.ofEvaluation evaluation) evaluation.validUntil :
      Act Engine ε Unit) engine (fun _ => Racing debt none) := by
  apply leads_read
  apply Ensures.mono (racing.ensures_consultCache _)
  rintro _ _ ⟨_, rfl⟩
  have recollects := racing.recollects
  apply racing.forget.withCache
  · exact (DecisionCache.write_switches ..).1.trans recollects.available
  · apply DecisionCache.Keeps.set recollects.recalls (Decision.carried_ofEvaluation _)
    intro _
    obtain ⟨rules, mine, lasting, adrift⟩ := racing.waiting _ rfl
    refine ⟨rules, mine, lasting.imp fun _ answers => ?_, adrift⟩
    rw [recollects.enrichers.plain not_false]
    exact ⟨_, answers, rfl⟩

theorem ensures_getRoles (racing : Racing debt none engine) (now : Instant) (tenant : TenantId)
    (subject : String) :
    Ensures (consultCache (fun cache => cache.getRoles now tenant subject) :
      Act Engine ε (Option (List String))) engine (fun _ => Racing debt none) := by
  apply Ensures.mono (racing.ensures_consultCache _)
  rintro _ _ ⟨_, rfl⟩
  exact racing.narrowed (DecisionCache.getRoles_narrows ..)

theorem ensures_setRoles {tenant : TenantId} {subject : String}
    {roles : List String × Option Instant}
    (racing : Racing debt (some (.ofRoles tenant subject roles)) engine) (now : Instant) :
    Ensures (consultCache (fun cache =>
      ((), cache.setRoles now tenant subject roles.1 roles.2)) : Act Engine ε Unit) engine
      (fun _ => Racing debt none) := by
  apply Ensures.mono (racing.ensures_consultCache _)
  rintro _ _ ⟨_, rfl⟩
  have recollects := racing.recollects
  apply racing.forget.withCache
  · exact (DecisionCache.write_switches ..).1.trans recollects.available
  · exact DecisionCache.Keeps.setRoles recollects.recalls (fun _ => racing.waiting _ rfl) now

end Racing

/-- Where an answer waits, or none, the steps of a check go on racing. -/
def Races (waits : Option Answer) (steps : Steps Engine (Option Answer) ε α) : Prop :=
  Resumes (fun due other => Racing (.ofDue other) (waiting? due)) (fun _ (_ : Option WriteMark) _ => True)
    (fun other => Racing (.ofDue other) waits) steps

section Checking

theorem races_once {action : Act Engine ε α} {next : α → Steps Engine (Option Answer) ε β}
    {after : α → Option Answer}
    (ensures : ∀ debt engine, Racing debt waits engine →
      Ensures action engine (fun value => Racing debt (after value)))
    (onward : ∀ value, Races (after value) (next value)) :
    Races waits (.once waits action >>= next) := by
  apply resumes_once_bind
  · exact fun _ _ start => start
  · intro other engine start _
    apply Leads.mono (ensures _ engine start)
    · exact fun value _ ends => (onward value).continues ends
    · exact fun _ _ impossible => impossible.elim
    · exact fun _ impossible => impossible.elim

/-- No enricher is seen. -/
theorem races_state {next : Engine → Steps Engine (Option Answer) ε β}
    (onward : ∀ engine : Engine, engine.own.enrichers = [] → Races waits (next engine)) :
    Races waits (.once waits Act.state >>= next) := by
  apply resumes_once_bind
  · exact fun _ _ start => start
  · exact fun _ engine start _ => (onward engine (start.recollects.enrichers.plain not_false)).continues start

theorem races_recordSteps {tenant : TenantId} {evaluation : Evaluation}
    {next : Unit → Steps Engine (Option Answer) CheckError β}
    (onward : Races (some answer) (next ())) :
    Races (some answer) (recordSteps tenant answer evaluation >>= next) := by
  unfold recordSteps
  split
  · exact races_once (fun _ _ racing => racing.ensures_recordUse tenant _) fun _ => onward
  · exact onward

theorem races_decideFreshSteps (request : CheckRequest)
    {next : Decision → Steps Engine (Option Answer) CheckError β}
    (onward : ∀ decision, Races none (next decision)) :
    Races none (decideFreshSteps request >>= next) := by
  have asks (debt : Debt) (engine : Engine) (racing : Racing debt none engine) :
      Ensures ((enforce request.tenant request.subject request.service request.object
        request.action).mapError CheckError.evaluator) engine
        (fun evaluation => Racing debt (some (.ofDecision request.about evaluation))) := by
    apply Ensures.mapError
    apply racing.ensures_ask (fun evaluator => evaluator.enforce request.subject request.service
      request.object request.action)
    exact fun evaluator => ⟨rfl, Evaluator.enforce_validUntil .., rfl⟩
  unfold decideFreshSteps
  simp only [bind_assoc, pure_bind]
  apply races_once asks
  intro evaluation
  apply races_recordSteps
  apply races_state
  intro engine plain
  have unenriched : engine.enrich request (Decision.ofEvaluation evaluation) =
      Decision.ofEvaluation evaluation := by
    rw [enrich, plain]
    rfl
  rw [unenriched]
  exact races_once (fun _ _ racing => racing.ensures_remember) fun _ => onward _

theorem races_decideSteps (request : CheckRequest)
    {next : Decision → Steps Engine (Option Answer) CheckError β}
    (onward : ∀ decision, Races none (next decision)) :
    Races none (decideSteps request >>= next) := by
  unfold decideSteps
  rw [bind_assoc]
  apply races_state
  intro engine _
  split
  · exact onward _
  · rw [bind_assoc]
    apply races_once fun _ _ racing => racing.ensures_lookUp request
    intro found
    cases found with
    | some decision => exact onward decision
    | none => exact races_decideFreshSteps request onward

theorem races_rolesSteps (tenant : TenantId) (subject : String)
    {next : List String → Steps Engine (Option Answer) CheckError β}
    (onward : ∀ roles, Races none (next roles)) :
    Races none (rolesSteps tenant subject >>= next) := by
  have asks (debt : Debt) (engine : Engine) (racing : Racing debt none engine) :
      Ensures ((rolesUntil tenant subject).mapError CheckError.evaluator) engine
        (fun roles => Racing debt (some (.ofRoles tenant subject roles))) := by
    apply Ensures.mapError
    apply racing.ensures_ask (fun evaluator => (evaluator.rolesOf subject, evaluator.nextTransition))
    exact fun evaluator => ⟨rfl, rfl, rfl⟩
  unfold rolesSteps
  rw [bind_assoc]
  apply races_state
  intro engine _
  rw [bind_assoc]
  apply races_once fun _ _ racing => racing.ensures_getRoles engine.now tenant subject
  intro found
  cases found with
  | some roles => exact onward roles
  | none =>
    simp only [bind_assoc, pure_bind]
    apply races_once asks
    intro roles
    exact races_once (fun _ _ racing => racing.ensures_setRoles engine.now) fun _ => onward roles.1

theorem races_firstAllowedSteps (request : CheckRequest) (roles : List String)
    {next : Option Decision → Steps Engine (Option Answer) CheckError β}
    (onward : ∀ found, Races none (next found)) :
    Races none (firstAllowedSteps request roles >>= next) := by
  induction roles with
  | nil => exact onward none
  | cons role rest ih =>
    unfold firstAllowedSteps
    rw [bind_assoc]
    apply races_decideSteps
    intro decision
    split
    · exact onward _
    · exact ih

theorem races_decideExpandedSteps (request : CheckRequest)
    {next : Decision → Steps Engine (Option Answer) CheckError β}
    (onward : ∀ decision, Races none (next decision)) :
    Races none (decideExpandedSteps request >>= next) := by
  unfold decideExpandedSteps
  rw [bind_assoc]
  apply races_decideSteps
  intro direct
  split
  · exact onward _
  · split
    · exact onward _
    · rw [bind_assoc]
      apply races_rolesSteps
      intro roles
      rw [bind_assoc]
      apply races_firstAllowedSteps
      intro found
      cases found with
      | some decision => exact onward decision
      | none => exact onward direct

/-- The steps of every check race with those of a write. -/
theorem races_checkSteps (request : CheckRequest) (expand : Bool) :
    Races none (checkSteps request expand) := by
  have ends (decision : Decision) :
      Races none (pure decision : Steps Engine (Option Answer) CheckError Decision) :=
    resumes_pure (fun _ _ start => start) decision
  rw [← bind_pure (checkSteps request expand)]
  cases expand with
  | true => exact races_decideExpandedSteps request ends
  | false => exact races_decideSteps request ends

end Checking

variable {final later : Engine}

theorem racing_of_coherent (coherent : Coherent (Regime.steady True) engine) :
    Racing .free none engine where
  owing := coherent.owing (fun _ impossible => nomatch impossible) (fair_named _ _)
  recollects := (coherent.recollects trivial).weaken fun _ _ _ _ _ lasts =>
    prone_of_lasting coherent.sound.owned (lasts trivial)
  waiting := fun _ impossible => nomatch impossible
  read := fun _ impossible => nomatch impossible

theorem Racing.coherent (racing : Racing .free none engine) :
    Coherent (Regime.steady True) engine := by
  have nothing : ∀ owed, ¬ Debt.free.owed = some owed := fun _ impossible => nomatch impossible
  have paced : Paced (Regime.steady True) engine.timing :=
    ⟨racing.owing.paced.deadline, racing.owing.paced.last⟩
  refine coherent_of racing.owing.sound (racing.owing.tracks nothing) (fun _ => ?_) paced
  exact racing.recollects.weaken fun _ _ _ _ shared prone _ => prone.lasting shared rfl

/-- A write and a check that is attended leave a cache that recalls what lasts by the stored rules. -/
theorem coherent_of_attended {write : Write} (closing : write.Closes) {request : CheckRequest}
    {expand : Bool} (coherent : Coherent (Regime.steady True) engine)
    (overlap : Overlap Attended (fun _ _ _ => True) write.steps (checkSteps request expand) engine
      final) : Coherent (Regime.steady True) final := by
  have writes := upheld_racing.upholds_steps write closing
  have checks := races_checkSteps request expand
  have start := racing_of_coherent coherent
  have first : Racing (.ofDue write.steps.due) none engine := writes.1 none engine start
  have both : Racing (.ofDue write.steps.due) (waiting? (checkSteps request expand).due) engine :=
    checks.1 write.steps.due engine first
  have ends : Racing .free none final := overlap.preserves writes.2 checks.2 both
  exact ends.coherent

/-- From then on a check gives the same decision with the cache and without it, whatever is called
and however much time goes by. -/
theorem cached_eq_uncached_of_attended {write : Write} (closing : write.Closes)
    {request : CheckRequest} {expand : Bool} (coherent : Coherent (Regime.steady True) engine)
    (overlap : Overlap Attended (fun _ _ _ => True) write.steps (checkSteps request expand) engine
      final)
    (run : Relation.ReflTransGen (Step False) final later)
    (unlimited : later.own.settings.checkTimeout = none) (tenant : TenantId) (caller : Principal)
    (query : PermissionQuery) : ∃ cached uncached : Decision,
      ((checkPermission tenant caller { query with useCache := true } : Act Engine Empty Decision)
        later.newCall).1 = .ok cached ∧
      ((checkPermission tenant caller { query with useCache := false } : Act Engine Empty Decision)
        later.newCall).1 = .ok uncached ∧ cached.Agrees uncached := by
  have coherent_final := coherent_of_attended closing coherent overlap
  have coherent_later := (coherent_of_run run (fun _ impossible => impossible) coherent_final).1
  obtain ⟨cached, first, right⟩ := coherent_later.replies unlimited tenant caller
    { query with useCache := true }
  obtain ⟨uncached, second, rightToo⟩ := coherent_later.replies unlimited tenant caller
    { query with useCache := false }
  exact ⟨cached, uncached, first, second,
    Decision.agrees_of_unmarked_eq (right.trans rightToo.symm)⟩

section Witnesses

theorem coherent_granting : Coherent (Regime.steady True) granting := by
  have start : Coherent (Regime.steady True) started :=
    coherent_start RuleStore.sound_empty _ _ _ _ fun _ => rfl
  have admissible : (Command.create ⟨1⟩ annReads).Admissible started.commons.store :=
    ⟨by decide, rfl⟩
  have created : Step False started granting := .call _ admissible
  exact (coherent_of_run (.single created) (fun _ impossible => impossible) start).1

/-- No answer waits at an invalidation. -/
def attends (mark : WriteMark) (other : Option (Option Answer)) (engine : Engine) : Bool :=
  match mark.kind with
  | .insert => (engine.commons.store.rows.get? engine.commons.store.nextId).isNone
  | .invalidate => (waiting? other).isNone
  | _ => true

theorem attended_of_attends {mark : WriteMark} {other : Option (Option Answer)} {engine : Engine}
    (attends : attends mark other engine = true) : Attended mark other engine := by
  obtain ⟨kind, debt⟩ := mark
  refine ⟨?_, ?_⟩
  · rintro rfl
    exact Option.isNone_iff_eq_none.mp attends
  · rintro rfl answer waiting
    have none_waits : waiting? other = none := Option.isNone_iff_eq_none.mp attends
    rw [none_waits] at waiting
    cases waiting

def annRead : CheckRequest :=
  mayAnnRead.toRequest ⟨1⟩ ⟨"clerk", []⟩

/-- The rule is deleted when ann's check has been evaluated; the cache is invalidated when the answer
has been cached. -/
def caughtUp : List Bool :=
  [false, false, false, true, true, true, false, false, false, true]

theorem caughtUp_plays : (Steps.play attends (fun _ _ _ => true) caughtUp
    (Write.delete ⟨1⟩ [⟨1⟩]).steps (checkSteps annRead false) granting).any
      (fun final => final.own.settings.checkTimeout.isNone) = true := by
  decide +kernel

theorem cached_eq_uncached_of_caughtUp : ∃ final,
    Steps.Overlap Attended (fun _ _ _ => True) (Write.delete ⟨1⟩ [⟨1⟩]).steps
      (checkSteps annRead false) granting final ∧ ∃ cached uncached : Decision,
      ((checkPermission ⟨1⟩ ⟨"clerk", []⟩ { mayAnnRead with useCache := true } :
        Act Engine Empty Decision) final.newCall).1 = .ok cached ∧
      ((checkPermission ⟨1⟩ ⟨"clerk", []⟩ { mayAnnRead with useCache := false } :
        Act Engine Empty Decision) final.newCall).1 = .ok uncached ∧ cached.Agrees uncached := by
  obtain ⟨final, played, untimed⟩ := (Option.any_eq_true ..).mp caughtUp_plays
  have overlap : Steps.Overlap Attended (fun _ _ _ => True) (Write.delete ⟨1⟩ [⟨1⟩]).steps
      (checkSteps annRead false) granting final :=
    Steps.overlap_of_play (fun _ _ _ => attended_of_attends) (fun _ _ _ _ => trivial) played
  have closing : (Write.delete ⟨1⟩ [⟨1⟩]).Closes := trivial
  have unlimited : final.own.settings.checkTimeout = none := Option.isNone_iff_eq_none.mp untimed
  exact ⟨final, overlap, cached_eq_uncached_of_attended closing coherent_granting overlap .refl
    unlimited ⟨1⟩ ⟨"clerk", []⟩ mayAnnRead⟩

/-- The rule is deleted, and the cache invalidated, before ann's answer is cached. -/
def tooLate : List Bool :=
  [false, false, false, true, true, true, true, false, false, false]

/-- Ann is allowed to read by the cache alone. -/
def Stale (engine : Engine) : Prop :=
  ∃ cached uncached : Decision,
    ((checkPermission ⟨1⟩ ⟨"clerk", []⟩ { mayAnnRead with useCache := true } :
      Act Engine Empty Decision) engine.newCall).1 = .ok cached ∧
    ((checkPermission ⟨1⟩ ⟨"clerk", []⟩ { mayAnnRead with useCache := false } :
      Act Engine Empty Decision) engine.newCall).1 = .ok uncached ∧
    cached.allowed = true ∧ uncached.allowed = false

def isStale (engine : Engine) : Bool :=
  match ((checkPermission ⟨1⟩ ⟨"clerk", []⟩ { mayAnnRead with useCache := true } :
      Act Engine Empty Decision) engine.newCall).1,
    ((checkPermission ⟨1⟩ ⟨"clerk", []⟩ { mayAnnRead with useCache := false } :
      Act Engine Empty Decision) engine.newCall).1 with
  | .ok cached, .ok uncached => cached.allowed && !uncached.allowed
  | _, _ => false

theorem stale_of_isStale {engine : Engine} (stale : isStale engine = true) : Stale engine := by
  unfold isStale at stale
  split at stale
  · rename_i cached uncached first second
    have differ : cached.allowed = true ∧ uncached.allowed = false := by
      simpa using stale
    exact ⟨cached, uncached, first, second, differ⟩
  · cases stale

/-- When an answer is cached after the invalidation, it is served although the rule it was given by is
no longer stored. -/
theorem stale_of_tooLate : Coherent (Regime.steady True) granting ∧ ∃ final,
    Steps.Overlap (fun _ _ _ => True) (fun _ _ _ => True) (Write.delete ⟨1⟩ [⟨1⟩]).steps
      (checkSteps annRead false) granting final ∧ Stale final := by
  have plays : (Steps.play (fun _ _ _ => true) (fun _ _ _ => true) tooLate
      (Write.delete ⟨1⟩ [⟨1⟩]).steps (checkSteps annRead false) granting).any isStale = true := by
    decide +kernel
  obtain ⟨final, played, stale⟩ := (Option.any_eq_true ..).mp plays
  refine ⟨coherent_granting, final, ?_, stale_of_isStale stale⟩
  exact Steps.overlap_of_play (fun _ _ _ _ => trivial) (fun _ _ _ _ => trivial) played

end Witnesses

end Engine

end AccessPolicy
