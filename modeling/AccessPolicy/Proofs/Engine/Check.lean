import AccessPolicy.Proofs.Decision.Enrichment
import AccessPolicy.Proofs.Engine.Evaluators

/-!
Checks of an engine answer what one evaluator rules that renders the stored rules, whether the cache
is in use or not, and leave the engine as right as it was.
-/
namespace AccessPolicy

/-- Decisions that a caller cannot tell apart, but for where they come from. -/
structure Decision.Agrees (one other : Decision) : Prop where
  allowed : one.allowed = other.allowed
  reason : one.reason = other.reason
  appliedRules : one.appliedRules = other.appliedRules

theorem Decision.Agrees.refl (decision : Decision) : decision.Agrees decision :=
  ⟨rfl, rfl, rfl⟩

theorem Decision.Agrees.symm {one other : Decision} (agrees : one.Agrees other) :
    other.Agrees one :=
  ⟨agrees.allowed.symm, agrees.reason.symm, agrees.appliedRules.symm⟩

theorem Decision.Agrees.trans {one two three : Decision} (agrees : one.Agrees two)
    (further : two.Agrees three) : one.Agrees three :=
  ⟨agrees.allowed.trans further.allowed, agrees.reason.trans further.reason,
    agrees.appliedRules.trans further.appliedRules⟩

theorem Decision.agrees_of_unmarked_eq {one other : Decision} (same : one.unmarked = other.unmarked) :
    one.Agrees other := by
  have allowed := congrArg Decision.allowed same
  have reason := congrArg Decision.reason same
  have appliedRules := congrArg Decision.appliedRules same
  exact ⟨allowed, reason, appliedRules⟩

namespace Evaluator

/-- The decision of a request by the grants of the subject. -/
def ruled (evaluator : Evaluator) (request : CheckRequest) : Decision :=
  Decision.ofEvaluation
    (evaluator.enforce request.subject request.service request.object request.action)

/-- What a caller is told, with what is added to a decision. -/
def verdict (evaluator : Evaluator) (superadmin : String) (request : CheckRequest)
    (enrich : Enricher := fun _ decision => decision) : Decision :=
  if request.callerRoles.contains superadmin then
    { Decision.allow Reason.superadmin with appliedRules := [superadmin] }
  else (enrich request (evaluator.ruled request)).unmarked

/-- The decision of the first role that is allowed. -/
def roleVerdict? (evaluator : Evaluator) (superadmin : String) (request : CheckRequest)
    (roles : List String) (enrich : Enricher := fun _ decision => decision) : Option Decision :=
  (roles.find? (fun role =>
    (evaluator.verdict superadmin (request.asSubject role) enrich).allowed)).map (fun role =>
      Engine.viaRole (evaluator.verdict superadmin (request.asSubject role) enrich) role)

/-- The decision of a request by the subject and its roles. -/
def expandedVerdict (evaluator : Evaluator) (superadmin : String) (request : CheckRequest)
    (enrich : Enricher := fun _ decision => decision) : Decision :=
  let direct := evaluator.verdict superadmin request enrich
  if direct.allowed then Engine.nameRole direct
  else if direct.explicitDeny then direct
  else (evaluator.roleVerdict? superadmin request (evaluator.rolesOf request.subject) enrich).getD
    direct

def reply (evaluator : Evaluator) (superadmin : String) (request : CheckRequest) (expand : Bool)
    (enrich : Enricher := fun _ decision => decision) : Decision :=
  match request.missingField? with
  | some field => Decision.deny (CheckError.invalidRequest field).message
  | none =>
    if expand then evaluator.expandedVerdict superadmin request enrich
    else evaluator.verdict superadmin request enrich

variable {evaluator other : Evaluator} {rules : List Rule} {now : Instant}

theorem enforce_validUntil (evaluator : Evaluator) (subject service object action : String) :
    (evaluator.enforce subject service object action).validUntil = evaluator.nextTransition := by
  unfold enforce
  dsimp only
  split
  · rfl
  · split <;> rfl

/-- A decision by an evaluator is about what the cache key names. -/
theorem ruled_congr (evaluator : Evaluator) {one other : CheckRequest}
    (same : one.about = other.about) :
    one.tenant = other.tenant ∧ evaluator.ruled one = evaluator.ruled other := by
  simp only [CheckRequest.about, DecisionSubject.mk.injEq] at same
  obtain ⟨tenant, service, subject, object, action⟩ := same
  refine ⟨tenant, ?_⟩
  unfold ruled
  rw [service, subject, object, action]

theorem Mirrors.ruled_eq (mirrors : evaluator.Mirrors rules now)
    (mirrorsOther : other.Mirrors rules now) (request : CheckRequest) :
    evaluator.ruled request = other.ruled request := by
  unfold ruled
  rw [mirrors.enforce_eq mirrorsOther]
  rfl

/-- Evaluators of the same rules give the same replies. -/
theorem Mirrors.reply_eq (mirrors : evaluator.Mirrors rules now)
    (mirrorsOther : other.Mirrors rules now) (superadmin : String) (request : CheckRequest)
    (expand : Bool) (enrich : Enricher) :
    evaluator.reply superadmin request expand enrich =
      other.reply superadmin request expand enrich := by
  have verdict_eq (asked : CheckRequest) :
      evaluator.verdict superadmin asked enrich = other.verdict superadmin asked enrich := by
    rw [verdict, verdict, mirrors.ruled_eq mirrorsOther]
  have rolesOf_eq := mirrors.rolesOf_eq mirrorsOther request.subject
  simp only [reply, expandedVerdict, roleVerdict?, verdict_eq, rolesOf_eq]

end Evaluator

namespace Engine

open Act hiding pure bind state

theorem unmarked_nameRole (decision : Decision) :
    (nameRole decision).unmarked = nameRole decision.unmarked := by
  cases via : decision.grantedVia with
  | none => simp [nameRole, Decision.unmarked, via]
  | some role =>
    by_cases named : role ∈ decision.appliedRules <;>
      simp [nameRole, Decision.unmarked, via, named]

theorem viaRole_congr {one other : Decision} (same : one.unmarked = other) (role : String) :
    viaRole one role = viaRole other role := by
  rw [← same]
  rfl

/-- What a replica has cached is known, with what its enrichers add. -/
structure Recollects (own : Replica) (enriched : Prop) (stale : TenantId → Topic → Prop)
    (known : Knowledge) : Prop where
  enrichers : Enricher.Allowed own.enrichers enriched
  available : own.cache.backend.available = true
  recalls : own.cache.Recalls (Enricher.adds own.enrichers) stale known

theorem Recollects.weaken {own : Replica} {enriched : Prop} {stale : TenantId → Topic → Prop}
    {known less : Knowledge} (recollects : Recollects own enriched stale known)
    (weaken : ∀ tenant subject bound answer, Evaluator.LocalTo subject answer →
      known tenant subject bound answer → less tenant subject bound answer) :
    Recollects own enriched stale less :=
  ⟨recollects.enrichers, recollects.available, recollects.recalls.weaken weaken⟩

theorem Recollects.of_cache_eq {own other : Replica} {enriched : Prop}
    {stale : TenantId → Topic → Prop} {known : Knowledge}
    (recollects : Recollects own enriched stale known)
    (enrichers : other.enrichers = own.enrichers) (cache : other.cache = own.cache) :
    Recollects other enriched stale known := by
  refine ⟨?_, ?_, ?_⟩
  · rw [enrichers]
    exact recollects.enrichers
  · rw [cache]
    exact recollects.available
  · rw [cache, enrichers]
    exact recollects.recalls

/-- An engine in the course of a check that began at an earlier state: the evaluators and the cached
answers are right by the rules as they were then, which the store has kept alike. -/
structure Serves (regime : Regime) (base engine : Engine) : Prop where
  commons : ∃ store, engine.commons = { base.commons with store := store }
  own : ∃ evaluators cache audit, engine.own =
    { base.own with evaluators := evaluators, cache := cache, audit := audit }
  sound : engine.commons.store.Sound
  alike : RuleStore.Alike base.now base.commons.store engine.commons.store
  tracks : Tracks regime.current base.commons.store.law base.now engine.own.evaluators
  recollects : regime.cached →
    Recollects engine.own regime.enriched regime.stale
      (Lasts regime.current base.commons.store.law base.now)
  paced : Paced regime engine.timing

variable {ε : Type} {regime : Regime} {base engine : Engine}

namespace Serves

theorem now (serves : Serves regime base engine) : engine.now = base.now := by
  obtain ⟨store, same⟩ := serves.commons
  have now := congrArg Commons.now same
  exact now

theorem settings (serves : Serves regime base engine) : engine.own.settings = base.own.settings := by
  obtain ⟨_, _, _, same⟩ := serves.own
  have settings := congrArg Replica.settings same
  exact settings

theorem attends (serves : Serves regime base engine) : Attends regime engine engine where
  evolves := ⟨engine.own.evaluators, engine.timing, rfl⟩
  tracks := by
    rw [serves.now]
    exact serves.tracks.alike fun tenant _ => serves.alike tenant
  paced := serves.paced

theorem enrich_eq (serves : Serves regime base engine) : engine.enrich = base.enrich := by
  obtain ⟨_, _, _, same⟩ := serves.own
  funext request decision
  unfold enrich
  rw [same]

/-- An engine that does not enrich decisions adds nothing to one. -/
theorem enrich_plain (serves : Serves regime base engine) (cached : regime.cached)
    (plain : ¬ regime.enriched) : base.enrich = fun _ decision => decision := by
  rw [← serves.enrich_eq]
  funext request decision
  rw [enrich, (serves.recollects cached).enrichers.plain plain]
  rfl

/-- What is added to the decision of a request that may be cached can be told from its cache key. -/
theorem enrich_eq_adds (serves : Serves regime base engine) (cached : regime.cached)
    (request : CheckRequest) (decision : Decision) :
    base.enrich request decision = Enricher.adds engine.own.enrichers request.about decision := by
  rw [← serves.enrich_eq]
  exact Engine.enrich_eq_adds (serves.recollects cached).enrichers request decision

theorem of_attends (serves : Serves regime base engine) {after : Engine}
    (attends : Attends regime engine after) : Serves regime base after := by
  have tracks := attends.tracks
  obtain ⟨evaluators, timing, rfl⟩ := attends.evolves
  obtain ⟨_, cache, audit, own⟩ := serves.own
  refine ⟨serves.commons, ⟨evaluators, cache, audit, ?_⟩, serves.sound, serves.alike, ?_, ?_,
    attends.paced⟩
  · exact congrArg (fun own : Replica => { own with evaluators := evaluators }) own
  · rw [serves.now] at tracks
    exact tracks.alike fun tenant _ => (serves.alike tenant).symm
  · exact fun cached => (serves.recollects cached).of_cache_eq rfl rfl

/-- An action on evaluators alone goes on under the check. -/
theorem lift (serves : Serves regime base engine) {δ α : Type} {action : Act Engine δ α}
    {after : α → Engine → Prop}
    (yields : Yields (Attends regime engine) regime.hurried action engine after) :
    Yields (Serves regime base) regime.hurried action engine after :=
  yields.weaken fun _ => serves.of_attends

theorem renders (serves : Serves regime base engine) {tenant : TenantId} {evaluator : Evaluator}
    (renders : evaluator.Renders (engine.commons.store.law tenant) engine.now) :
    evaluator.Renders (base.commons.store.law tenant) base.now := by
  rw [serves.now] at renders
  have alike := (serves.alike tenant).symm
  exact ⟨renders.follows.alike alike, renders.mirrors.alike alike⟩

theorem withCache (serves : Serves regime base engine) {cache : DecisionCache}
    (keeps : regime.cached → cache.backend.available = true ∧
      cache.Recalls (Enricher.adds engine.own.enrichers) regime.stale
        (Lasts regime.current base.commons.store.law base.now)) :
    Serves regime base (engine.withCache cache) := by
  obtain ⟨evaluators, _, audit, own⟩ := serves.own
  refine ⟨serves.commons, ⟨evaluators, cache, audit, ?_⟩, serves.sound, serves.alike, serves.tracks,
    fun cached => ?_, serves.paced⟩
  · exact congrArg (fun own : Replica => { own with cache := cache }) own
  · exact ⟨(serves.recollects cached).enrichers, (keeps cached).1, (keeps cached).2⟩

theorem narrowed (serves : Serves regime base engine) {cache : DecisionCache}
    (narrows : cache.backend.Narrows engine.own.cache.backend) :
    Serves regime base (engine.withCache cache) :=
  serves.withCache fun cached => ⟨narrows.available.trans (serves.recollects cached).available,
    (serves.recollects cached).recalls.of_narrows narrows⟩

theorem withStore (serves : Serves regime base engine) {store : RuleStore} (sound : store.Sound)
    (alike : RuleStore.Alike engine.now engine.commons.store store) :
    Serves regime base (engine.withStore store) := by
  obtain ⟨_, same⟩ := serves.commons
  refine ⟨⟨store, ?_⟩, serves.own, sound, serves.alike.trans (serves.now ▸ alike), serves.tracks,
    serves.recollects, serves.paced⟩
  exact congrArg (fun commons : Commons => { commons with store := store }) same

theorem withTiming (serves : Serves regime base engine) {timed brief : Prop} {timing : Timing}
    (paced : Paced { regime with timed := timed, brief := brief } timing) :
    Serves { regime with timed := timed, brief := brief } base (engine.withTiming timing) :=
  ⟨serves.commons, serves.own, serves.sound, serves.alike, serves.tracks, serves.recollects, paced⟩

end Serves

/-- The state is left as it is, but for the step of the cache; only a check in a hurry does not
wait for the answer. -/
theorem yields_consultCache (serves : Serves regime base engine) {α : Type}
    (step : DecisionCache → α × DecisionCache)
    (kept : Serves regime base (engine.withCache (step engine.own.cache).2)) :
    Yields (Serves regime base) regime.hurried (consultCache step : Act Engine ε α) engine
      (fun value _ => value = (step engine.own.cache).1) := by
  unfold Yields Leads Ends consultCache
  dsimp only
  by_cases late : (engine.withCache (step engine.own.cache).2).timing.isOver = true
  · rw [if_pos late]
    refine ⟨Classical.byContradiction fun leisure => ?_, kept⟩
    have free := serves.paced.deadline (not_or.mp leisure).1
    have late : engine.timing.isOver = true := late
    simp [Timing.isOver, free] at late
  · rw [if_neg late]
    exact ⟨rfl, kept⟩

section Deciding

/-- The evaluator of a tenant's rules at the start of the check. -/
def reference (base : Engine) (tenant : TenantId) : Evaluator :=
  Evaluator.exact (base.commons.store.law tenant) base.now

theorem mirrors_reference (base : Engine) (tenant : TenantId) :
    (base.reference tenant).Mirrors (base.commons.store.law tenant) base.now :=
  Evaluator.mirrors_exact _ _

theorem yields_recordUse (serves : Serves regime base engine) (tenant : TenantId)
    (ids : List RuleId) :
    Yields (Serves regime base) regime.hurried (recordUse tenant ids : Act Engine ε Unit) engine
      (fun _ _ => True) := by
  obtain ⟨accepted, sound, alike⟩ := serves.sound.recordUsage tenant ids engine.now
  refine yields_read ?_
  have kept := serves.withStore sound alike
  refine leads_bind (leads_attempt ?_)
  unfold Leads onStore
  dsimp only
  rw [accepted]
  exact yields_pure kept trivial

/-- What the engine is held to covers a check: its tenant has to be right, and so do the cached answers
that it asks for. -/
structure Regime.Covers (regime : Regime) (request : CheckRequest) (useCache expand : Bool) :
    Prop where
  cached : useCache = true → regime.cached
  current : regime.current request.tenant
  decisions : useCache = true → ¬ regime.stale request.tenant (.decisions request.service)
  roleSet : useCache = true → expand = true →
    ¬ regime.stale request.tenant (.roleSet request.subject)

/-- So does it the check by the subject alone. -/
theorem Regime.Covers.direct {regime : Regime} {request : CheckRequest} {useCache expand : Bool}
    (covers : regime.Covers request useCache expand) : regime.Covers request useCache false :=
  ⟨covers.cached, covers.current, covers.decisions, fun _ impossible => nomatch impossible⟩

theorem Regime.Covers.asSubject {regime : Regime} {request : CheckRequest} {useCache expand : Bool}
    (covers : regime.Covers request useCache expand) (role : String) :
    regime.Covers (request.asSubject role) useCache false :=
  ⟨covers.cached, covers.current, covers.decisions, fun _ impossible => nomatch impossible⟩

/-- The decision and its bound come from an evaluator that renders the stored rules. -/
def Evaluated (regime : Regime) (base : Engine) (request : CheckRequest) (decision : Decision)
    (bound : Option Instant) : Prop :=
  ∃ evaluator : Evaluator, decision = base.enrich request (evaluator.ruled request) ∧
    bound = evaluator.nextTransition ∧ (regime.current request.tenant →
      evaluator.Renders (base.commons.store.law request.tenant) base.now)

theorem yields_evaluate (serves : Serves regime base engine) (request : CheckRequest) :
    Yields (Serves regime base) regime.hurried (evaluate request) engine (fun answer _ =>
      Evaluated regime base request answer.1 answer.2) := by
  have asked := serves.lift (yields_ask serves.sound serves.attends request.tenant
    (·.enforce request.subject request.service request.object request.action))
  refine (asked.mapError _).bind ?_
  rintro _ after kept ⟨evaluator, rfl, renders⟩
  have right (final : Engine) (kept : Serves regime base final) :
      Evaluated regime base request (final.enrich request (evaluator.ruled request))
        (evaluator.enforce request.subject request.service request.object
          request.action).validUntil := by
    refine ⟨evaluator, ?_, Evaluator.enforce_validUntil .., fun member => ?_⟩
    · rw [kept.enrich_eq]
    · exact serves.renders (renders member)
  dsimp only
  split
  · refine (yields_recordUse kept _ _).bind fun _ final kept _ => ?_
    exact yields_read (yields_pure kept (right final kept))
  · exact yields_read (yields_pure kept (right after kept))

/-- A cached decision is the one that the stored rules give. -/
theorem yields_lookUp (serves : Serves regime base engine) (request : CheckRequest) :
    Yields (Serves regime base) regime.hurried (lookUp request : Act Engine ε (Option Decision)) engine
      (fun found _ => ∀ decision, found = some decision → regime.Covers request true false →
        decision.unmarked =
          (base.enrich request ((base.reference request.tenant).ruled request)).unmarked) := by
  refine yields_read ?_
  have narrows := DecisionCache.get_narrows engine.own.cache engine.now request
  refine (yields_consultCache serves _ (serves.narrowed narrows)).mono ?_
  rintro _ after _ rfl decision found covers
  obtain ⟨kept, bound, rfl, known, before⟩ :=
    (serves.recollects (covers.cached rfl)).recalls.get_eq_some found
  rw [serves.now] at before
  obtain ⟨ruled, answers, rfl⟩ := (known (covers.decisions rfl) covers.current before).1
  have right : ruled = (base.reference request.tenant).ruled request := answers
  rw [serves.enrich_eq_adds (covers.cached rfl), right]
  rfl

/-- A decision that the stored rules give is kept as long as it lasts. -/
theorem yields_remember (serves : Serves regime base engine) {request : CheckRequest}
    {decision : Decision} {bound : Option Instant}
    (evaluated : Evaluated regime base request decision bound) :
    Yields (Serves regime base) regime.hurried
      (remember request decision bound : Act Engine ε Unit) engine (fun _ _ => True) := by
  refine yields_read ?_
  refine (yields_consultCache serves _ ?_).mono fun _ _ _ _ => trivial
  refine serves.withCache fun cached => ?_
  obtain ⟨evaluator, rfl, rfl, renders⟩ := evaluated
  rw [serves.enrich_eq_adds cached]
  have recollects := serves.recollects cached
  refine ⟨(DecisionCache.write_switches ..).1.trans recollects.available, ?_⟩
  refine DecisionCache.Keeps.set recollects.recalls (recollects.enrichers.carried _ _) ?_ _
  intro _ member
  exact (renders member).follows.lasting (Evaluator.localTo_decisionWith _ request.about _)
    ⟨evaluator.ruled request, rfl, rfl⟩

theorem yields_decideFresh (serves : Serves regime base engine) (request : CheckRequest)
    (useCache : Bool) :
    Yields (Serves regime base) regime.hurried (decideFresh request useCache) engine
      (fun decision _ => regime.Covers request useCache false →
        decision = base.enrich request ((base.reference request.tenant).ruled request)) := by
  refine (yields_evaluate serves request).bind ?_
  rintro ⟨decision, bound⟩ after kept evaluated
  have right (covers : regime.Covers request useCache false) :
      decision = base.enrich request ((base.reference request.tenant).ruled request) := by
    obtain ⟨evaluator, rfl, _, renders⟩ := evaluated
    exact congrArg (base.enrich request)
      ((renders covers.current).mirrors.ruled_eq (mirrors_reference base request.tenant) request)
  dsimp only
  split
  · exact (yields_remember kept evaluated).bind fun _ _ kept _ => yields_pure kept right
  · exact yields_pure kept right

/-- A decision, cached or not, is the one that the stored rules give. -/
theorem yields_decide (serves : Serves regime base engine) (request : CheckRequest)
    (useCache : Bool) :
    Yields (Serves regime base) regime.hurried (decide request useCache) engine
      (fun decision _ => regime.Covers request useCache false → decision.unmarked =
        (base.reference request.tenant).verdict base.own.settings.superadminRole request
          base.enrich) := by
  refine yields_read ?_
  have fresh (after : Engine) (kept : Serves regime base after)
      (ordinary : ¬ engine.isSuperadmin request = true) :
      Yields (Serves regime base) regime.hurried (decideFresh request useCache) after
        (fun decision _ => regime.Covers request useCache false → decision.unmarked =
          (base.reference request.tenant).verdict base.own.settings.superadminRole request
            base.enrich) := by
    refine (yields_decideFresh kept request useCache).mono fun decision _ _ right covers => ?_
    rw [right covers, Evaluator.verdict, if_neg]
    rwa [← serves.settings]
  by_cases super : engine.isSuperadmin request = true
  · rw [if_pos super]
    refine yields_pure serves fun _ => ?_
    rw [Evaluator.verdict, if_pos (serves.settings ▸ super), superadminDecision, serves.settings]
    rfl
  · rw [if_neg super]
    split
    · rename_i asked
      subst asked
      refine (yields_lookUp serves request).bind fun found after kept known => ?_
      cases found with
      | some decision =>
        refine yields_pure kept fun covers => ?_
        rw [known decision rfl covers, Evaluator.verdict, if_neg]
        rwa [← serves.settings]
      | none => exact fresh after kept super
    · exact fresh engine serves super

theorem yields_lookUpRoles (serves : Serves regime base engine) (tenant : TenantId)
    (subject : String) :
    Yields (Serves regime base) regime.hurried
      (consultCache (fun cache => cache.getRoles engine.now tenant subject) :
        Act Engine ε (Option (List String))) engine
      (fun found _ => ∀ roles, found = some roles → regime.cached → regime.current tenant →
        ¬ regime.stale tenant (.roleSet subject) →
          roles = (base.reference tenant).rolesOf subject) := by
  have narrows := DecisionCache.getRoles_narrows engine.own.cache engine.now tenant subject
  refine (yields_consultCache serves _ (serves.narrowed narrows)).mono ?_
  rintro _ after _ rfl roles found cached member fresh
  obtain ⟨bound, known, before⟩ := (serves.recollects cached).recalls.getRoles_eq_some found
  rw [serves.now] at before
  exact (known fresh member before).1

theorem yields_rememberRoles (serves : Serves regime base engine) {tenant : TenantId}
    {subject : String} {evaluator : Evaluator} (now : Instant)
    (renders : regime.current tenant →
      evaluator.Renders (base.commons.store.law tenant) base.now) :
    Yields (Serves regime base) regime.hurried
      (consultCache (fun cache => ((), cache.setRoles now tenant subject
        (evaluator.rolesOf subject) evaluator.nextTransition)) : Act Engine ε Unit) engine
      (fun _ _ => True) := by
  refine (yields_consultCache serves _ ?_).mono fun _ _ _ _ => trivial
  refine serves.withCache fun cached => ?_
  have recollects := serves.recollects cached
  refine ⟨(DecisionCache.write_switches ..).1.trans recollects.available, ?_⟩
  refine DecisionCache.Keeps.setRoles recollects.recalls ?_ _
  intro _ member
  exact (renders member).follows.lasting (Evaluator.localTo_rolesOf subject _) rfl

theorem yields_roles (serves : Serves regime base engine) (tenant : TenantId) (subject : String)
    (useCache : Bool) :
    Yields (Serves regime base) regime.hurried (roles tenant subject useCache) engine
      (fun roles _ => (useCache = true → regime.cached) → regime.current tenant →
        (useCache = true → ¬ regime.stale tenant (.roleSet subject)) →
          roles = (base.reference tenant).rolesOf subject) := by
  have asked (after : Engine) (kept : Serves regime base after) :
      Yields (Serves regime base) regime.hurried
        ((rolesUntil tenant subject).mapError CheckError.evaluator) after
        (fun answer _ => ∃ evaluator : Evaluator,
          answer = (evaluator.rolesOf subject, evaluator.nextTransition) ∧
            (regime.current tenant →
              evaluator.Renders (base.commons.store.law tenant) base.now)) := by
    have asked := kept.lift (yields_ask kept.sound kept.attends tenant
      (fun evaluator => (evaluator.rolesOf subject, evaluator.nextTransition)))
    refine (asked.mapError _).mono ?_
    rintro _ _ _ ⟨evaluator, rfl, renders⟩
    exact ⟨evaluator, rfl, fun member => kept.renders (renders member)⟩
  have right {evaluator : Evaluator} (renders : regime.current tenant →
      evaluator.Renders (base.commons.store.law tenant) base.now)
      (_ : useCache = true → regime.cached) (member : regime.current tenant)
      (_ : useCache = true → ¬ regime.stale tenant (.roleSet subject)) :
      evaluator.rolesOf subject = (base.reference tenant).rolesOf subject :=
    (renders member).mirrors.rolesOf_eq (mirrors_reference base tenant) subject
  refine yields_read ?_
  cases useCache with
  | true =>
    refine (yields_lookUpRoles serves tenant subject).bind fun found after kept known => ?_
    cases found with
    | some roles =>
      refine yields_pure kept fun cached member fresh => ?_
      exact known roles rfl (cached rfl) member (fresh rfl)
    | none =>
      refine (asked after kept).bind ?_
      rintro _ final kept ⟨evaluator, rfl, renders⟩
      exact (yields_rememberRoles kept _ renders).bind fun _ _ kept _ =>
        yields_pure kept (right renders)
  | false =>
    refine (asked engine serves).bind ?_
    rintro _ final kept ⟨evaluator, rfl, renders⟩
    exact yields_pure kept (right renders)

/-- Asking as each role in turn finds the first that the stored rules allow. -/
theorem yields_firstAllowed (serves : Serves regime base engine) (request : CheckRequest)
    (useCache : Bool) (roles : List String) :
    Yields (Serves regime base) regime.hurried (firstAllowed request useCache roles) engine
      (fun found _ => regime.Covers request useCache false →
        found = (base.reference request.tenant).roleVerdict? base.own.settings.superadminRole request
          roles base.enrich) := by
  induction roles generalizing engine with
  | nil => exact yields_pure serves fun _ => rfl
  | cons role rest ih =>
    refine (yields_decide serves (request.asSubject role) useCache).bind ?_
    intro decision after kept right
    have allowed_eq (covers : regime.Covers request useCache false) :
        ((base.reference request.tenant).verdict base.own.settings.superadminRole
          (request.asSubject role) base.enrich).allowed = decision.allowed :=
      (congrArg Decision.allowed (right (covers.asSubject role))).symm
    split
    · rename_i allowed
      refine yields_pure kept fun covers => ?_
      simp only [Evaluator.roleVerdict?, List.find?_cons, allowed_eq covers, allowed,
        Option.map_some]
      rw [viaRole_congr (right (covers.asSubject role))]
      rfl
    · rename_i refused
      refine (ih kept).mono fun _ _ _ others covers => ?_
      rw [others covers]
      simp only [Evaluator.roleVerdict?, List.find?_cons, allowed_eq covers, refused]

/-- A decision by the subject and its roles, cached or not, is the one that the stored rules give. -/
theorem yields_decideExpanded (serves : Serves regime base engine) (request : CheckRequest)
    (useCache : Bool) :
    Yields (Serves regime base) regime.hurried (decideExpanded request useCache) engine
      (fun decision _ => regime.Covers request useCache true → decision.unmarked =
        (base.reference request.tenant).expandedVerdict base.own.settings.superadminRole request
          base.enrich) := by
  refine (yields_decide serves request useCache).bind fun direct after kept right => ?_
  have allowed_eq (covers : regime.Covers request useCache true) :=
    congrArg Decision.allowed (right covers.direct)
  have denied_eq (covers : regime.Covers request useCache true) :=
    congrArg Decision.explicitDeny (right covers.direct)
  simp only [Decision.unmarked] at allowed_eq denied_eq
  split
  · rename_i allowed
    refine yields_pure kept fun covers => ?_
    rw [unmarked_nameRole, right covers.direct, Evaluator.expandedVerdict]
    simp only [← allowed_eq covers, allowed, if_true]
  · rename_i refused
    split
    · rename_i denied
      refine yields_pure kept fun covers => ?_
      rw [right covers.direct, Evaluator.expandedVerdict]
      simp only [← allowed_eq covers, ← denied_eq covers, refused, denied, Bool.false_eq_true,
        if_true, if_false]
    · rename_i unmatched
      refine (yields_roles kept request.tenant request.subject useCache).bind ?_
      intro roles next kept_next roles_eq
      refine (yields_firstAllowed kept_next request useCache roles).bind ?_
      intro found final kept_final found_eq
      have expanded (covers : regime.Covers request useCache true) :
          (base.reference request.tenant).expandedVerdict base.own.settings.superadminRole request
            base.enrich = found.getD direct.unmarked := by
        rw [Evaluator.expandedVerdict]
        simp only [← allowed_eq covers, ← denied_eq covers, refused, unmatched, Bool.false_eq_true,
          if_false]
        rw [← roles_eq covers.cached covers.current fun cached => covers.roleSet cached rfl,
          ← found_eq covers.direct, right covers.direct]
      cases found with
      | some decision =>
        refine yields_pure kept_final fun covers => ?_
        rw [expanded covers]
        obtain ⟨role, _, rfl⟩ := Option.map_eq_some_iff.mp (found_eq covers.direct).symm
        rfl
      | none =>
        refine yields_pure kept_final fun covers => ?_
        rw [expanded covers]
        rfl

end Deciding

section Replying

/-- An action with a time limit may run out of time. -/
def Regime.within (regime : Regime) (millis : Option Nat) : Regime :=
  { regime with timed := regime.timed ∨ millis.isSome }

theorem Serves.limited (serves : Serves regime base engine) (millis : Option Nat) :
    Serves (regime.within millis) base
      (engine.withDeadline (millis.map (engine.timing.elapsed + ·))) := by
  refine serves.withTiming ⟨fun untimed => ?_, serves.paced.last⟩
  have unlimited : millis = none := by simpa using (not_or.mp untimed).2
  rw [unlimited]
  rfl

/-- A limit changes nothing, unless the action runs out of time; in any case it is lifted after. -/
theorem yields_within (serves : Serves regime base engine) {α : Type} {millis : Option Nat} {late : α}
    {action : Act Engine ε α} {right : α → Prop}
    (yields : ∀ engine, Serves (regime.within millis) base engine →
      Yields (Serves (regime.within millis) base) (regime.within millis).hurried action engine
        (fun value _ => right value)) :
    Yields (Serves regime base) (regime.within millis).hurried (within millis late action) engine
      (fun value _ => right value ∨ (regime.within millis).hurried ∧ value = late) := by
  have outside (after : Engine) (kept : Serves (regime.within millis) base after) :
      Serves regime base (after.withDeadline engine.timing.deadline) :=
    kept.withTiming ⟨serves.paced.deadline, kept.paced.last⟩
  have ends := yields _ (serves.limited millis)
  unfold Yields Leads Ends within at *
  generalize action _ = result at ends ⊢
  obtain ⟨outcome, after⟩ := result
  cases outcome with
  | ok value => exact ⟨Or.inl ends.1, outside after ends.2⟩
  | error cause => exact ends
  | halted cause =>
    cases cause with
    | deadline => exact ⟨Or.inr ⟨ends.1, rfl⟩, outside after ends.2⟩
    | calendarEnd => exact ⟨ends.1, outside after ends.2⟩
    | tooWide => exact ⟨ends.1, outside after ends.2⟩
    | abandoned => exact ⟨ends.1, outside after ends.2⟩

theorem Serves.withAudit (serves : Serves regime base engine) (audit : List AuditRecord) :
    Serves regime base { engine with own := { engine.own with audit := audit } } := by
  obtain ⟨evaluators, cache, _, own⟩ := serves.own
  refine ⟨serves.commons, ⟨evaluators, cache, audit, ?_⟩, serves.sound, serves.alike, serves.tracks,
    fun cached => (serves.recollects cached).of_cache_eq rfl rfl, serves.paced⟩
  exact congrArg (fun own : Replica => { own with audit := audit }) own

theorem Serves.auditDecision (serves : Serves regime base engine) (request : CheckRequest)
    (asked : Bool) (decision : Decision) :
    Serves regime base (engine.auditDecision request asked decision) := by
  unfold Engine.auditDecision
  split
  · exact serves.withAudit _
  · exact serves

theorem yields_decideOrExpand (serves : Serves regime base engine) {request : CheckRequest}
    (whole : request.missingField? = none) (useCache expand : Bool) :
    Yields (Serves regime base) regime.hurried
      (if expand then decideExpanded request useCache else decide request useCache) engine
      (fun decision _ => regime.Covers request useCache expand → decision.unmarked =
        (base.reference request.tenant).reply base.own.settings.superadminRole request expand
          base.enrich) := by
  unfold Evaluator.reply
  rw [whole]
  cases expand with
  | true => exact yields_decideExpanded serves request useCache
  | false => exact yields_decide serves request useCache

theorem check_of_missing {request : CheckRequest} {field : RequestField}
    (missing : request.missingField? = some field) (options : CheckOptions) (expand : Bool) :
    check request options expand = Act.fail (.invalidRequest field) := by
  rw [check, missing]

/-- A check is decided by what the stored rules give, or too late. -/
theorem yields_check (serves : Serves regime base engine) {request : CheckRequest}
    (whole : request.missingField? = none) (options : CheckOptions) (expand : Bool) :
    Yields (Serves regime base)
      (regime.within (options.deadline <|> base.own.settings.checkTimeout)).hurried
      (check request options expand) engine (fun decision _ =>
        regime.Covers request options.useCache expand →
          decision.unmarked = (base.reference request.tenant).reply
              base.own.settings.superadminRole request expand base.enrich ∨
            (regime.within (options.deadline <|> base.own.settings.checkTimeout)).hurried ∧
              decision = Decision.deny Reason.deadline) := by
  unfold check
  rw [whole]
  refine yields_read ?_
  dsimp only
  rw [serves.settings]
  refine (yields_within serves fun _ inside =>
    yields_decideOrExpand inside whole options.useCache expand).bind ?_
  intro decision after kept right
  refine leads_bind (leads_modify (yields_pure (kept.auditDecision _ _ _) fun covers => ?_))
  exact right.imp_left fun decided =>
    decided ⟨covers.cached, covers.current, covers.decisions, covers.roleSet⟩

/-- A question is replied to, also if it is refused. -/
theorem yields_checkPermission (serves : Serves regime base engine) (tenant : TenantId)
    (caller : Principal) (query : PermissionQuery) :
    Yields (Serves regime base) (regime.within base.own.settings.checkTimeout).hurried
      (checkPermission tenant caller query : Act Engine ε Decision) engine (fun decision _ =>
        regime.Covers (query.toRequest tenant caller) query.useCache query.expandRoles →
          decision.unmarked = (base.reference tenant).reply base.own.settings.superadminRole
              (query.toRequest tenant caller) query.expandRoles base.enrich ∨
            (regime.within base.own.settings.checkTimeout).hurried ∧
              decision = Decision.deny Reason.deadline) := by
  unfold checkPermission
  cases missing : (query.toRequest tenant caller).missingField? with
  | some field =>
    rw [check_of_missing missing]
    refine leads_bind (leads_attempt (leads_fail ?_))
    refine yields_pure serves fun _ => Or.inl ?_
    rw [Evaluator.reply, missing]
    rfl
  | none =>
    refine ((yields_check serves missing query.options query.expandRoles).attempt).bind ?_
    rintro _ after kept ⟨decision, rfl, right⟩
    exact yields_pure kept right

end Replying

end Engine

end AccessPolicy
