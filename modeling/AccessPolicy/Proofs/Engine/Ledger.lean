import AccessPolicy.Proofs.Engine.Atomic
import AccessPolicy.Proofs.RuleStore.Usage

/-!
The evaluations behind a call, in the order in which they are made: none for a caller with the superadmin
role or where the cache answers, one for each time that a check asks the evaluator. A call for decisions
does to what engines share what these evaluations count, and nothing else.
-/
namespace AccessPolicy

namespace Engine

open Act hiding pure bind state

variable {ε α β : Type} {action : Act Engine ε α} {engine : Engine} {tenant : TenantId}
variable {request : CheckRequest} {useCache : Bool}

section Ledger

/-- What is evaluated after an action, if that ends with a value. -/
def findingsAfter (action : Act Engine ε α) (onward : α → Engine → List Finding)
    (engine : Engine) : List Finding :=
  match action engine with
  | (.ok value, after) => onward value after
  | _ => []

/-- The evaluation of a request by the tenant's evaluator, if there is one. -/
def findings (request : CheckRequest) : Engine → List Finding :=
  findingsAfter
    (enforce request.tenant request.subject request.service request.object request.action)
    fun evaluation after => [⟨request.tenant, evaluation, after.now⟩]

/-- The evaluation that decides a request, unless the caller's role or the cache does. -/
def freshFindings (request : CheckRequest) (useCache : Bool) (engine : Engine) : List Finding :=
  if engine.isSuperadmin request then []
  else if useCache then
    findingsAfter (lookUp request : Act Engine CheckError (Option Decision))
      (fun found after => if found.isSome then [] else findings request after) engine
  else findings request engine

/-- The evaluations that decide a request as each role in turn, up to the one that is allowed. -/
def roleFindings (request : CheckRequest) (useCache : Bool) :
    List String → Engine → List Finding
  | [], _ => []
  | role :: rest, engine =>
    freshFindings (request.asSubject role) useCache engine ++
      findingsAfter (decide (request.asSubject role) useCache)
        (fun decision after =>
          if decision.allowed then [] else roleFindings request useCache rest after) engine

/-- The evaluations that decide a request by the subject and then by its roles. -/
def expandedFindings (request : CheckRequest) (useCache : Bool) (engine : Engine) :
    List Finding :=
  freshFindings request useCache engine ++
    findingsAfter (decide request useCache)
      (fun direct after =>
        if direct.allowed || direct.explicitDeny then []
        else findingsAfter (roles request.tenant request.subject useCache)
          (roleFindings request useCache) after) engine

/-- The evaluations of a check, which are made before its deadline. -/
def checkFindings (request : CheckRequest) (options : CheckOptions) (expand : Bool)
    (engine : Engine) : List Finding :=
  match request.missingField? with
  | some _ => []
  | none =>
    let engine := engine.withDeadline ((options.deadline <|> engine.own.settings.checkTimeout).map
      (engine.timing.elapsed + ·))
    if expand then expandedFindings request options.useCache engine
    else freshFindings request options.useCache engine

/-- The evaluations of each item of a batch. -/
def itemFindings (options : CheckOptions) (free : List Nat) (engine : Engine) :
    List (Nat × CheckRequest) → List (List Finding)
  | [] => []
  | (place, request) :: rest =>
    let start := (Ascending.least? free).getD 0
    let (answer, after) := batchItem place start request options engine
    findingsAfter (waitUntil start : Act Engine CheckError Unit)
        (fun _ => checkFindings request options false) engine ::
      itemFindings options (answer.finish :: free.erase start) after rest

/-- The evaluations of requests that are decided in the given order of places. -/
def findingsInOrder (order : List Nat) (requests : List CheckRequest) (options : CheckOptions)
    (last : Option Nat) (engine : Engine) : List (List Finding) :=
  itemFindings options
    (List.replicate (min engine.own.settings.batchConcurrency requests.length) engine.timing.elapsed)
    (engine.withTiming { engine.timing with last := last })
    (order.filterMap fun place => requests[place]?.map fun request => (place, request))

/-- The evaluations of each item of a batch, up to the error that ends a call with `failFast`. -/
def batchFindings (requests : List CheckRequest) (options : CheckOptions) (failFast : Bool)
    (engine : Engine) : List (List Finding) :=
  let order := List.range requests.length
  if widest < engine.own.settings.batchConcurrency then []
  else
    match BatchAnswer.firstFailure? (decideInOrder order requests options none engine).1, failFast with
    | some (finish, _), true => findingsInOrder order requests options (some finish) engine
    | _, _ => findingsInOrder order requests options none engine

end Ledger

section Counting

/-- What is shared afterwards is what the evaluations make of it, and none of them counts a rule
twice. -/
structure Counted (engine after : Engine) (made : List Finding) : Prop where
  commons : after.commons =
    { engine.commons with store := made.foldl RuleStore.count engine.commons.store }
  distinct : ∀ one ∈ made, one.Distinct

theorem counted_of_commons {after : Engine} (same : after.commons = engine.commons) :
    Counted engine after [] :=
  ⟨same, fun _ => nofun⟩

theorem counted_one {after : Engine} {made : Finding} (distinct : made.Distinct)
    (commons : after.commons =
      { engine.commons with store := engine.commons.store.count made }) :
    Counted engine after [made] :=
  ⟨commons, fun _ member => List.mem_singleton.mp member ▸ distinct⟩

theorem Counted.trans {middle after : Engine} {made more : List Finding}
    (first : Counted engine middle made) (second : Counted middle after more) :
    Counted engine after (made ++ more) := by
  constructor
  · rw [second.commons, first.commons, List.foldl_append]
  · intro one member
    rcases List.mem_append.mp member with early | late
    · exact first.distinct one early
    · exact second.distinct one late

/-- However the action ends, the evaluations are what it counts. -/
def Counts (action : Act Engine ε α) (engine : Engine) (made : List Finding) : Prop :=
  Counted engine (action engine).2 made

theorem counts_pure (value : α) : Counts (Pure.pure value : Act Engine ε α) engine [] :=
  counted_of_commons rfl

/-- What an action counts is followed by what the next one does. -/
theorem Counts.bind {next : α → Act Engine ε β} {made : List Finding}
    {onward : α → Engine → List Finding} (first : Counts action engine made)
    (second : ∀ value after, action engine = (.ok value, after) →
      Counts (next value) after (onward value after)) :
    Counts (action >>= next) engine (made ++ findingsAfter action onward engine) := by
  unfold Counts findingsAfter at *
  rw [bind_apply]
  rcases ends : action engine with ⟨outcome, after⟩
  rw [ends] at first
  cases outcome with
  | ok value => exact first.trans (second value after ends)
  | error | halted =>
    rw [List.append_nil]
    exact first

theorem Counts.bind_of_nil {next : α → Act Engine ε β} {onward : α → Engine → List Finding}
    (first : Counts action engine [])
    (second : ∀ value after, action engine = (.ok value, after) →
      Counts (next value) after (onward value after)) :
    Counts (action >>= next) engine (findingsAfter action onward engine) :=
  first.bind second

/-- What follows counts nothing. -/
theorem Counts.bind_silent {next : α → Act Engine ε β} {made : List Finding}
    (first : Counts action engine made)
    (silent : ∀ value after, action engine = (.ok value, after) → Counts (next value) after []) :
    Counts (action >>= next) engine made := by
  have counts : Counts (action >>= next) engine
      (made ++ findingsAfter action (fun _ _ => []) engine) := first.bind silent
  have none : findingsAfter action (fun _ _ => []) engine = [] := by
    unfold findingsAfter
    split <;> rfl
  rwa [none, List.append_nil] at counts

theorem counts_read {next : Engine → Act Engine ε α} {made : List Finding}
    (counts : Counts (next engine) engine made) : Counts (Act.state >>= next) engine made :=
  counts

/-- A step on a condition counts nothing, nor does what follows in any case. -/
theorem counts_when {condition : Prop} [Decidable condition] {next : Act Engine ε β}
    (first : Counts action engine []) (silent : ∀ after, Counts next after []) :
    Counts (if condition then action >>= fun _ => next else next) engine [] := by
  split
  · exact first.bind_silent fun _ after _ => silent after
  · exact silent engine

theorem counts_either {condition : Prop} [Decidable condition] {other : Act Engine ε α}
    {next : α → Act Engine ε β} (first : Counts action engine []) (second : Counts other engine [])
    (silent : ∀ value after, Counts (next value) after []) :
    Counts (if condition then action >>= next else other >>= next) engine [] := by
  split
  · exact first.bind_silent fun value after _ => silent value after
  · exact second.bind_silent fun value after _ => silent value after

theorem counts_of_preserves (preserves : ∀ commons id, Preserves (Shares commons id) action) :
    Counts action engine [] :=
  counted_of_commons (preserves _ _ engine ⟨rfl, rfl⟩).commons

theorem counts_evaluator (tenant : TenantId) : Counts (evaluator tenant) engine [] :=
  counts_of_preserves fun commons id => (admits_shares commons id).toAdmitsAccess.evaluator trivial

theorem counts_consultCache (step : DecisionCache → α × DecisionCache) :
    Counts (consultCache step : Act Engine ε α) engine [] :=
  counts_of_preserves fun _ _ => preserves_consultCache step fun _ shares => ⟨shares.commons, shares.id⟩

theorem Counts.mapError {δ : Type} {made : List Finding} (counts : Counts action engine made)
    (say : ε → δ) : Counts (action.mapError say) engine made := by
  unfold Counts
  rw [mapError_apply]
  exact counts

theorem Counts.attempt {δ : Type} {made : List Finding} (counts : Counts action engine made) :
    Counts (action.attempt : Act Engine δ (Except ε α)) engine made := by
  unfold Counts Act.attempt at *
  generalize action engine = result at counts
  obtain ⟨outcome, after⟩ := result
  cases outcome <;> exact counts

theorem counts_enforce (tenant : TenantId) (subject service object action : String) :
    Counts (enforce tenant subject service object action) engine [] :=
  (counts_evaluator tenant).bind_silent fun _ _ _ => counts_pure _

/-- What an evaluator rules names no rule twice. -/
theorem distinct_of_enforce {subject service object action : String} {evaluation : Evaluation}
    {after : Engine} (ends : enforce tenant subject service object action engine = (.ok evaluation, after))
    (moment : Instant) : Finding.Distinct ⟨tenant, evaluation, moment⟩ := by
  obtain ⟨found, _, _, rules⟩ := bind_eq_ok ends
  cases rules
  exact Ascending.nodup_of_pairwise
    (Evaluator.ruling_enforce found subject service object action).ascending

theorem findingsAfter_mapError {δ : Type} (action : Act Engine ε α) (say : ε → δ)
    (onward : α → Engine → List Finding) :
    findingsAfter (action.mapError say) onward = findingsAfter action onward := by
  funext engine
  unfold findingsAfter
  rw [mapError_apply]
  generalize action engine = result
  obtain ⟨outcome, after⟩ := result
  cases outcome <;> rfl

theorem counts_recordUse {evaluation : Evaluation} (allowed : evaluation.allowed = true)
    (distinct : Finding.Distinct ⟨tenant, evaluation, engine.now⟩) :
    Counts (recordUse tenant evaluation.matchedRules : Act Engine ε Unit) engine
      [⟨tenant, evaluation, engine.now⟩] := by
  apply counted_one distinct
  rw [RuleStore.count, if_pos allowed]
  unfold recordUse
  simp only [bind_apply, state_apply, attempt, onStore]
  cases (engine.commons.store.recordUsage tenant evaluation.matchedRules engine.now).1 <;> rfl

/-- A decision by the evaluator counts its evaluation. -/
theorem counts_evaluate (request : CheckRequest) :
    Counts (evaluate request) engine (findings request engine) := by
  unfold evaluate findings
  rw [← findingsAfter_mapError _ CheckError.evaluator]
  apply ((counts_enforce ..).mapError _).bind_of_nil
  intro evaluation after ends
  have rest (middle : Engine) : Counts (do
      let engine ← Act.state
      pure (engine.enrich request (Decision.ofEvaluation evaluation), evaluation.validUntil) :
        Act Engine CheckError (Decision × Option Instant)) middle [] :=
    counted_of_commons rfl
  have distinct := distinct_of_enforce (mapError_eq_ok ends) after.now
  by_cases allowed : evaluation.allowed = true
  · split
    · exact (counts_recordUse allowed distinct).bind_silent fun _ middle _ => rest middle
    · -- an evaluation that names no rule has nothing to count
      rename_i unnamed
      have none : evaluation.matchedRules = [] := by simpa [allowed] using unnamed
      apply counted_one distinct
      rw [RuleStore.count, if_pos allowed, none, RuleStore.recordUsage_nil]
      exact (rest after).commons
  · rw [if_neg (by simp [allowed])]
    apply counted_one distinct
    rw [RuleStore.count, if_neg allowed]
    exact (rest after).commons

theorem counts_remember (request : CheckRequest) (decision : Decision) (bound : Option Instant) :
    Counts (remember request decision bound : Act Engine ε Unit) engine [] :=
  counts_read (counts_consultCache _)

theorem counts_decideFresh (request : CheckRequest) (useCache : Bool) :
    Counts (decideFresh request useCache) engine (findings request engine) := by
  apply (counts_evaluate request).bind_silent
  intro answer after _
  exact counts_when (counts_remember ..) fun _ => counts_pure _

theorem counts_lookUp (request : CheckRequest) :
    Counts (lookUp request : Act Engine ε (Option Decision)) engine [] :=
  counts_read (counts_consultCache _)

theorem counts_decide (request : CheckRequest) (useCache : Bool) :
    Counts (decide request useCache) engine (freshFindings request useCache engine) := by
  apply counts_read
  unfold freshFindings
  split
  · exact counts_pure _
  · split
    · apply (counts_lookUp request).bind_of_nil
      intro found after _
      cases found with
      | some decision => exact counts_pure _
      | none => exact counts_decideFresh request useCache
    · exact counts_decideFresh request useCache

theorem counts_roles (tenant : TenantId) (subject : String) (useCache : Bool) :
    Counts (roles tenant subject useCache) engine [] := by
  apply counts_read
  apply counts_either (counts_consultCache _) (counts_pure _)
  intro found after
  cases found with
  | some roles => exact counts_pure _
  | none =>
    have asks : Counts (rolesUntil tenant subject) after [] :=
      (counts_evaluator tenant).bind_silent fun _ _ _ => counts_pure _
    apply (asks.mapError _).bind_silent
    intro answer middle _
    exact counts_when (counts_consultCache _) fun _ => counts_pure _

theorem counts_firstAllowed (request : CheckRequest) (useCache : Bool) (roles : List String) :
    Counts (firstAllowed request useCache roles) engine (roleFindings request useCache roles engine) := by
  induction roles generalizing engine with
  | nil => exact counts_pure _
  | cons role rest ih =>
    apply (counts_decide (request.asSubject role) useCache).bind
    intro decision after _
    split
    · exact counts_pure _
    · exact ih

theorem counts_decideExpanded (request : CheckRequest) (useCache : Bool) :
    Counts (decideExpanded request useCache) engine (expandedFindings request useCache engine) := by
  apply (counts_decide request useCache).bind
  intro direct after _
  cases allowed : direct.allowed with
  | true => exact counts_pure _
  | false =>
    cases denied : direct.explicitDeny with
    | true => exact counts_pure _
    | false =>
      apply (counts_roles request.tenant request.subject useCache).bind_of_nil
      intro roles middle _
      apply (counts_firstAllowed request useCache roles).bind_silent
      intro found final _
      cases found with
      | some decision => exact counts_pure _
      | none => exact counts_pure _

/-- A time limit takes nothing back that was counted before it. -/
theorem counts_within {millis : Option Nat} {late : α} {made : List Finding}
    (counts : Counts action
      (engine.withDeadline (millis.map (engine.timing.elapsed + ·))) made) :
    Counts (within millis late action) engine made := by
  refine ⟨?_, counts.distinct⟩
  have counted := counts.commons
  unfold within
  split
  · rename_i after ends
    rw [ends] at counted
    exact counted
  · rename_i outcome after _ ends
    rw [ends] at counted
    exact counted

theorem counts_check (request : CheckRequest) (options : CheckOptions) (expand : Bool) :
    Counts (check request options expand) engine (checkFindings request options expand engine) := by
  unfold check checkFindings
  cases request.missingField? with
  | some field => exact counted_of_commons rfl
  | none =>
    have audits (decision : Decision) (after : Engine) : Counts (do
        Act.modify (auditDecision request options.audit decision)
        pure decision : Act Engine CheckError Decision) after [] := by
      apply counted_of_commons
      change (auditDecision request options.audit decision after).commons = after.commons
      unfold auditDecision
      split <;> rfl
    apply counts_read
    apply Counts.bind_silent _ fun decision after _ => audits decision after
    apply counts_within
    split
    · exact counts_decideExpanded request options.useCache
    · exact counts_decide request options.useCache

/-- Each item of a batch counts its evaluations, whatever becomes of the others. -/
theorem counted_decideEach (options : CheckOptions) (free : List Nat)
    (requests : List (Nat × CheckRequest)) :
    Counted engine (decideEach options free engine requests).2
      (itemFindings options free engine requests).flatten := by
  induction requests generalizing free engine with
  | nil => exact counted_of_commons rfl
  | cons item rest ih =>
    obtain ⟨place, request⟩ := item
    have waits (moment : Nat) : Counts (waitUntil moment : Act Engine CheckError Unit) engine [] :=
      counted_of_commons rfl
    have first := (waits ((Ascending.least? free).getD 0)).bind_of_nil fun _ _ _ =>
      counts_check request options false
    exact first.trans (ih _)

theorem counted_decideInOrder (order : List Nat) (requests : List CheckRequest)
    (options : CheckOptions) (last : Option Nat) :
    Counted engine (decideInOrder order requests options last engine).2
      (findingsInOrder order requests options last engine).flatten := by
  have counted := @counted_decideEach (engine.withTiming { engine.timing with last := last })
    options (List.replicate (min engine.own.settings.batchConcurrency requests.length)
      engine.timing.elapsed)
    (order.filterMap fun place => requests[place]?.map fun request => (place, request))
  exact ⟨counted.commons, counted.distinct⟩

theorem counts_batch (requests : List CheckRequest) (options : CheckOptions) (failFast : Bool) :
    Counts (batch requests options failFast) engine
      (batchFindings requests options failFast engine).flatten := by
  apply counts_read
  unfold batchFindings
  split
  · exact counted_of_commons rfl
  · unfold Counts batchInOrder
    dsimp only
    rcases BatchAnswer.firstFailure?
      (decideInOrder (List.range requests.length) requests options none engine).1 with
      _ | ⟨finish, fault⟩
    · exact counted_decideInOrder ..
    · cases failFast with
      | true => exact counted_decideInOrder ..
      | false => exact counted_decideInOrder ..

end Counting

section Single

/-- No more than one of the evaluations allows. -/
def Single (made : List Finding) : Prop :=
  made.countP (·.evaluation.allowed) ≤ 1

/-- No enricher turns an allow into a deny. -/
def Lenient (engine : Engine) : Prop :=
  ∀ service enricher, engine.own.enrichers.get? service = some enricher →
    ∀ request decision, decision.allowed = true → (enricher request decision).allowed = true

theorem admits_enrichers (enrichers : Table String Enricher) (mine : TenantId → Prop) :
    AdmitsChecks (fun engine => engine.own.enrichers = enrichers) mine where
  timing := fun _ same => same
  build := fun _ _ same => same
  drop := fun _ same => same
  forget := fun _ _ same => same
  updateRow := fun _ same => same
  deleteRow := fun _ _ same => same
  publish := fun _ same => same
  recordUsage := fun _ _ _ same => same
  keep := fun _ _ _ _ _ _ _ same => same
  audit := fun _ same => same

theorem Lenient.of_enrichers {after : Engine} (lenient : engine.Lenient)
    (same : after.own.enrichers = engine.own.enrichers) : after.Lenient := by
  unfold Lenient
  rw [same]
  exact lenient

theorem enrich_eq {after : Engine} (same : after.own.enrichers = engine.own.enrichers) :
    after.enrich = engine.enrich := by
  funext request decision
  unfold enrich
  rw [same]

theorem Lenient.enrich_allowed (lenient : engine.Lenient) (request : CheckRequest)
    {evaluation : Evaluation} (allowed : evaluation.allowed = true) :
    (engine.enrich request (Decision.ofEvaluation evaluation)).allowed = true := by
  have plain : (Decision.ofEvaluation evaluation).allowed = true := by
    simp [Decision.ofEvaluation, allowed, Decision.allow, Decision.plain]
  unfold enrich
  split
  · rename_i enricher present
    exact lenient _ enricher present request _ plain
  · exact plain

section Enriched

variable {one : Finding} {after : Engine}

/-- A decision by the evaluator is what the enrichers make of its evaluation. -/
theorem eq_enrich_of_evaluate {answer : Decision × Option Instant}
    (ends : evaluate request engine = (.ok answer, after)) (made : one ∈ findings request engine) :
    answer.1 = engine.enrich request (Decision.ofEvaluation one.evaluation) := by
  have admits := admits_enrichers engine.own.enrichers (fun _ => True)
  obtain ⟨evaluation, middle, enforced, goes⟩ := bind_eq_ok ends
  replace enforced := mapError_eq_ok enforced
  have same : middle.own.enrichers = engine.own.enrichers :=
    (admits.ask trivial _).of_eq rfl enforced
  unfold findings findingsAfter at made
  rw [enforced] at made
  cases List.mem_singleton.mp made
  have answers {final : Engine} (kept : final.own.enrichers = engine.own.enrichers)
      (stops : (do
        let engine ← Act.state
        pure (engine.enrich request (Decision.ofEvaluation evaluation), evaluation.validUntil) :
          Act Engine CheckError (Decision × Option Instant)) final = (.ok answer, after)) :
      answer.1 = engine.enrich request (Decision.ofEvaluation evaluation) := by
    cases stops
    exact congrFun (congrFun (enrich_eq kept) request) _
  by_cases counted : (evaluation.allowed && !evaluation.matchedRules.isEmpty) = true
  · rw [if_pos counted] at goes
    obtain ⟨_, final, recorded, stops⟩ := bind_eq_ok goes
    exact answers ((admits.recordUse trivial _).of_eq same recorded) stops
  · rw [if_neg counted] at goes
    exact answers same goes

theorem eq_enrich_of_decideFresh {useCache : Bool} {decision : Decision}
    (ends : decideFresh request useCache engine = (.ok decision, after))
    (made : one ∈ findings request engine) :
    decision = engine.enrich request (Decision.ofEvaluation one.evaluation) := by
  obtain ⟨answer, middle, evaluated, goes⟩ := bind_eq_ok ends
  rw [← eq_enrich_of_evaluate evaluated made]
  cases useCache with
  | true =>
    obtain ⟨_, _, _, stops⟩ := bind_eq_ok goes
    cases stops
    rfl
  | false =>
    cases goes
    rfl

/-- Where an evaluation is made, the decision is what the enrichers make of it. -/
theorem eq_enrich_of_decide {decision : Decision}
    (ends : decide request useCache engine = (.ok decision, after))
    (made : one ∈ freshFindings request useCache engine) :
    decision = engine.enrich request (Decision.ofEvaluation one.evaluation) := by
  unfold freshFindings at made
  unfold decide at ends
  rw [bind_apply, state_apply] at ends
  dsimp only at ends
  split at made
  · cases made
  · rename_i plain
    rw [if_neg plain] at ends
    split at made
    · rename_i cached
      rw [if_pos cached] at ends
      obtain ⟨found, middle, looked, goes⟩ := bind_eq_ok ends
      unfold findingsAfter at made
      rw [looked] at made
      cases found with
      | some kept => cases made
      | none =>
        have same : middle.own.enrichers = engine.own.enrichers :=
          ((admits_enrichers engine.own.enrichers (fun _ => True)).lookUp trivial).of_eq rfl looked
        rw [← enrich_eq same]
        exact eq_enrich_of_decideFresh goes made
    · rename_i uncached
      rw [if_neg uncached] at ends
      exact eq_enrich_of_decideFresh ends made

end Enriched

theorem length_freshFindings_le (request : CheckRequest) (useCache : Bool) :
    (freshFindings request useCache engine).length ≤ 1 := by
  have few (engine : Engine) : (findings request engine).length ≤ 1 := by
    unfold findings findingsAfter
    split <;> simp
  unfold freshFindings
  split
  · simp
  · split
    · unfold findingsAfter
      split
      · dsimp only
        split
        · simp
        · exact few _
      · simp
    · exact few engine

theorem single_of_length {made : List Finding} (few : made.length ≤ 1) : Single made :=
  Nat.le_trans List.countP_le_length few

/-- A decision that an evaluation allows is the last one that is asked for. -/
theorem single_then {useCache : Bool} (lenient : engine.Lenient)
    {onward : Decision → Engine → List Finding}
    (stops : ∀ decision after, decision.allowed = true → onward decision after = [])
    (more : ∀ decision after, decide request useCache engine = (.ok decision, after) →
      Single (onward decision after)) :
    Single (freshFindings request useCache engine ++
      findingsAfter (decide request useCache) onward engine) := by
  have few : (freshFindings request useCache engine).length ≤ 1 :=
    length_freshFindings_le request useCache
  unfold findingsAfter
  rcases decided : decide request useCache engine with ⟨outcome, after⟩
  cases outcome with
  | error | halted =>
    rw [List.append_nil]
    exact single_of_length few
  | ok decision =>
    dsimp only
    by_cases allows : ∃ one ∈ freshFindings request useCache engine, one.evaluation.allowed = true
    · obtain ⟨one, made, allowed⟩ := allows
      have granted : decision.allowed = true := by
        rw [eq_enrich_of_decide decided made]
        exact lenient.enrich_allowed request allowed
      rw [stops decision after granted, List.append_nil]
      exact single_of_length few
    · have none : (freshFindings request useCache engine).countP (·.evaluation.allowed) = 0 := by
        rw [List.countP_eq_zero]
        exact fun one made allowed => allows ⟨one, made, allowed⟩
      unfold Single
      rw [List.countP_append, none, Nat.zero_add]
      exact more decision after decided

theorem Lenient.single_roleFindings (lenient : engine.Lenient) (request : CheckRequest)
    (useCache : Bool) (roles : List String) : Single (roleFindings request useCache roles engine) := by
  have admits := admits_enrichers engine.own.enrichers (fun _ => True)
  induction roles generalizing engine with
  | nil => exact Nat.zero_le 1
  | cons role rest ih =>
    apply single_then lenient
    · intro decision after allowed
      exact if_pos allowed
    · intro decision after decided
      have kept := lenient.of_enrichers ((admits.decide trivial useCache).of_eq rfl decided)
      split
      · exact Nat.zero_le 1
      · exact ih kept (admits_enrichers after.own.enrichers _)

theorem Lenient.single_expandedFindings (lenient : engine.Lenient) (request : CheckRequest)
    (useCache : Bool) : Single (expandedFindings request useCache engine) := by
  have admits := admits_enrichers engine.own.enrichers (fun _ => True)
  apply single_then lenient
  · intro direct after allowed
    rw [if_pos (by simp [allowed])]
  · intro direct after decided
    have same := (admits.decide trivial useCache).of_eq rfl decided
    split
    · exact Nat.zero_le 1
    · unfold findingsAfter
      rcases listed : roles request.tenant request.subject useCache after with ⟨outcome, middle⟩
      cases outcome with
      | ok roles =>
        have kept := (admits.roles trivial request.subject useCache).of_eq same listed
        exact (lenient.of_enrichers kept).single_roleFindings request useCache roles
      | error | halted => exact Nat.zero_le 1

/-- A check has no more than one evaluation that allows. -/
theorem Lenient.single_checkFindings (lenient : engine.Lenient) (request : CheckRequest)
    (options : CheckOptions) (expand : Bool) :
    Single (checkFindings request options expand engine) := by
  unfold checkFindings
  split
  · exact Nat.zero_le 1
  · dsimp only
    split
    · apply Lenient.single_expandedFindings
      exact lenient.of_enrichers rfl
    · exact single_of_length (length_freshFindings_le ..)

theorem Lenient.single_itemFindings (lenient : engine.Lenient) (options : CheckOptions)
    (free : List Nat) (requests : List (Nat × CheckRequest)) :
    ∀ made ∈ itemFindings options free engine requests, Single made := by
  induction requests generalizing free engine with
  | nil => exact fun _ => nofun
  | cons item rest ih =>
    obtain ⟨place, request⟩ := item
    have admits := admits_enrichers engine.own.enrichers (fun _ => True)
    intro made member
    rcases List.mem_cons.mp member with rfl | later
    · unfold findingsAfter
      split
      · rename_i after waited
        have same := (admits.waitUntil _).of_eq rfl waited
        exact (lenient.of_enrichers same).single_checkFindings request options false
      · exact Nat.zero_le 1
    · refine ih (lenient.of_enrichers ?_) _ made later
      exact admits.batchItem trivial place _ options rfl

theorem Lenient.single_batchFindings (lenient : engine.Lenient) (requests : List CheckRequest)
    (options : CheckOptions) (failFast : Bool) :
    ∀ made ∈ batchFindings requests options failFast engine, Single made := by
  have limited (last : Option Nat) :
      (engine.withTiming { engine.timing with last := last }).Lenient := lenient.of_enrichers rfl
  have ordered (last : Option Nat) : ∀ made ∈ findingsInOrder (List.range requests.length) requests
      options last engine, Single made :=
    (limited last).single_itemFindings options _ _
  unfold batchFindings
  dsimp only
  split
  · exact fun _ => nofun
  · split
    · exact ordered _
    · exact ordered none

section Answered

variable {one : Finding} {after : Engine} {options : CheckOptions}

theorem Lenient.allowed_of_decide (lenient : engine.Lenient) {decision : Decision}
    (ends : decide request useCache engine = (.ok decision, after))
    (made : one ∈ freshFindings request useCache engine) (allowed : one.evaluation.allowed = true) :
    decision.allowed = true := by
  rw [eq_enrich_of_decide ends made]
  exact lenient.enrich_allowed request allowed

theorem Lenient.allowed_of_firstAllowed (lenient : engine.Lenient) {roles : List String}
    {found : Option Decision} (ends : firstAllowed request useCache roles engine = (.ok found, after))
    (made : one ∈ roleFindings request useCache roles engine)
    (allowed : one.evaluation.allowed = true) :
    ∃ decision, found = some decision ∧ decision.allowed = true := by
  induction roles generalizing engine with
  | nil => cases made
  | cons role rest ih =>
    obtain ⟨decision, middle, decided, goes⟩ := bind_eq_ok ends
    by_cases granted : decision.allowed = true
    · rw [if_pos granted] at goes
      cases goes
      exact ⟨viaRole decision role, rfl, granted⟩
    · rw [if_neg granted] at goes
      rcases List.mem_append.mp made with first | later
      · exact absurd (lenient.allowed_of_decide decided first allowed) granted
      · unfold findingsAfter at later
        rw [decided] at later
        dsimp only at later
        rw [if_neg granted] at later
        have same := ((admits_enrichers engine.own.enrichers fun _ => True).decide trivial
          useCache).of_eq rfl decided
        exact ih (lenient.of_enrichers same) goes later

theorem nameRole_allowed (decision : Decision) : (nameRole decision).allowed = decision.allowed := by
  unfold nameRole
  split
  · split <;> rfl
  · rfl

theorem Lenient.allowed_of_decideExpanded (lenient : engine.Lenient) {decision : Decision}
    (ends : decideExpanded request useCache engine = (.ok decision, after))
    (made : one ∈ expandedFindings request useCache engine)
    (allowed : one.evaluation.allowed = true) : decision.allowed = true := by
  have admits := admits_enrichers engine.own.enrichers (fun _ => True)
  obtain ⟨direct, middle, decided, goes⟩ := bind_eq_ok ends
  by_cases granted : direct.allowed = true
  · rw [if_pos granted] at goes
    cases goes
    rw [nameRole_allowed]
    exact granted
  · rw [if_neg granted] at goes
    rcases List.mem_append.mp made with first | later
    · exact absurd (lenient.allowed_of_decide decided first allowed) granted
    · unfold findingsAfter at later
      rw [decided] at later
      dsimp only at later
      by_cases denied : direct.explicitDeny = true
      · rw [if_pos (by simp [denied])] at later
        cases later
      · rw [if_neg (by simp [granted, denied])] at later
        rw [if_neg denied] at goes
        obtain ⟨roles, between, listed, goes⟩ := bind_eq_ok goes
        obtain ⟨found, final, asked, stops⟩ := bind_eq_ok goes
        rw [listed] at later
        have same := (admits.decide trivial useCache).of_eq rfl decided
        have kept := (admits.roles trivial request.subject useCache).of_eq same listed
        obtain ⟨reply, rfl, grants⟩ :=
          (lenient.of_enrichers kept).allowed_of_firstAllowed asked later allowed
        cases stops
        exact grants

/-- A check for which an evaluation allows is answered with an allow, unless it runs out of time. -/
theorem Lenient.allowed_or_late (lenient : engine.Lenient) {expand : Bool} {reply : Decision}
    (replied : (check request options expand engine).1 = .ok reply)
    (made : one ∈ checkFindings request options expand engine)
    (allowed : one.evaluation.allowed = true) :
    reply.allowed = true ∨ reply = Decision.deny Reason.deadline := by
  rcases checked : check request options expand engine with ⟨outcome, after⟩
  rw [checked] at replied
  cases replied
  unfold checkFindings at made
  unfold check at checked
  cases whole : request.missingField? with
  | some field =>
    rw [whole] at made
    cases made
  | none =>
    rw [whole] at made checked
    obtain ⟨_, _, seen, goes⟩ := bind_eq_ok checked
    cases seen
    obtain ⟨decision, middle, limited, stops⟩ := bind_eq_ok goes
    cases stops
    unfold within at limited
    split at limited
    · cases limited
      exact Or.inr rfl
    · rename_i outcome final _ ends
      cases limited
      refine Or.inl ?_
      have lenient : (engine.withDeadline ((options.deadline <|>
        engine.own.settings.checkTimeout).map (engine.timing.elapsed + ·))).Lenient :=
          lenient.of_enrichers rfl
      cases expand with
      | true => exact lenient.allowed_of_decideExpanded ends made allowed
      | false => exact lenient.allowed_of_decide ends made allowed

end Answered

end Single

end Engine

section Commands

open Engine

/-- The evaluations behind a command, of each check and of each item of a batch. -/
def Command.findings : Command → Engine → List (List Finding)
  | .check request options expand, engine => [checkFindings request options expand engine]
  | .checkPermission tenant caller query, engine =>
    [checkFindings (query.toRequest tenant caller) query.options query.expandRoles engine]
  | .batch requests options failFast, engine => batchFindings requests options failFast engine
  | .batchPermission tenant caller queries failFast, engine =>
    batchFindings (queries.map (·.toRequest tenant caller))
      { useCache := queries.all (·.useCache), audit := queries.any (·.audit) } failFast engine
  | _, _ => []

variable {engine : Engine} {command : Command}

/-- A command that asks for decisions counts their evaluations. -/
theorem counted_perform (asks : command.decides = true) :
    Counted engine (command.perform engine) (command.findings engine).flatten := by
  cases command with
  | check request options expand =>
    rw [Command.findings, List.flatten_singleton]
    exact counts_check request options expand
  | checkPermission tenant caller query =>
    rw [Command.findings, List.flatten_singleton]
    apply Counts.bind_silent
    · exact (counts_check _ _ _).attempt
    · intro result after _
      cases result <;> exact counts_pure _
  | batch requests options failFast => exact counts_batch ..
  | batchPermission tenant caller queries failFast =>
    exact (counts_batch ..).bind_silent fun _ _ _ => counts_pure _
  | _ => cases asks

theorem Engine.Lenient.single_findings (lenient : engine.Lenient) (command : Command) :
    ∀ made ∈ command.findings engine, Single made := by
  cases command with
  | check | checkPermission =>
    intro made member
    rw [List.mem_singleton.mp member]
    exact lenient.single_checkFindings ..
  | batch | batchPermission => exact lenient.single_batchFindings _ _ _
  | _ => exact fun _ => nofun

end Commands

end AccessPolicy
