import AccessPolicy.Engine.Batch
import AccessPolicy.Proofs.Engine.ItemSteps

/-!
A batch and the checks of its requests by themselves. The answers may come in any order, and the checks
may be made in any order or beside each other: every decision of the batch is the one that the check of
its request would have given at the start.
-/
namespace AccessPolicy

/-- How a batch hears of a check. One that halts has failed. -/
def Outcome.reported : Outcome CheckError Decision → Except CheckError Decision
  | .ok decision => .ok decision
  | .error fault => .error fault
  | .halted _ => .error .task

/-- Decisions and how many of them allow. -/
def BatchResponse.ofDecisions (decisions : List Decision) : BatchResponse :=
  ⟨decisions, (decisions.filter (·.allowed)).length,
    decisions.length - (decisions.filter (·.allowed)).length⟩

/-- What is not allowed has failed. -/
theorem BatchResponse.counts (decisions : List Decision) :
    (ofDecisions decisions).successCount = decisions.countP (·.allowed) ∧
      (ofDecisions decisions).failedCount = decisions.countP (!·.allowed) ∧
      (ofDecisions decisions).successCount + (ofDecisions decisions).failedCount =
        decisions.length := by
  have parts := List.length_eq_countP_add_countP (·.allowed) (l := decisions)
  simp only [Bool.not_eq_true, Bool.decide_eq_false] at parts
  simp only [ofDecisions, ← List.countP_eq_length_filter]
  exact ⟨trivial, by omega, by omega⟩

namespace BatchAnswer

variable {answers : List BatchAnswer}

section Results

/-- What a batch tells of a check: an error is a deny that carries it. -/
def told : Except CheckError Decision → Decision
  | .ok decision => decision
  | .error .task => Decision.deny Reason.taskFailed
  | .error fault => Decision.deny fault.message

theorem decision_eq_told (answer : BatchAnswer) : answer.decision = told answer.result := by
  unfold decision told
  cases answer.result with
  | ok decision => rfl
  | error fault => cases fault <;> rfl

/-- Results that a caller cannot tell apart, but for where decisions come from. -/
def Alike : Except CheckError Decision → Except CheckError Decision → Prop
  | .ok one, .ok other => one.Agrees other
  | .error one, .error other => one = other
  | _, _ => False

theorem alike_reported {one other : Outcome CheckError Decision} (agrees : one.Agrees other) :
    Alike one.reported other.reported := by
  cases one <;> cases other <;> first | exact agrees.elim | exact agrees | rfl

theorem Alike.told {one other : Except CheckError Decision} (alike : Alike one other) :
    (told one).Agrees (told other) := by
  cases one <;> cases other <;> first | exact alike.elim | exact alike | skip
  cases alike
  exact Decision.Agrees.refl _

theorem Alike.error {fault : CheckError} {other : Except CheckError Decision}
    (alike : Alike (.error fault) other) : other = .error fault := by
  cases other with
  | ok decision => exact alike.elim
  | error cause => exact congrArg Except.error (Eq.symm alike)

theorem Alike.trans {one two three : Except CheckError Decision} (alike : Alike one two)
    (further : Alike two three) : Alike one three := by
  cases two with
  | ok decision =>
    cases one <;> cases three <;> first | exact alike.elim | exact further.elim | skip
    exact Decision.Agrees.trans alike further
  | error cause =>
    cases one <;> cases three <;> first | exact alike.elim | exact further.elim | skip
    exact Eq.trans alike further

theorem Alike.isOk {one other : Except CheckError Decision} (alike : Alike one other) :
    other.isOk = one.isOk := by
  cases one <;> cases other <;> first | exact alike.elim | rfl

end Results

section Failures

theorem mem_of_firstFailure? {finish : Nat} {fault : CheckError}
    (first : firstFailure? answers = some (finish, fault)) :
    ∃ answer ∈ answers, answer.result = .error fault := by
  induction answers generalizing finish with
  | nil => cases first
  | cons answer rest ih =>
    have later {finish : Nat} (first : firstFailure? rest = some (finish, fault)) :
        ∃ failed ∈ answer :: rest, failed.result = .error fault :=
      (ih first).imp fun _ => And.imp_left (List.mem_cons_of_mem answer)
    unfold firstFailure? at first
    split at first
    · exact later first
    · rename_i failed _
      cases first
      exact ⟨answer, List.mem_cons_self, failed⟩
    · rename_i failed next
      split at first
      · cases first
        exact ⟨answer, List.mem_cons_self, failed⟩
      · cases first
        exact later next

theorem isOk_of_firstFailure? (none : firstFailure? answers = none) :
    ∀ answer ∈ answers, answer.result.isOk = true := by
  induction answers with
  | nil => exact fun _ member => nomatch member
  | cons answer rest ih =>
    unfold firstFailure? at none
    split at none
    · rename_i decision decided
      refine List.forall_mem_cons.mpr ⟨?_, ih none⟩
      rw [decided]
      rfl
    · cases none
    · split at none <;> cases none

end Failures

/-- An answer that is right for the request at its place. -/
def Fits (right : CheckRequest → Except CheckError Decision) (requests : List CheckRequest)
    (answer : BatchAnswer) : Prop :=
  ∃ request, requests[answer.place]? = some request ∧ Alike answer.result (right request)

/-- Right answers for all places of a batch. -/
structure Cover (right : CheckRequest → Except CheckError Decision) (requests : List CheckRequest)
    (answers : List BatchAnswer) : Prop where
  fits : ∀ answer ∈ answers, answer.Fits right requests
  whole : ∀ place < requests.length, ∃ answer ∈ answers, answer.place = place

section Cover

variable {right : CheckRequest → Except CheckError Decision} {requests : List CheckRequest}

theorem Cover.inOrder (cover : Cover right requests answers) :
    List.Forall₂ (fun request decision => decision.Agrees (told (right request))) requests
      (inOrder requests.length answers) := by
  rw [List.forall₂_iff_get]
  refine ⟨by simp [BatchAnswer.inOrder], fun place bound _ => ?_⟩
  obtain ⟨present, listed, placed⟩ := cover.whole place bound
  obtain ⟨answer, found⟩ := Option.isSome_iff_exists.mp (List.find?_isSome.mpr
    (⟨present, listed, decide_eq_true placed⟩ :
      ∃ answer ∈ answers, decide (answer.place = place) = true))
  obtain ⟨request, asked, alike⟩ := cover.fits answer (List.mem_of_find?_eq_some found)
  have own : answer.place = place := by
    simpa using List.find?_some found
  rw [own, List.getElem?_eq_getElem bound, Option.some_inj] at asked
  simp only [BatchAnswer.inOrder, List.get_eq_getElem, List.getElem_map, List.getElem_range]
  rw [found, asked, Option.map_some, Option.getD_some, decision_eq_told]
  exact alike.told

/-- Where no answer is an error, no request has one coming. -/
theorem Cover.isOk (cover : Cover right requests answers)
    (fine : ∀ answer ∈ answers, answer.result.isOk = true) :
    ∀ request ∈ requests, (right request).isOk = true := by
  intro request member
  obtain ⟨place, bound, same⟩ := List.getElem_of_mem member
  obtain ⟨answer, listed, placed⟩ := cover.whole place bound
  obtain ⟨asked, present, alike⟩ := cover.fits answer listed
  rw [placed, List.getElem?_eq_getElem bound, same, Option.some_inj] at present
  rw [present, alike.isOk]
  exact fine answer listed

theorem Fits.error {answer : BatchAnswer} (fits : answer.Fits right requests) {fault : CheckError}
    (failed : answer.result = .error fault) : ∃ request ∈ requests, right request = .error fault := by
  obtain ⟨request, present, alike⟩ := fits
  rw [failed] at alike
  exact ⟨request, List.mem_of_getElem? present, alike.error⟩

end Cover

end BatchAnswer

namespace Engine

open Act hiding pure bind state
open BatchAnswer

variable {engine later : Engine} {options : CheckOptions} {requests : List CheckRequest}
variable {failFast : Bool}

section Definitions

/-- What a batch would hear of a request's check, if it were the only one. -/
def alone (engine : Engine) (options : CheckOptions) (request : CheckRequest) :
    Except CheckError Decision :=
  (check request options false engine.newCall).1.reported

/-- A batch replies as the checks of its requests do by themselves: with a decision for each of them in
their order, or, where the first error is the answer and some check errs, with such an error. -/
inductive AsAlone (engine : Engine) (options : CheckOptions) (requests : List CheckRequest)
    (failFast : Bool) : Outcome CheckError (List Decision) → Prop
  | decided {decisions : List Decision}
      (fine : failFast = true → ∀ request ∈ requests, (engine.alone options request).isOk = true)
      (each : List.Forall₂ (fun request decision =>
        decision.Agrees (told (engine.alone options request))) requests decisions) :
      AsAlone engine options requests failFast (.ok decisions)
  | failed {fault : CheckError} (failsFast : failFast = true)
      (fails : ∃ request ∈ requests, engine.alone options request = .error fault) :
      AsAlone engine options requests failFast (.error fault)

/-- How the requests of questions are decided together. -/
def batchOptions (queries : List PermissionQuery) : CheckOptions :=
  { useCache := queries.all (·.useCache), audit := queries.any (·.audit) }

/-- The checks of a batch, each under its place. -/
def batchTasks (requests : List CheckRequest) (options : CheckOptions) :
    List (Nat × Steps Engine (Option Answer) CheckError Decision) :=
  requests.zipIdx.map fun item => (item.2, itemSteps item.1 options)

/-- The checks of a batch beside each other, before the first of them has begun. -/
def batchCrowd (engine : Engine) (options : CheckOptions) (requests : List CheckRequest) :
    Crowd Engine (Option Answer) CheckError Decision :=
  .start (batchTasks requests options) engine.newCall

/-- As many checks at a time as the settings allow, at least one. -/
def BatchMoves (engine : Engine) :
    Crowd Engine (Option Answer) CheckError Decision →
      Crowd Engine (Option Answer) CheckError Decision → Prop :=
  Crowd.Moves (max engine.own.settings.batchConcurrency 1)

/-- The answers of the checks that have ended. -/
def crowdAnswers (crowd : Crowd Engine (Option Answer) CheckError Decision) : List BatchAnswer :=
  crowd.ended.map fun task => ⟨task.1, 0, task.2.reported⟩

/-- What a batch may reply when its checks have come this far: the decisions when all have ended, or, if
the first error is the answer, an error of a check that has ended. -/
inductive Replies (size : Nat) (failFast : Bool)
    (crowd : Crowd Engine (Option Answer) CheckError Decision) :
    Outcome CheckError (List Decision) → Prop
  | decided (queued : crowd.queued = []) (begun : crowd.begun = [])
      (fine : failFast = true → ∀ answer ∈ crowdAnswers crowd, answer.result.isOk = true) :
      Replies size failFast crowd (.ok (inOrder size (crowdAnswers crowd)))
  | failed {answer : BatchAnswer} {fault : CheckError} (failsFast : failFast = true)
      (ended : answer ∈ crowdAnswers crowd) (fails : answer.result = .error fault) :
      Replies size failFast crowd (.error fault)

/-- However a batch is made, it replies as its checks do by themselves. -/
structure BatchesAsAlone (engine : Engine) (options : CheckOptions) (requests : List CheckRequest)
    (failFast : Bool) : Prop where
  batch : AsAlone engine options requests failFast
    (batch requests options failFast engine.newCall).1
  /-- The requests may be decided one after the other in any order. -/
  inOrder : ∀ order : List Nat, order.Perm (List.range requests.length) →
    AsAlone engine options requests failFast
      (batchInOrder order requests options failFast engine.newCall).1
  /-- The checks may be made beside each other, and end in any order. -/
  crowd : ∀ crowd, Relation.ReflTransGen engine.BatchMoves (engine.batchCrowd options requests) crowd →
    ∀ outcome, Replies requests.length failFast crowd outcome →
      AsAlone engine options requests failFast outcome
  /-- However far they have come, they can go on to a reply. -/
  ends : ∀ crowd, Relation.ReflTransGen engine.BatchMoves (engine.batchCrowd options requests) crowd →
    ∃ last outcome, Relation.ReflTransGen engine.BatchMoves crowd last ∧
      Replies requests.length failFast last outcome

/-- Questions of a caller are answered as the checks of their requests by themselves, and counted. -/
structure CountsAsAlone (engine : Engine) (tenant : TenantId) (caller : Principal)
    (queries : List PermissionQuery) (failFast : Bool)
    (outcome : Outcome CheckError BatchResponse) : Prop where
  decisions : AsAlone engine (batchOptions queries) (queries.map (·.toRequest tenant caller)) failFast
    (outcome.map (·.decisions))
  counts : ∀ response, outcome = .ok response →
    response.successCount = response.decisions.countP (·.allowed) ∧
    response.failedCount = response.decisions.countP (!·.allowed) ∧
    response.successCount + response.failedCount = queries.length

end Definitions

section Alone

/-- A check by itself comes to what the evaluator at hand decides. -/
theorem alike_alone (calm : engine.newCall.Calm options) (request : CheckRequest) :
    Alike (engine.newCall.freshly request).reported (engine.alone options request) := by
  obtain ⟨_, agrees⟩ := (stays_itemSteps calm request).run Persists.refl Persists.trans
  rw [run_itemSteps calm] at agrees
  exact alike_reported agrees.symm

end Alone

section InOrder

/-- A check that waits for its turn comes to the same. -/
theorem batchItem_alike (calm : engine.Calm options) (place start : Nat) (request : CheckRequest) :
    Persists engine (batchItem place start request options engine).2 ∧
      (batchItem place start request options engine).1.place = place ∧
      Alike (batchItem place start request options engine).1.result
        (engine.freshly request).reported := by
  obtain ⟨timing, free, waited⟩ := waitUntil_of_unhurried (ε := CheckError) calm.unhurried start
  have waits : Persists engine (engine.withTiming timing) := .withTiming free
  have ready : (engine.withTiming timing).Calm options := calm.persists waits
  obtain ⟨persists, agrees⟩ := (stays_itemSteps ready request).run Persists.refl Persists.trans
  rw [run_itemSteps ready] at persists agrees
  unfold batchItem
  dsimp only
  rw [bind_apply, waited]
  dsimp only
  refine ⟨waits.trans persists, rfl, ?_⟩
  exact alike_reported agrees

/-- Decided one after the other, each request is answered as at the start. -/
theorem decideEach_alike (calm : engine.Calm options) (free : List Nat)
    (items : List (Nat × CheckRequest)) :
    (decideEach options free engine items).1.map BatchAnswer.place = items.map Prod.fst ∧
      ∀ answer ∈ (decideEach options free engine items).1, ∃ request,
        (answer.place, request) ∈ items ∧
          Alike answer.result (engine.freshly request).reported := by
  induction items generalizing engine free with
  | nil => exact ⟨rfl, fun _ member => nomatch member⟩
  | cons item rest ih =>
    obtain ⟨place, request⟩ := item
    obtain ⟨persists, placed, alike⟩ := batchItem_alike calm place
      ((Ascending.least? free).getD 0) request
    obtain ⟨places, others⟩ := ih (calm.persists persists)
      ((batchItem place ((Ascending.least? free).getD 0) request options engine).1.finish ::
        free.erase ((Ascending.least? free).getD 0))
    refine ⟨congrArg₂ List.cons placed places, List.forall_mem_cons.mpr ⟨?_, ?_⟩⟩
    · exact ⟨request, placed ▸ List.mem_cons_self, alike⟩
    · intro answer member
      obtain ⟨asked, listed, same⟩ := others answer member
      rw [persists.freshly_eq] at same
      exact ⟨asked, List.mem_cons_of_mem _ listed, same⟩

/-- Whatever the order in which the requests are decided. -/
theorem cover_decideInOrder (calm : engine.newCall.Calm options) {order : List Nat}
    (complete : order.Perm (List.range requests.length)) :
    Cover (engine.alone options) requests
      (decideInOrder order requests options none engine.newCall).1 := by
  obtain ⟨places, answered⟩ := decideEach_alike calm
    (List.replicate (min engine.own.settings.batchConcurrency requests.length)
      engine.newCall.timing.elapsed)
    (order.filterMap fun place => requests[place]?.map fun request => (place, request))
  change Cover _ _ (decideEach options _ engine.newCall _).1
  refine ⟨fun answer member => ?_, fun place bound => ?_⟩
  · obtain ⟨request, listed, alike⟩ := answered answer member
    obtain ⟨_, _, paired⟩ := List.mem_filterMap.mp listed
    obtain ⟨_, present, pair⟩ := Option.map_eq_some_iff.mp paired
    obtain ⟨rfl, rfl⟩ := Prod.mk.inj pair
    exact ⟨_, present, alike.trans (alike_alone calm _)⟩
  · have listed : (place, requests[place]) ∈ order.filterMap fun place =>
        requests[place]?.map fun request => (place, request) := by
      refine List.mem_filterMap.mpr ⟨place, complete.mem_iff.mpr (List.mem_range.mpr bound), ?_⟩
      rw [List.getElem?_eq_getElem bound, Option.map_some]
    exact List.mem_map.mp (places ▸ List.mem_map_of_mem listed)

/-- Where no error is the answer, the failures do not matter. -/
theorem asAlone_batchInOrder (calm : engine.newCall.Calm options) {order : List Nat}
    (complete : order.Perm (List.range requests.length)) :
    AsAlone engine options requests failFast
      (batchInOrder order requests options failFast engine.newCall).1 := by
  have cover := cover_decideInOrder calm complete
  unfold batchInOrder
  dsimp only
  split
  · rename_i first
    split
    · rename_i failsFast
      obtain ⟨answer, listed, failed⟩ := mem_of_firstFailure? first
      exact .failed failsFast ((cover.fits answer listed).error failed)
    · rename_i gathers
      exact .decided (fun failsFast => absurd failsFast gathers) cover.inOrder
  · rename_i none
    exact .decided (fun _ => cover.isOk (isOk_of_firstFailure? none)) cover.inOrder

theorem asAlone_batch (calm : engine.newCall.Calm options)
    (narrow : engine.own.settings.batchConcurrency ≤ widest) :
    AsAlone engine options requests failFast (batch requests options failFast engine.newCall).1 := by
  unfold batch
  rw [bind_apply, state_apply]
  dsimp only
  have fits : ¬ widest < engine.newCall.own.settings.batchConcurrency := Nat.not_lt.mpr narrow
  rw [if_neg fits]
  exact asAlone_batchInOrder calm (List.Perm.refl _)

/-- A batch of questions replies as the batch of their requests does, and counts what is allowed. -/
theorem batchPermission_of_batch (tenant : TenantId) (caller : Principal)
    (queries : List PermissionQuery) :
    (batchPermission tenant caller queries failFast engine).1 =
      (batch (queries.map (·.toRequest tenant caller)) (batchOptions queries) failFast engine).1.map
        BatchResponse.ofDecisions := by
  unfold batchPermission
  exact congrArg Prod.fst (bind_pure_apply _ BatchResponse.ofDecisions engine)

end InOrder

section Crowd

variable {crowd : Crowd Engine (Option Answer) CheckError Decision}

/-- Made beside each other, in any order of their steps, the checks answer as at the start. -/
theorem behaves_batchCrowd (calm : engine.newCall.Calm options) :
    (batchCrowd engine options requests).Behaves Persists fun place outcome =>
      ∃ request, requests[place]? = some request ∧ outcome.Agrees (engine.newCall.freshly request) where
  queued := by
    intro task member
    obtain ⟨⟨request, place⟩, listed, rfl⟩ := List.mem_map.mp member
    exact (stays_itemSteps calm request).weaken fun _ _ agrees =>
      ⟨request, List.mem_zipIdx_iff_getElem?.mp listed, agrees⟩
  begun := fun _ member => nomatch member
  ended := fun _ member => nomatch member

theorem fits_crowdAnswers (calm : engine.newCall.Calm options)
    (run : Relation.ReflTransGen engine.BatchMoves (batchCrowd engine options requests) crowd) :
    ∀ answer ∈ crowdAnswers crowd, answer.Fits (engine.alone options) requests := by
  obtain ⟨behaves, _⟩ := Crowd.behaves_of_run Persists.refl Persists.trans run
    (behaves_batchCrowd calm)
  intro answer member
  obtain ⟨⟨place, outcome⟩, ended, rfl⟩ := List.mem_map.mp member
  obtain ⟨request, present, agrees⟩ := behaves.ended _ ended
  exact ⟨request, present, (alike_reported agrees).trans (alike_alone calm request)⟩

theorem cover_crowdAnswers (calm : engine.newCall.Calm options)
    (run : Relation.ReflTransGen engine.BatchMoves (batchCrowd engine options requests) crowd)
    (queued : crowd.queued = []) (begun : crowd.begun = []) :
    Cover (engine.alone options) requests (crowdAnswers crowd) := by
  refine ⟨fits_crowdAnswers calm run, fun place bound => ?_⟩
  obtain ⟨_, places⟩ := Crowd.behaves_of_run Persists.refl Persists.trans run
    (behaves_batchCrowd calm)
  have numbered : (batchCrowd engine options requests).places = List.range requests.length := by
    simp [batchCrowd, batchTasks, Crowd.start, Crowd.places, Function.comp_def,
      List.range_eq_range']
  have ended : place ∈ crowd.ended.map Prod.fst := by
    have listed := places.mem_iff.mpr (numbered ▸ List.mem_range.mpr bound)
    rwa [Crowd.places, queued, begun] at listed
  obtain ⟨task, member, same⟩ := List.mem_map.mp ended
  exact ⟨_, List.mem_map_of_mem member, same⟩

theorem asAlone_replies (calm : engine.newCall.Calm options)
    (run : Relation.ReflTransGen engine.BatchMoves (batchCrowd engine options requests) crowd)
    {outcome : Outcome CheckError (List Decision)}
    (replies : Replies requests.length failFast crowd outcome) :
    AsAlone engine options requests failFast outcome := by
  cases replies with
  | decided queued begun fine =>
    have cover := cover_crowdAnswers calm run queued begun
    exact .decided (fun failsFast => cover.isOk (fine failsFast)) cover.inOrder
  | failed failsFast ended fails =>
    exact .failed failsFast ((fits_crowdAnswers calm run _ ended).error fails)

/-- However far the checks have come, they can go on until the batch replies. -/
theorem exists_replies (crowd : Crowd Engine (Option Answer) CheckError Decision) (size : Nat)
    (failFast : Bool) : ∃ last outcome, Relation.ReflTransGen engine.BatchMoves crowd last ∧
      Replies size failFast last outcome := by
  obtain ⟨last, run, queued, begun⟩ := Crowd.exists_finished
    (Nat.lt_of_lt_of_le Nat.zero_lt_one (Nat.le_max_right engine.own.settings.batchConcurrency 1))
    crowd
  by_cases fine : failFast = true → ∀ answer ∈ crowdAnswers last, answer.result.isOk = true
  · exact ⟨last, _, run, .decided queued begun fine⟩
  · push Not at fine
    obtain ⟨failsFast, answer, ended, fails⟩ := fine
    cases result : answer.result with
    | ok decision =>
      rw [result] at fails
      exact absurd rfl fails
    | error fault => exact ⟨last, _, run, .failed failsFast ended result⟩

end Crowd

/-- In an engine whose cache tells what its evaluators decide, a batch that is not too wide replies as the
checks of its requests do by themselves. -/
theorem batch_as_alone (plain : engine.own.enrichers = [])
    (untimed : engine.own.settings.checkTimeout = none) (truthful : engine.Truthful)
    (narrow : engine.own.settings.batchConcurrency ≤ widest) (failFast : Bool) :
    (∀ options requests, options.deadline = none →
      BatchesAsAlone engine options requests failFast) ∧
    ∀ tenant caller queries, CountsAsAlone engine tenant caller queries failFast
      (batchPermission tenant caller queries failFast engine.newCall).1 := by
  have calm (options : CheckOptions) (unlimited : options.deadline = none) :
      engine.newCall.Calm options :=
    ⟨unhurried_newCall engine, plain, unlimited, untimed, fun _ => truthful⟩
  constructor
  · intro options requests unlimited
    have calm := calm options unlimited
    exact ⟨asAlone_batch calm narrow, fun _ complete => asAlone_batchInOrder calm complete,
      fun _ run _ replies => asAlone_replies calm run replies,
      fun crowd _ => exists_replies crowd requests.length failFast⟩
  · intro tenant caller queries
    have replied : AsAlone engine (batchOptions queries) (queries.map (·.toRequest tenant caller))
        failFast (batch (queries.map (·.toRequest tenant caller)) (batchOptions queries) failFast
          engine.newCall).1 := asAlone_batch (calm (batchOptions queries) rfl) narrow
    rw [batchPermission_of_batch]
    generalize batch _ (batchOptions queries) failFast engine.newCall = result at replied ⊢
    obtain ⟨outcome, after⟩ := result
    dsimp only at replied ⊢
    cases replied with
    | @decided decisions fine each =>
      refine ⟨.decided fine each, ?_⟩
      rintro _ ⟨rfl⟩
      obtain ⟨allowed, refused, total⟩ := BatchResponse.counts decisions
      refine ⟨allowed, refused, total.trans ?_⟩
      rw [← each.length_eq, List.length_map]
    | failed failsFast fails => exact ⟨.failed failsFast fails, fun _ impossible => nomatch impossible⟩

/-- Ann's question twice, and one that names nobody. -/
def annAndNobody : List CheckRequest :=
  let asked := mayAnnRead.toRequest ⟨1⟩ ⟨"clerk", []⟩
  [asked, { asked with subject := "" }, asked]

theorem batch_as_alone_of_answered : answered.own.enrichers = [] ∧
    answered.own.settings.checkTimeout = none ∧ answered.Truthful ∧
    answered.own.settings.batchConcurrency ≤ widest ∧
    BatchesAsAlone answered {} annAndNobody true ∧ BatchesAsAlone answered {} annAndNobody false ∧
    CountsAsAlone answered ⟨1⟩ ⟨"clerk", []⟩ [mayAnnRead] false
      (batchPermission ⟨1⟩ ⟨"clerk", []⟩ [mayAnnRead] false answered.newCall).1 := by
  have start : Coherent (Regime.steady True) started :=
    coherent_start RuleStore.sound_empty _ _ _ _ fun _ => rfl
  have coherent : Coherent (Regime.steady True) answered :=
    (coherent_of_run (run_answered False) (fun _ impossible => impossible) start).1
  have untimed : answered.own.settings.checkTimeout = none := by
    decide +kernel
  have narrow : answered.own.settings.batchConcurrency ≤ widest := by
    decide +kernel
  have plain : answered.own.enrichers = [] :=
    (coherent.newCall.recollects trivial).enrichers.plain not_false
  have truthful := coherent.truthful
  exact ⟨plain, untimed, truthful, narrow,
    (batch_as_alone plain untimed truthful narrow true).1 {} annAndNobody rfl,
    (batch_as_alone plain untimed truthful narrow false).1 {} annAndNobody rfl,
    (batch_as_alone plain untimed truthful narrow false).2 ⟨1⟩ ⟨"clerk", []⟩ [mayAnnRead]⟩

/-- An engine over an empty store that is set to decide more requests at a time than can be. -/
def unbounded : Engine :=
  ⟨⟨.empty, .empty, false, .epoch, 0⟩,
    .start ⟨1⟩ (Settings.default.withBatchConcurrency (widest + 1)) [] false, .start⟩

/-- Such a batch halts. -/
theorem batch_too_wide : unbounded.own.enrichers = [] ∧
    unbounded.own.settings.checkTimeout = none ∧ unbounded.Truthful ∧
    (unbounded.alone {} (mayAnnRead.toRequest ⟨1⟩ ⟨"clerk", []⟩)).isOk = true ∧
    ¬ BatchesAsAlone unbounded {} [mayAnnRead.toRequest ⟨1⟩ ⟨"clerk", []⟩] false := by
  have start : Coherent (Regime.steady True) unbounded :=
    coherent_start RuleStore.sound_empty _ _ _ _ fun _ => rfl
  refine ⟨rfl, rfl, start.truthful, by decide +kernel, fun asAlone => ?_⟩
  have halts : (batch [mayAnnRead.toRequest ⟨1⟩ ⟨"clerk", []⟩] {} false unbounded.newCall).1 =
      .halted .tooWide := rfl
  have replied := asAlone.batch
  rw [halts] at replied
  cases replied

end Engine

end AccessPolicy
