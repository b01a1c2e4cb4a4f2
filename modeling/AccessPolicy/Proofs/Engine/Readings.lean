import AccessPolicy.Proofs.Engine.AtHand
import AccessPolicy.Proofs.Evaluator.DenyOverrides
import AccessPolicy.Proofs.Rule.Flip

/-!
A clock that may be set back. An evaluator is kept until its next transition, however far the clock goes
behind the instant at which it was built. Each answer is that of an evaluator built at some reading so
far, which is right as long as every rule counts then as it does now, and so whenever the clock has not
gone behind the build.
-/
namespace AccessPolicy

/-- A question to the evaluator of a tenant, and the clock when it is asked. -/
structure Reading where
  now : Instant
  tenant : TenantId
  subject : String
  service : String
  object : String
  action : String

def Reading.ask (reading : Reading) (evaluator : Evaluator) : Evaluation :=
  evaluator.enforce reading.subject reading.service reading.object reading.action

namespace Evaluator

variable {tenant : TenantId} {rules : List Rule} {now later : Instant} {evaluator : Evaluator}

theorem foldl_insert_builtAt (rules : List Rule) (evaluator : Evaluator) :
    (rules.foldl (fun evaluator rule => (evaluator.insert rule).2) evaluator).builtAt =
      evaluator.builtAt := by
  induction rules generalizing evaluator with
  | nil => rfl
  | cons rule rest ih =>
    rw [List.foldl_cons, ih]
    unfold insert addGrant addMembership
    split
    · rfl
    · dsimp only
      split <;> rfl
    · dsimp only
      split <;> rfl

theorem build_builtAt (built : build tenant rules now = .ok evaluator) : evaluator.builtAt = now := by
  unfold build at built
  split at built
  · cases built
  · cases built
    exact foldl_insert_builtAt _ _

/-- An evaluator that is not stale is as good as new, unless the clock has gone behind its build. -/
theorem not_someFlips_of_build (built : build tenant rules now = .ok evaluator)
    (fresh : evaluator.isStale later = false) (ordinary : later.isLeap = false)
    (order : now ≤ later) : ¬ SomeFlips rules now later := by
  rintro ⟨rule, member, flips⟩
  have steady := steady_of_nextTransition (build_nextTransition built) rule member
  exact flips (steady later ordinary order (isStale_eq_false_iff.mp fresh))

/-- Where no rule flips between two instants, evaluators built at the one and at the other answer alike. -/
theorem enforce_eq_of_not_someFlips {other : Evaluator}
    (built : build tenant rules now = .ok evaluator) (builtToo : build tenant rules later = .ok other)
    (same : ¬ SomeFlips rules now later) (subject service object action : String) :
    evaluator.enforce subject service object action =
      { other.enforce subject service object action with validUntil := evaluator.nextTransition } := by
  refine ((mirrors_of_build built).after fun rule member => ?_).enforce_eq (mirrors_of_build builtToo) ..
  exact Classical.byContradiction fun flips => same ⟨rule, (List.mem_filter.mp member).1, flips⟩

/-- Whatever decides a request is a rule in force. -/
theorem inForce_of_matched (built : build tenant rules now = .ok evaluator)
    {subject service object action : String} {id : RuleId}
    (cited : id ∈ (evaluator.enforce subject service object action).matchedRules) :
    ∃ rule, InForce tenant rules now rule ∧ rule.id = id := by
  have ruling := ruling_enforce evaluator subject service object action
  obtain ⟨_, decides⟩ := (ruling.mem_matchedRules_iff id).mp cited
  obtain ⟨rule, _, matching, own, _⟩ := (decides_iff_of_build built).mp decides
  exact ⟨rule, matching.inForce, own⟩

end Evaluator

namespace Engine

open Act hiding pure bind state

variable {engine : Engine} {tenant : TenantId} {fresh : Evaluator}

section Access

/-- An evaluator of a tenant is handed out and kept; the other tenants' stay as they are. -/
structure Keeps (engine : Engine) (tenant : TenantId) (found : Evaluator) (after : Engine) : Prop where
  commons : after.commons = engine.commons
  own : after.evaluator? tenant = some found
  others : ∀ other, other ≠ tenant → after.evaluator? other = engine.evaluator? other

theorem keeps_rebuild (unhurried : engine.Unhurried) (given : engine.built tenant = .ok fresh) :
    ∃ after, rebuild tenant engine = (.ok fresh, after) ∧ engine.Keeps tenant fresh after := by
  obtain ⟨timing, _, rebuilt⟩ := rebuild_of_unhurried unhurried tenant
  rw [given] at rebuilt
  exact ⟨_, rebuilt, rfl, Table.get?_put_self .., fun _ apart => Table.get?_put_of_ne _ _ apart⟩

/-- The evaluator that is handed out is the one that is kept or a new one, and not stale. -/
theorem keeps_evaluator (unhurried : engine.Unhurried) (given : engine.built tenant = .ok fresh) :
    ∃ found after, evaluator tenant engine = (.ok found, after) ∧ engine.Keeps tenant found after ∧
      found.isStale engine.now = false ∧
        (found = fresh ∨ engine.evaluator? tenant = some found) := by
  obtain ⟨waited, free, waits⟩ := waitUntil_of_unhurried (ε := EvaluatorError) unhurried
    (engine.timing.afterBuild tenant)
  let ready := engine.withTiming waited
  have current := isStale_of_built given
  obtain ⟨after, rebuilt, keeps⟩ := @keeps_rebuild ready tenant fresh free given
  have renewed : engine.Keeps tenant fresh after := ⟨keeps.commons, keeps.own, keeps.others⟩
  unfold evaluator awaitBuild
  rw [bind_apply, bind_apply, state_apply]
  dsimp only
  rw [waits]
  dsimp only
  rw [bind_apply, state_apply]
  dsimp only
  cases resident : (engine.withTiming waited).evaluator? tenant with
  | none => exact ⟨fresh, after, rebuilt, renewed, current, Or.inl rfl⟩
  | some kept =>
    dsimp only
    cases stale : kept.isStale (engine.withTiming waited).now with
    | false => exact ⟨kept, ready, rfl, ⟨rfl, resident, fun _ _ => rfl⟩, stale, Or.inr resident⟩
    | true =>
      refine ⟨fresh, after, ?_, renewed, current, Or.inl rfl⟩
      rw [if_pos rfl, bind_apply]
      unfold Act.attempt
      rw [rebuilt]
      rfl

end Access

section Readings

/-- The clock is read anew for each question. -/
def answer (engine : Engine) (reading : Reading) : Outcome EvaluatorError Evaluation × Engine :=
  enforce reading.tenant reading.subject reading.service reading.object reading.action
    (engine.setClock reading.now).newCall

/-- The engine after questions, one after the other. -/
def afterReadings (engine : Engine) (readings : List Reading) : Engine :=
  readings.foldl (fun engine reading => (engine.answer reading).2) engine

/-- The store is as it was, and every evaluator was built from it at one of the readings for its
tenant. -/
structure Dated (store : RuleStore) (readings : List Reading) (engine : Engine) : Prop where
  unchanged : engine.commons.store = store
  built : ∀ tenant evaluator, engine.evaluator? tenant = some evaluator →
    Evaluator.build tenant (store.law tenant) evaluator.builtAt = .ok evaluator
  read : ∀ tenant evaluator, engine.evaluator? tenant = some evaluator →
    ∃ past ∈ readings, past.tenant = tenant ∧ past.now = evaluator.builtAt

variable {store : RuleStore} {readings : List Reading}

theorem dated_of_unbuilt (unbuilt : engine.own.evaluators = []) :
    Dated engine.commons.store [] engine := by
  have none (tenant : TenantId) (evaluator : Evaluator)
      (present : engine.evaluator? tenant = some evaluator) : False := by
    rw [evaluator?, unbuilt] at present
    cases present
  exact ⟨rfl, fun tenant evaluator present => (none tenant evaluator present).elim,
    fun tenant evaluator present => (none tenant evaluator present).elim⟩

/-- An answer is that of the evaluator that is kept from then on. -/
theorem Dated.answer (dated : Dated store readings engine) (available : store.available = true)
    (closing : ∀ rule ∈ store.rows.values, rule.closes) (reading : Reading) :
    ∃ kept after, engine.answer reading = (.ok (reading.ask kept), after) ∧
      Dated store (readings ++ [reading]) after ∧ after.evaluator? reading.tenant = some kept ∧
        kept.isStale reading.now = false := by
  let asked := (engine.setClock reading.now).newCall
  obtain ⟨fresh, compiled⟩ := Evaluator.build_of_closes
    (fun rule member => closing rule (List.mem_filter.mp member).1 : ∀ rule ∈
      store.law reading.tenant, rule.closes) reading.tenant reading.now
  have found : asked.commons.store.find (RuleFilter.ofTenant reading.tenant) =
      .ok (store.law reading.tenant) := by
    change engine.commons.store.find _ = _
    rw [dated.unchanged]
    simp [RuleStore.find, available, RuleStore.filter_accepts_ofTenant]
  have given : asked.built reading.tenant = .ok fresh := by
    have now : asked.now = reading.now := rfl
    unfold Engine.built
    rw [found, now]
    dsimp only
    rw [compiled]
  obtain ⟨kept, after, handed, keeps, current, source⟩ :=
    keeps_evaluator (unhurried_newCall _) given
  have before (tenant : TenantId) : asked.evaluator? tenant = engine.evaluator? tenant := rfl
  have dates : Evaluator.build reading.tenant (store.law reading.tenant) kept.builtAt = .ok kept ∧
      ∃ past ∈ readings ++ [reading], past.tenant = reading.tenant ∧ past.now = kept.builtAt := by
    rcases source with rfl | resident
    · have date := Evaluator.build_builtAt compiled
      exact ⟨date ▸ compiled, reading, by simp, rfl, date.symm⟩
    · rw [before] at resident
      obtain ⟨past, member, own, date⟩ := dated.read _ _ resident
      exact ⟨dated.built _ _ resident, past, List.mem_append_left _ member, own, date⟩
  refine ⟨kept, after, ?_, ⟨?_, ?_, ?_⟩, keeps.own, current⟩
  · unfold Engine.answer enforce
    rw [bind_pure_apply, handed]
    rfl
  · rw [keeps.commons]
    exact dated.unchanged
  · intro tenant evaluator present
    by_cases own : tenant = reading.tenant
    · subst own
      rw [keeps.own] at present
      cases present
      exact dates.1
    · rw [keeps.others tenant own, before] at present
      exact dated.built tenant evaluator present
  · intro tenant evaluator present
    by_cases own : tenant = reading.tenant
    · subst own
      rw [keeps.own] at present
      cases present
      exact dates.2
    · rw [keeps.others tenant own, before] at present
      obtain ⟨past, member, same⟩ := dated.read tenant evaluator present
      exact ⟨past, List.mem_append_left _ member, same⟩

theorem Dated.afterReadings (dated : Dated store readings engine) (available : store.available = true)
    (closing : ∀ rule ∈ store.rows.values, rule.closes) (more : List Reading) :
    Dated store (readings ++ more) (engine.afterReadings more) := by
  induction more generalizing engine readings with
  | nil =>
    rw [List.append_nil]
    exact dated
  | cons reading rest ih =>
    obtain ⟨_, after, answered, next, _⟩ := dated.answer available closing reading
    have later := ih next
    rw [List.append_assoc] at later
    unfold Engine.afterReadings
    rw [List.foldl_cons, answered]
    exact later

/-- Questions to evaluators that were built for them, at readings that may go back: every answer is that of
an evaluator built from the store at one of the readings for the tenant. It is the answer of one that is
built now, and rests on rules in force now, unless a rule of the tenant counts differently at the two
instants; and none does unless the clock has gone behind the build. -/
theorem answer_as_of_build (available : engine.commons.store.available = true)
    (closing : ∀ rule ∈ engine.commons.store.rows.values, rule.closes)
    (unbuilt : engine.own.evaluators = []) (earlier : List Reading) (reading : Reading)
    (ordinary : reading.now.isLeap = false) :
    ∃ kept fresh : Evaluator,
      ((engine.afterReadings earlier).answer reading).1 = .ok (reading.ask kept) ∧
      (∃ past ∈ earlier ++ [reading], past.tenant = reading.tenant ∧ past.now = kept.builtAt) ∧
      Evaluator.build reading.tenant (engine.commons.store.law reading.tenant) kept.builtAt = .ok kept ∧
      Evaluator.build reading.tenant (engine.commons.store.law reading.tenant) reading.now =
        .ok fresh ∧
      (SomeFlips (engine.commons.store.law reading.tenant) kept.builtAt reading.now →
        reading.now < kept.builtAt) ∧
      (¬ SomeFlips (engine.commons.store.law reading.tenant) kept.builtAt reading.now →
        reading.ask kept = { reading.ask fresh with validUntil := kept.nextTransition } ∧
        ∀ id ∈ (reading.ask kept).matchedRules, ∃ rule, rule.id = id ∧
          InForce reading.tenant (engine.commons.store.law reading.tenant) reading.now rule) := by
  have dated := (dated_of_unbuilt unbuilt).afterReadings available closing earlier
  obtain ⟨kept, after, answered, next, resident, current⟩ := dated.answer available closing reading
  have built := next.built reading.tenant kept resident
  obtain ⟨fresh, compiled⟩ := Evaluator.build_of_closes
    (fun rule member => closing rule (List.mem_filter.mp member).1 : ∀ rule ∈
      engine.commons.store.law reading.tenant, rule.closes) reading.tenant reading.now
  refine ⟨kept, fresh, by rw [answered], next.read reading.tenant kept resident, built, compiled, ?_, ?_⟩
  · intro flips
    rw [← Instant.not_le]
    exact fun order => Evaluator.not_someFlips_of_build built current ordinary order flips
  · intro same
    have alike := Evaluator.enforce_eq_of_not_someFlips built compiled same reading.subject
      reading.service reading.object reading.action
    refine ⟨alike, fun id cited => ?_⟩
    unfold Reading.ask at cited
    rw [alike] at cited
    obtain ⟨rule, counts, own⟩ := Evaluator.inForce_of_matched compiled cited
    exact ⟨rule, own, counts⟩

end Readings

section Witnesses

/-- Rule 1 is the only one: ann may read orders from the tenth to the twentieth second. -/
def briefly : Engine :=
  ⟨⟨⟨[(⟨1⟩, { briefGrant with id := ⟨1⟩ })], ⟨2⟩, true⟩, .empty, false, .epoch, 0⟩,
    .start ⟨1⟩ .default [] false, .start⟩

def instantOf (second : Fin 60) : Instant where
  second := second
  nano := 0
  second_in_calendar := by
    have := second.isLt
    unfold Calendar.firstSecond Calendar.lastSecond
    omega
  nano_lt := Instant.epoch.nano_lt
  leap_ends_minute := fun late => absurd late (by decide)

/-- Ann asks at a second whether she may read an order. -/
def annAsksAt (second : Fin 60) : Reading :=
  ⟨instantOf second, ⟨1⟩, "ann", "orders", "/orders/7", "read"⟩

/-- The rules that an answer rests on, if it allows. -/
def allowing? : Outcome EvaluatorError Evaluation → Option (List RuleId)
  | .ok evaluation => if evaluation.allowed then some evaluation.matchedRules else none
  | _ => none

theorem exists_of_allowing? {outcome : Outcome EvaluatorError Evaluation} {ids : List RuleId}
    (allows : allowing? outcome = some ids) : ∃ evaluation, outcome = .ok evaluation ∧
      evaluation.allowed = true ∧ evaluation.matchedRules = ids := by
  unfold allowing? at allows
  split at allows
  · rename_i evaluation
    split at allows
    · rename_i allowed
      exact ⟨evaluation, rfl, allowed, Option.some.inj allows⟩
    · cases allows
  · cases allows

theorem closing_briefly : ∀ rule ∈ briefly.commons.store.rows.values, rule.closes := by
  decide

/-- The clock goes back to an instant within the window. -/
theorem answer_as_of_build_within : briefly.commons.store.available = true ∧
    (∀ rule ∈ briefly.commons.store.rows.values, rule.closes) ∧
    briefly.own.evaluators = [] ∧ (annAsksAt 12).now.isLeap = false ∧
    ∃ kept fresh : Evaluator,
      ((briefly.afterReadings [annAsksAt 15]).answer (annAsksAt 12)).1 = .ok ((annAsksAt 12).ask kept) ∧
      Evaluator.build ⟨1⟩ (briefly.commons.store.law ⟨1⟩) (annAsksAt 12).now = .ok fresh ∧
      (annAsksAt 12).ask kept = { (annAsksAt 12).ask fresh with validUntil := kept.nextTransition } := by
  obtain ⟨kept, fresh, answered, ⟨past, member, _, date⟩, _, compiled, _, right⟩ :=
    @answer_as_of_build briefly rfl closing_briefly rfl [annAsksAt 15] (annAsksAt 12) rfl
  refine ⟨rfl, closing_briefly, rfl, rfl, kept, fresh, answered, compiled, (right ?_).1⟩
  have steady : ∀ past ∈ [annAsksAt 15] ++ [annAsksAt 12], ∀ rule ∈ briefly.commons.store.law ⟨1⟩,
      rule.isActive (annAsksAt 12).now = rule.isActive past.now := by decide
  rintro ⟨rule, stored, flips⟩
  exact flips (date ▸ steady past member rule stored)

/-- The clock goes back behind the window, and the rule goes on counting. -/
theorem counted_before_window : briefly.commons.store.available = true ∧
    (∀ rule ∈ briefly.commons.store.rows.values, rule.closes) ∧ briefly.own.evaluators = [] ∧
    (annAsksAt 15).now.isLeap = false ∧ (annAsksAt 5).now.isLeap = false ∧
    (∃ fresh, Evaluator.build ⟨1⟩ (briefly.commons.store.law ⟨1⟩) (annAsksAt 5).now = .ok fresh ∧
      ((annAsksAt 5).ask fresh).allowed = false) ∧
    ∃ evaluation, ((briefly.afterReadings [annAsksAt 15]).answer (annAsksAt 5)).1 = .ok evaluation ∧
      evaluation.allowed = true ∧ evaluation.matchedRules = [⟨1⟩] := by
  have allows : allowing? ((briefly.afterReadings [annAsksAt 15]).answer (annAsksAt 5)).1 =
      some [⟨1⟩] := by
    decide +kernel
  exact ⟨rfl, closing_briefly, rfl, rfl, rfl, ⟨_, rfl, by decide +kernel⟩, exists_of_allowing? allows⟩

end Witnesses

end Engine

end AccessPolicy
