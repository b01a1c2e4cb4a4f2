import AccessPolicy.Proofs.Act
import AccessPolicy.Proofs.DecisionCache.Recalls
import AccessPolicy.Proofs.RuleStore

/-!
The evaluators of an engine follow the stored rules: building, reloading and dropping one, and
carrying a write into it, whether it succeeds or not.
-/
namespace AccessPolicy

/-- Holds what the rules make now, and goes on following them. -/
structure Evaluator.Renders (evaluator : Evaluator) (rules : List Rule) (now : Instant) : Prop where
  follows : evaluator.Follows rules now
  mirrors : evaluator.Mirrors rules now

namespace Engine

open Act hiding pure bind state

/-- What an engine is held to. -/
structure Regime where
  /-- The tenants whose evaluators and cached answers have to be right. -/
  current : TenantId → Prop
  /-- Cached answers have to be right at all. -/
  cached : Prop
  /-- Those that need not be right even so. -/
  stale : TenantId → Topic → Prop
  /-- Enrichers may add to decisions. -/
  enriched : Prop
  /-- A check may have a deadline. -/
  timed : Prop
  /-- A call may end early. -/
  brief : Prop

/-- Actions may halt. -/
def Regime.hurried (regime : Regime) : Prop :=
  regime.timed ∨ regime.brief

/-- One tenant more has to be right. -/
def Regime.including (regime : Regime) (tenant : TenantId) : Regime :=
  { regime with current := fun other => regime.current other ∨ other = tenant }

/-- The tenants but one. -/
def Without (current : TenantId → Prop) (tenant : TenantId) : TenantId → Prop :=
  fun other => current other ∧ other ≠ tenant

/-- The evaluators of the current tenants follow the tenants' rules. -/
def Tracks (current : TenantId → Prop) (laws : TenantId → List Rule) (now : Instant)
    (evaluators : Table TenantId Evaluator) : Prop :=
  ∀ tenant, current tenant → ∀ evaluator, evaluators.get? tenant = some evaluator →
    evaluator.Follows (laws tenant) now

section Tracks

variable {current fewer : TenantId → Prop} {laws others : TenantId → List Rule}
variable {now later : Instant} {evaluators : Table TenantId Evaluator} {tenant : TenantId}

theorem tracks_nil (current : TenantId → Prop) (laws : TenantId → List Rule) (now : Instant) :
    Tracks current laws now [] := by
  intro tenant _ evaluator present
  cases present

theorem Tracks.mono (tracks : Tracks current laws now evaluators)
    (less : ∀ tenant, fewer tenant → current tenant) : Tracks fewer laws now evaluators :=
  fun tenant member => tracks tenant (less tenant member)

theorem Tracks.without (tracks : Tracks current laws now evaluators) (tenant : TenantId) :
    Tracks (Without current tenant) laws now evaluators :=
  tracks.mono fun _ member => member.1

theorem Tracks.put (tracks : Tracks (Without current tenant) laws now evaluators)
    {evaluator : Evaluator} (follows : current tenant → evaluator.Follows (laws tenant) now) :
    Tracks current laws now (evaluators.put tenant evaluator) := by
  intro other member found present
  by_cases same : other = tenant
  · subst same
    rw [Table.get?_put_self, Option.some.injEq] at present
    exact present ▸ follows member
  · rw [Table.get?_put_of_ne _ _ same] at present
    exact tracks other ⟨member, same⟩ found present

theorem Tracks.put_without (tracks : Tracks (Without current tenant) laws now evaluators)
    (evaluator : Evaluator) :
    Tracks (Without current tenant) laws now (evaluators.put tenant evaluator) := by
  intro other member found present
  rw [Table.get?_put_of_ne _ _ member.2] at present
  exact tracks other member found present

theorem Tracks.erase (tracks : Tracks (Without current tenant) laws now evaluators) :
    Tracks current laws now (evaluators.erase tenant) := by
  intro other member found present
  by_cases same : other = tenant
  · rw [same, Table.get?_erase_self] at present
    cases present
  · rw [Table.get?_erase_of_ne _ same] at present
    exact tracks other ⟨member, same⟩ found present

theorem Tracks.of_get?_eq_none (tracks : Tracks (Without current tenant) laws now evaluators)
    (absent : evaluators.get? tenant = none) : Tracks current laws now evaluators := by
  intro other member found present
  by_cases same : other = tenant
  · rw [same, absent] at present
    cases present
  · exact tracks other ⟨member, same⟩ found present

theorem Tracks.alike (tracks : Tracks current laws now evaluators)
    (alike : ∀ tenant, current tenant → AlikeRules now (laws tenant) (others tenant)) :
    Tracks current others now evaluators :=
  fun tenant member found present =>
    (tracks tenant member found present).alike (alike tenant member)

theorem Tracks.after (tracks : Tracks current laws now evaluators) (order : now ≤ later)
    (ordinary : later.isLeap = false) : Tracks current laws later evaluators :=
  fun tenant member found present => (tracks tenant member found present).after order ordinary

end Tracks

/-- There is a deadline, and an early end of the call, only where there may be. -/
structure Paced (regime : Regime) (timing : Timing) : Prop where
  deadline : ¬ regime.timed → timing.deadline = none
  last : ¬ regime.brief → timing.last = none

/-- Calls that may end at any moment. -/
def Regime.pressed : Regime :=
  ⟨fun _ => False, False, NoneStale, False, True, True⟩

theorem paced_pressed (timing : Timing) : Paced .pressed timing :=
  ⟨fun leisure => absurd trivial leisure, fun leisure => absurd trivial leisure⟩

/-- An engine whose evaluators follow the stored rules. It differs from an earlier state in nothing
but its evaluators and the time taken. -/
structure Attends (regime : Regime) (base engine : Engine) : Prop where
  evolves : ∃ evaluators timing, engine = (base.withEvaluators evaluators).withTiming timing
  tracks : Tracks regime.current base.commons.store.law base.now engine.own.evaluators
  paced : Paced regime engine.timing

variable {ε : Type} {regime : Regime} {base engine : Engine}

theorem Attends.commons (attends : Attends regime base engine) : engine.commons = base.commons := by
  obtain ⟨evaluators, timing, rfl⟩ := attends.evolves
  rfl

theorem Attends.retrack (attends : Attends regime base engine) {current : TenantId → Prop}
    (tracks : Tracks current base.commons.store.law base.now engine.own.evaluators) :
    Attends { regime with current := current } base engine :=
  ⟨attends.evolves, tracks, ⟨attends.paced.deadline, attends.paced.last⟩⟩

theorem Attends.mono (attends : Attends regime base engine) {fewer : TenantId → Prop}
    (less : ∀ tenant, fewer tenant → regime.current tenant) :
    Attends { regime with current := fewer } base engine :=
  attends.retrack (attends.tracks.mono less)

theorem Attends.withTiming (attends : Attends regime base engine) {timing : Timing}
    (paced : Paced regime timing) : Attends regime base (engine.withTiming timing) := by
  obtain ⟨evaluators, _, rfl⟩ := attends.evolves
  exact ⟨⟨evaluators, timing, rfl⟩, attends.tracks, paced⟩

theorem Attends.endBuild (attends : Attends regime base engine) (tenant : TenantId) :
    Attends regime base (engine.withTiming (engine.timing.endBuild tenant)) :=
  attends.withTiming ⟨attends.paced.deadline, attends.paced.last⟩

theorem Attends.withEvaluators (attends : Attends regime base engine)
    {evaluators : Table TenantId Evaluator} {current : TenantId → Prop}
    (tracks : Tracks current base.commons.store.law base.now evaluators) :
    Attends { regime with current := current } base (engine.withEvaluators evaluators) := by
  obtain ⟨_, timing, rfl⟩ := attends.evolves
  exact ⟨⟨evaluators, timing, rfl⟩, tracks, ⟨attends.paced.deadline, attends.paced.last⟩⟩

section Time

theorem hurried_of_goTo {timing : Timing} (paced : Paced regime timing) {moment : Nat}
    {cause : Halt} (halts : (timing.goTo moment).1 = some cause) : regime.hurried := by
  refine Classical.byContradiction fun leisure => ?_
  obtain ⟨untimed, whole⟩ := not_or.mp leisure
  simp [Timing.goTo, paced.deadline untimed, paced.last whole] at halts

theorem paced_goTo {timing : Timing} (paced : Paced regime timing) (moment : Nat) :
    Paced regime (timing.goTo moment).2 :=
  ⟨paced.deadline, paced.last⟩

theorem waitUntil_apply (moment : Nat) (engine : Engine) :
    (waitUntil moment : Act Engine ε Unit) engine =
      (match (engine.timing.goTo moment).1 with
        | some cause => .halted cause
        | none => .ok (), engine.withTiming (engine.timing.goTo moment).2) := rfl

theorem leads_waitUntil (paced : Paced regime engine.timing) (moment : Nat) :
    Leads (waitUntil moment : Act Engine ε Unit) engine
      (fun _ after => after = engine.withTiming (engine.timing.goTo moment).2)
      (fun _ _ => False)
      (fun after => regime.hurried ∧ after = engine.withTiming (engine.timing.goTo moment).2) := by
  unfold Leads Ends
  rw [waitUntil_apply]
  cases halts : (engine.timing.goTo moment).1 with
  | none => rfl
  | some cause => exact ⟨hurried_of_goTo paced halts, rfl⟩

theorem yields_waitUntil (attends : Attends regime base engine) (moment : Nat) :
    Yields (Attends regime base) regime.hurried (waitUntil moment : Act Engine ε Unit) engine
      (fun _ _ => True) := by
  have after := attends.withTiming (paced_goTo attends.paced moment)
  refine (leads_waitUntil attends.paced moment).mono ?_ (fun _ _ impossible => impossible) ?_
  · rintro _ _ rfl
    exact ⟨trivial, after⟩
  · rintro _ ⟨hurried, rfl⟩
    exact ⟨hurried, after⟩

/-- When a build ended is noted whatever the outcome. -/
theorem leads_timingBuild {α : Type} {action : Act Engine ε α} {tenant : TenantId}
    {after : α → Engine → Prop} {failed : ε → Engine → Prop} {halted : Engine → Prop}
    (leads : Leads action engine after failed halted)
    (value : ∀ value final, after value final →
      after value (final.withTiming (final.timing.endBuild tenant)))
    (failure : ∀ cause final, failed cause final →
      failed cause (final.withTiming (final.timing.endBuild tenant)))
    (halt : ∀ final, halted final → halted (final.withTiming (final.timing.endBuild tenant))) :
    Leads (timingBuild tenant action) engine after failed halted := by
  unfold Leads Ends timingBuild at *
  generalize action engine = result at leads ⊢
  obtain ⟨outcome, final⟩ := result
  cases outcome with
  | ok found => exact value found final leads
  | error cause => exact failure cause final leads
  | halted cause => exact halt final leads

theorem yields_timingBuild {α : Type} {action : Act Engine ε α} {tenant : TenantId}
    {after : α → Engine → Prop} (yields : Yields (Attends regime base) regime.hurried action engine after)
    (noted : ∀ value engine, after value engine →
      after value (engine.withTiming (engine.timing.endBuild tenant))) :
    Yields (Attends regime base) regime.hurried (timingBuild tenant action) engine after :=
  leads_timingBuild yields (fun value final ends => ⟨noted value final ends.1, ends.2.endBuild tenant⟩)
    (fun _ _ impossible => impossible) fun _ ends => ⟨ends.1, ends.2.endBuild tenant⟩

end Time

theorem mem_residents {tenant : TenantId} {evaluator : Evaluator}
    (present : engine.evaluator? tenant = some evaluator) : tenant ∈ engine.residents :=
  List.mem_map_of_mem (f := Prod.fst) (Table.mem_of_get? present)

section Building

variable (sound : base.commons.store.Sound) (attends : Attends regime base engine)
include sound attends

theorem yields_find (filter : RuleFilter) :
    Yields (Attends regime base) regime.hurried (find filter) engine
      (fun rules _ => rules = base.commons.store.rows.values.filter filter.accepts) := by
  refine yields_read ?_
  have found : engine.commons.store.find filter =
      .ok (base.commons.store.rows.values.filter filter.accepts) := by
    rw [attends.commons]
    simp [RuleStore.find, sound.available]
  refine (yields_waitUntil attends _).bind fun _ after attends _ => ?_
  rw [found]
  exact yields_pure attends rfl

theorem yields_buildEvaluator (tenant : TenantId) :
    Yields (Attends regime base) regime.hurried (buildEvaluator tenant) engine
      (fun evaluator _ => evaluator.Renders (base.commons.store.law tenant) base.now) := by
  refine yields_read ?_
  have now : engine.now = base.now := congrArg Commons.now attends.commons
  refine ((yields_find sound attends _).mapError _).bind fun rules after attends found => ?_
  have law : rules = base.commons.store.law tenant :=
    found.trans (RuleStore.filter_accepts_ofTenant _ _)
  have closing : ∀ rule ∈ rules, rule.closes := by
    intro rule member
    exact sound.closes_of_mem_law (law ▸ member)
  obtain ⟨evaluator, built⟩ := Evaluator.build_of_closes closing tenant base.now
  have owned : rules.filter (·.tenant = tenant) = base.commons.store.law tenant := by
    rw [law, RuleStore.filter_law]
  rw [now, built]
  refine yields_pure attends ⟨?_, ?_⟩
  · exact owned ▸ Evaluator.follows_of_build built
  · exact owned ▸ Evaluator.mirrors_of_build built

theorem yields_rebuild (tenant : TenantId) :
    Yields (Attends regime base) regime.hurried (rebuild tenant) engine
      (fun evaluator after => evaluator.Renders (base.commons.store.law tenant) base.now ∧
        Attends (regime.including tenant) base after) := by
  apply yields_timingBuild
  · refine (yields_buildEvaluator sound attends tenant).bind fun evaluator after attends renders => ?_
    have tracks : Tracks (regime.including tenant).current base.commons.store.law base.now
        (after.own.evaluators.put tenant evaluator) := by
      refine Tracks.put ?_ fun _ => renders.follows
      rintro other ⟨member | same, different⟩
      · exact attends.tracks other member
      · exact absurd same different
    refine leads_bind (leads_modify ?_)
    have kept := attends.withEvaluators tracks
    exact yields_pure (kept.mono fun _ => Or.inl) ⟨renders, kept⟩
  · rintro evaluator after ⟨renders, kept⟩
    exact ⟨renders, kept.endBuild tenant⟩

/-- The evaluator that is handed out renders the stored rules of a current tenant. -/
theorem yields_evaluator (tenant : TenantId) :
    Yields (Attends regime base) regime.hurried (evaluator tenant) engine
      (fun evaluator _ => regime.current tenant →
        evaluator.Renders (base.commons.store.law tenant) base.now) := by
  refine Yields.bind (yields_read (yields_waitUntil attends _)) fun _ after attends _ => ?_
  refine yields_read ?_
  have now : after.now = base.now := congrArg Commons.now attends.commons
  cases resident : after.evaluator? tenant with
  | none => exact (yields_rebuild sound attends tenant).mono fun _ _ _ ends _ => ends.1
  | some kept =>
    dsimp only
    split
    · refine ((yields_rebuild sound attends tenant).attempt).bind ?_
      rintro _ final attends ⟨fresh, rfl, renders, _⟩
      exact yields_pure attends fun _ => renders
    · rename_i fresh
      refine yields_pure attends fun member => ?_
      have follows := attends.tracks tenant member kept resident
      rw [Bool.not_eq_true, now] at fresh
      exact ⟨follows, follows.mirrors fresh⟩

theorem yields_ask {α : Type} (tenant : TenantId) (ask : Evaluator → α) :
    Yields (Attends regime base) regime.hurried (do pure (ask (← evaluator tenant))) engine
      (fun answer _ => ∃ evaluator : Evaluator, answer = ask evaluator ∧
        (regime.current tenant → evaluator.Renders (base.commons.store.law tenant) base.now)) :=
  (yields_evaluator sound attends tenant).bind fun evaluator _ attends renders =>
    yields_pure attends ⟨evaluator, rfl, renders⟩

/-- A reload brings a tenant's evaluator in line with the store, whatever it was before. -/
theorem yields_reload (tenant : TenantId) :
    Yields (Attends regime base) regime.hurried (reload tenant) engine
      (fun _ after => Attends (regime.including tenant) base after) := by
  refine yields_read ?_
  cases resident : engine.evaluator? tenant with
  | none =>
    refine yields_pure attends (attends.retrack ?_)
    refine Tracks.of_get?_eq_none ?_ resident
    rintro other ⟨member | same, different⟩
    · exact attends.tracks other member
    · exact absurd same different
  | some kept =>
    refine (yields_rebuild sound attends tenant).bind fun _ _ attends ends => ?_
    exact yields_pure attends ends.2

/-- Tenants that are right stay so, and those that are reloaded become right. -/
theorem yields_reloadEach {wanted : TenantId → Prop} (tenants : List TenantId)
    (covered : ∀ tenant, wanted tenant → regime.current tenant ∨ tenant ∈ tenants) :
    Yields (Attends regime base) regime.hurried (reloadEach tenants : Act Engine ε (List TenantId))
      engine (fun _ after => Attends { regime with current := wanted } base after) := by
  induction tenants generalizing regime engine with
  | nil =>
    refine yields_pure attends (attends.mono fun tenant member => ?_)
    exact (covered tenant member).resolve_right List.not_mem_nil
  | cons tenant rest ih =>
    -- Each reload makes one tenant more right, and the others follow under that regime.
    refine ((yields_reload sound attends tenant).attempt).bind ?_
    rintro _ after attends ⟨reloaded, rfl, more⟩
    have others := ih more (fun other member => by
      rcases covered other member with right | listed
      · exact Or.inl (Or.inl right)
      · rcases List.mem_cons.mp listed with same | later
        · exact Or.inl (Or.inr same)
        · exact Or.inr later)
    have others := others.weaken fun final kept =>
      (kept.mono fun _ => Or.inl : Attends regime base final)
    cases reloaded with
    | false => exact others
    | true => exact others.bind fun _ _ attends ends => yields_pure attends ends

theorem yields_reloadAll :
    Yields (Attends regime base) regime.hurried (reloadAll : Act Engine ε (List TenantId)) engine
      (fun _ after => Attends { regime with current := fun _ => True } base after) := by
  have absent : Attends { regime with
      current := fun tenant => regime.current tenant ∨ engine.evaluator? tenant = none } base engine := by
    refine attends.retrack ?_
    rintro tenant (member | absent) found present
    · exact attends.tracks tenant member found present
    · have present : engine.evaluator? tenant = some found := present
      rw [absent] at present
      cases present
  refine yields_read ?_
  refine (yields_reloadEach sound absent _ fun tenant _ => ?_).weaken fun _ kept =>
    kept.mono fun _ => Or.inl
  cases resident : engine.evaluator? tenant with
  | none => exact Or.inl (Or.inr resident)
  | some evaluator => exact Or.inr (mem_residents resident)

end Building

section Writing

variable {current : TenantId → Prop} {laws : TenantId → List Rule} {rules : List Rule} {rule : Rule}

/-- The evaluators have changed and track the laws. -/
def Carried (current : TenantId → Prop) (laws : TenantId → List Rule) (base engine : Engine) :
    Prop :=
  ∃ evaluators, engine = base.withEvaluators evaluators ∧ Tracks current laws base.now evaluators

/-- A tenant's evaluator, if there is one and it has to be right, follows the rules. -/
def Heeds (current : TenantId → Prop) (engine : Engine) (tenant : TenantId) (rules : List Rule) :
    Prop :=
  current tenant → ∀ evaluator, engine.evaluator? tenant = some evaluator →
    evaluator.Follows rules engine.now

theorem tracked_of_closes (closing : rule.closes) (evaluator : Evaluator) (now : Instant) :
    ∃ after, evaluator.track rule now = .ok after ∧
      tracked evaluator rule now = (pure after : Act Engine EvaluatorError Evaluator) := by
  obtain ⟨after, track⟩ := Evaluator.track_of_closes closing evaluator now
  exact ⟨after, track, by rw [tracked, track]⟩

/-- An added rule is followed beside the others; when the evaluator refuses it, other tenants are
right still. -/
theorem leads_addRule (closing : rule.closes)
    (others : Tracks (Without current rule.tenant) laws engine.now engine.own.evaluators)
    (heeds : Heeds current engine rule.tenant rules)
    (added : ∀ other, other ∈ laws rule.tenant ↔ other ∈ rules ∨ other = rule) :
    Leads (addRule rule) engine (fun _ => Carried current laws engine)
      (fun _ => Carried (Without current rule.tenant) laws engine) (fun _ => False) := by
  refine leads_read ?_
  cases resident : engine.evaluator? rule.tenant with
  | none => exact leads_pure ⟨_, rfl, others.of_get?_eq_none resident⟩
  | some kept =>
    obtain ⟨after, track, same⟩ := tracked_of_closes closing kept engine.now
    have follows (member : current rule.tenant) :=
      (heeds member kept resident).add track added
    dsimp only
    rw [same]
    refine leads_bind (leads_pure ?_)
    refine leads_bind (leads_modify ?_)
    split
    · rename_i active
      refine leads_bind (leads_modify ?_)
      refine leads_ofExcept (fun flag accepted => ?_) (fun cause refused => ?_)
      · exact ⟨_, rfl, (others.put_without _).put fun member =>
          (follows member).2 active ⟨flag, accepted⟩⟩
      · exact ⟨_, rfl, (others.put_without _).put_without _⟩
    · rename_i inactive
      refine leads_pure ⟨_, rfl, others.put fun member => ?_⟩
      exact (follows member).1 (Bool.not_eq_true _ ▸ inactive)

theorem leads_removeRule
    (others : Tracks (Without current rule.tenant) laws engine.now engine.own.evaluators)
    (heeds : Heeds current engine rule.tenant rules)
    (single : ∀ one ∈ rules, ∀ other ∈ rules, one.id = other.id → one = other)
    (removed : ∀ other, other ∈ laws rule.tenant ↔ other ∈ rules ∧ other.id ≠ rule.id) :
    Leads (removeRule rule) engine (fun _ => Carried current laws engine)
      (fun _ => Carried (Without current rule.tenant) laws engine) (fun _ => False) := by
  refine leads_read ?_
  cases resident : engine.evaluator? rule.tenant with
  | none => exact leads_pure ⟨_, rfl, others.of_get?_eq_none resident⟩
  | some kept =>
    refine leads_bind (leads_modify ?_)
    refine leads_ofExcept (fun _ _ => ?_) (fun _ _ => ?_)
    · exact ⟨_, rfl, others.put fun member =>
        (heeds member kept resident).remove single removed⟩
    · exact ⟨_, rfl, others.put_without _⟩

theorem leads_replaceRule {previous : Rule} (closing : rule.closes)
    (others : Tracks (Without current rule.tenant) laws engine.now engine.own.evaluators)
    (heeds : Heeds current engine rule.tenant rules)
    (single : ∀ one ∈ rules, ∀ other ∈ rules, one.id = other.id → one = other)
    (replaced : ∀ other, other ∈ laws rule.tenant ↔
      other ∈ rules ∧ other.id ≠ previous.id ∨ other = rule) :
    Leads (replaceRule previous rule) engine (fun _ => Carried current laws engine)
      (fun _ => Carried (Without current rule.tenant) laws engine) (fun _ => False) := by
  refine leads_read ?_
  cases resident : engine.evaluator? rule.tenant with
  | none => exact leads_pure ⟨_, rfl, others.of_get?_eq_none resident⟩
  | some kept =>
    let left := rules.filter (·.id ≠ previous.id)
    have removed : ∀ other, other ∈ left ↔ other ∈ rules ∧ other.id ≠ previous.id := by
      simp [left]
    have added : ∀ other, other ∈ laws rule.tenant ↔ other ∈ left ∨ other = rule := by
      intro other
      rw [replaced, removed]
    obtain ⟨after, track, same⟩ := tracked_of_closes closing (kept.remove previous).2 engine.now
    have follows (member : current rule.tenant) :=
      ((heeds member kept resident).remove single removed).add track added
    dsimp only
    refine leads_bind (leads_modify ?_)
    refine leads_bind (leads_ofExcept (fun flag _ => ?_) (fun _ _ => ?_))
    · rw [same]
      refine leads_bind (leads_pure ?_)
      refine leads_bind (leads_modify ?_)
      split
      · rename_i active
        refine leads_bind (leads_bind (leads_modify ?_))
        refine leads_ofExcept (fun flag accepted => ?_) (fun cause refused => ?_)
        · exact leads_pure ⟨_, rfl, ((others.put_without _).put_without _).put fun member =>
            (follows member).2 active ⟨flag, accepted⟩⟩
        · exact ⟨_, rfl, ((others.put_without _).put_without _).put_without _⟩
      · rename_i inactive
        refine leads_pure ⟨_, rfl, (others.put_without _).put fun member => ?_⟩
        exact (follows member).1 (Bool.not_eq_true _ ▸ inactive)
    · exact ⟨_, rfl, others.put_without _⟩

end Writing

end Engine

end AccessPolicy
