import AccessPolicy.Proofs.Engine.Owing

/-!
Asking for an evaluator. Where every resident evaluator is of some kind, and one that is built from the
store is, the evaluator that is handed out is of that kind too, and is not stale.
-/
namespace AccessPolicy

namespace Engine

open Act hiding pure bind state

/-- Nothing but time has passed and evaluators of a kind have come. -/
structure Tends (kind : TenantId → Evaluator → Prop) (base engine : Engine) : Prop where
  evolves : ∃ evaluators timing, engine = (base.withEvaluators evaluators).withTiming timing
  kinds : ∀ tenant evaluator, engine.evaluator? tenant = some evaluator → kind tenant evaluator
  paced : Paced (Regime.steady False) engine.timing

variable {ε : Type} {kind : TenantId → Evaluator → Prop} {base engine : Engine} {tenant : TenantId}

namespace Tends

theorem commons (tends : Tends kind base engine) : engine.commons = base.commons := by
  obtain ⟨evaluators, timing, same⟩ := tends.evolves
  rw [same]
  rfl

theorem withTiming (tends : Tends kind base engine) {timing : Timing}
    (paced : Paced (Regime.steady False) timing) : Tends kind base (engine.withTiming timing) := by
  obtain ⟨evaluators, _, rfl⟩ := tends.evolves
  exact ⟨⟨evaluators, timing, rfl⟩, tends.kinds, paced⟩

theorem endBuild (tends : Tends kind base engine) (tenant : TenantId) :
    Tends kind base (engine.withTiming (engine.timing.endBuild tenant)) :=
  tends.withTiming ⟨tends.paced.deadline, tends.paced.last⟩

theorem put (tends : Tends kind base engine) {evaluator : Evaluator} (right : kind tenant evaluator) :
    Tends kind base (engine.withEvaluators (engine.own.evaluators.put tenant evaluator)) := by
  have kinds := tends.kinds
  obtain ⟨_, timing, rfl⟩ := tends.evolves
  refine ⟨⟨_, timing, rfl⟩, ?_, tends.paced⟩
  intro other found resident
  by_cases same : other = tenant
  · have resident : (Table.put _ tenant evaluator).get? other = some found := resident
    rw [same, Table.get?_put_self] at resident
    cases resident
    exact same ▸ right
  · have resident : (Table.put _ tenant evaluator).get? other = some found := resident
    rw [Table.get?_put_of_ne _ _ same] at resident
    exact kinds other found resident

theorem waitUntil (tends : Tends kind base engine) (moment : Nat) :
    Yields (Tends kind base) False (waitUntil moment : Act Engine ε Unit) engine
      (fun _ _ => True) := by
  have after := tends.withTiming (paced_goTo tends.paced moment)
  apply (leads_waitUntil tends.paced moment).mono
  · intro _ _ same
    exact ⟨trivial, same ▸ after⟩
  · exact fun _ _ impossible => impossible
  · exact fun _ ends => absurd ends.1 (not_hurried_steady False)

theorem timingBuild {action : Act Engine ε Evaluator} {right : Evaluator → Prop}
    (yields : Yields (Tends kind base) False action engine (fun evaluator _ => right evaluator)) :
    Yields (Tends kind base) False (timingBuild tenant action) engine
      (fun evaluator _ => right evaluator) := by
  unfold Yields Leads Ends Engine.timingBuild at *
  generalize action engine = result at yields ⊢
  obtain ⟨outcome, final⟩ := result
  cases outcome with
  | ok value => exact ⟨yields.1, yields.2.endBuild tenant⟩
  | error cause => exact yields
  | halted cause => exact yields.1.elim

section Building

variable (sound : base.commons.store.Sound) (tends : Tends kind base engine)
include sound tends

theorem find (filter : RuleFilter) :
    Yields (Tends kind base) False (find filter) engine
      (fun rules _ => rules = base.commons.store.rows.values.filter filter.accepts) := by
  have found : engine.commons.store.find filter =
      .ok (base.commons.store.rows.values.filter filter.accepts) := by
    rw [tends.commons]
    simp [RuleStore.find, sound.available]
  apply yields_read
  apply (tends.waitUntil _).bind
  intro _ after kept _
  rw [found]
  exact yields_pure kept rfl

theorem buildEvaluator (tenant : TenantId) :
    Yields (Tends kind base) False (buildEvaluator tenant) engine
      (fun evaluator _ => evaluator.Renders (base.commons.store.law tenant) base.now ∧
        evaluator.isStale base.now = false) := by
  have now : engine.now = base.now := congrArg Commons.now tends.commons
  apply yields_read
  apply ((tends.find sound _).mapError _).bind
  intro rules after kept found
  have law : rules = base.commons.store.law tenant :=
    found.trans (RuleStore.filter_accepts_ofTenant _ _)
  have closing : ∀ rule ∈ rules, rule.closes := by
    intro rule member
    exact sound.closes_of_mem_law (law ▸ member)
  obtain ⟨evaluator, built⟩ := Evaluator.build_of_closes closing tenant base.now
  have owned : rules.filter (·.tenant = tenant) = base.commons.store.law tenant := by
    rw [law, RuleStore.filter_law]
  rw [now, built]
  apply yields_pure kept
  refine ⟨⟨?_, ?_⟩, Evaluator.isStale_of_build built⟩
  · exact owned ▸ Evaluator.follows_of_build built
  · exact owned ▸ Evaluator.mirrors_of_build built

variable (fresh : ∀ tenant evaluator, evaluator.Renders (base.commons.store.law tenant) base.now →
  kind tenant evaluator)
include fresh

theorem rebuild (tenant : TenantId) :
    Yields (Tends kind base) False (rebuild tenant) engine
      (fun evaluator _ => kind tenant evaluator ∧ evaluator.isStale base.now = false) := by
  have builds : Yields (Tends kind base) False
      (Engine.buildEvaluator tenant >>= fun evaluator =>
        setEvaluator tenant evaluator >>= fun _ => Pure.pure evaluator) engine
      (fun evaluator _ => kind tenant evaluator ∧ evaluator.isStale base.now = false) := by
    apply (tends.buildEvaluator sound tenant).bind
    intro evaluator after kept ⟨renders, exact_now⟩
    have right := fresh tenant evaluator renders
    exact leads_bind (leads_modify (yields_pure (kept.put right) ⟨right, exact_now⟩))
  exact timingBuild builds

/-- The evaluator that is handed out is of the kind, and not stale. -/
theorem evaluator (tenant : TenantId) :
    Yields (Tends kind base) False (evaluator tenant) engine
      (fun evaluator _ => kind tenant evaluator ∧ evaluator.isStale base.now = false) := by
  have awaits : Yields (Tends kind base) False
      (awaitBuild tenant : Act Engine EvaluatorError Unit) engine (fun _ _ => True) :=
    yields_read (tends.waitUntil _)
  apply awaits.bind
  intro _ after kept _
  have now : after.now = base.now := congrArg Commons.now kept.commons
  apply yields_read
  cases resident : after.evaluator? tenant with
  | none => exact kept.rebuild sound fresh tenant
  | some found =>
    dsimp only
    split
    · apply (kept.rebuild sound fresh tenant).attempt.bind
      rintro _ final kept ⟨built, rfl, right⟩
      exact yields_pure kept right
    · rename_i current
      apply yields_pure kept
      rw [Bool.not_eq_true, now] at current
      exact ⟨kept.kinds tenant found resident, current⟩

theorem ask {α : Type} (tenant : TenantId) (ask : Evaluator → α) :
    Yields (Tends kind base) False (do Pure.pure (ask (← Engine.evaluator tenant))) engine
      (fun answer _ => ∃ evaluator, answer = ask evaluator ∧ kind tenant evaluator ∧
        evaluator.isStale base.now = false) := by
  apply (tends.evaluator sound fresh tenant).bind
  intro evaluator _ kept right
  exact yields_pure kept ⟨evaluator, rfl, right⟩

end Building

end Tends

namespace Owing

variable {owes : Owed → Prop} {excused : Rule → Prop} {after : Engine}

theorem tends (owing : Owing owes excused engine) :
    Tends (Goes owes excused engine) engine engine :=
  ⟨⟨_, _, rfl⟩, owing.goes, owing.paced⟩

theorem of_tends (owing : Owing owes excused engine)
    (tends : Tends (Goes owes excused engine) engine after) : Owing owes excused after := by
  have commons := tends.commons
  have now : after.now = engine.now := congrArg Commons.now commons
  have store : after.commons.store = engine.commons.store := congrArg Commons.store commons
  refine ⟨store ▸ owing.sound, tends.paced, now ▸ owing.fair, owing.proper, ?_, owing.pardoned, ?_⟩
  · rw [store, now]
    exact owing.honest
  · intro tenant evaluator resident
    unfold Goes
    rw [store, now]
    exact tends.kinds tenant evaluator resident

theorem goes_of_renders (owing : Owing owes excused engine) (tenant : TenantId)
    (evaluator : Evaluator)
    (renders : evaluator.Renders (engine.commons.store.law tenant) engine.now) :
    Goes owes excused engine tenant evaluator :=
  ⟨_, renders.follows, Drifts.refl (owing.honest tenant)
    (fun _ member _ => owing.sound.single member) owing.sound.owned⟩

/-- What is asked of an engine that owes calls is answered by an evaluator that drifts at most. -/
theorem ask (owing : Owing owes excused engine) {α : Type} (tenant : TenantId)
    (ask : Evaluator → α) :
    Ensures (do Pure.pure (ask (← evaluator tenant))) engine (fun answer after =>
      Tends (Goes owes excused engine) engine after ∧
      ∃ evaluator, answer = ask evaluator ∧ Goes owes excused engine tenant evaluator ∧
        evaluator.isStale engine.now = false) := by
  have asked := owing.tends.ask owing.sound owing.goes_of_renders tenant ask
  apply (asked.ensures id).mono
  exact fun _ _ ends => ⟨ends.2, ends.1⟩

/-- The cache is invalidated for the whole tenant, or for the subjects that inherit from the rule's,
as an evaluator says that drifts at most. -/
theorem ensures_invalidateFor (owing : Owing owes excused engine) (rule : Rule) :
    Ensures (invalidateFor rule : Act Engine ε Unit) engine (fun _ after =>
      ∃ middle, Tends (Goes owes excused engine) engine middle ∧
        (after = middle.withCache (middle.own.cache.invalidateTenant rule.tenant).2 ∨
          ∃ subject evaluator, affectedSubject? rule = some subject ∧
            Goes owes excused engine rule.tenant evaluator ∧
            evaluator.isStale engine.now = false ∧
            after = middle.withCache (middle.own.cache.invalidateSubjects rule.tenant
              (subject :: evaluator.dependentsOf subject)).2)) := by
  unfold invalidateFor
  cases affected : affectedSubject? rule with
  | none => exact leads_bind (leads_onCache (leads_pure ⟨engine, owing.tends, Or.inl rfl⟩))
  | some subject =>
    have asked := owing.ask rule.tenant fun evaluator => subject :: evaluator.dependentsOf subject
    apply asked.attempt.bind
    rintro _ middle ⟨_, rfl, tends, evaluator, rfl, goes, current⟩
    apply leads_bind
    apply leads_onCache
    exact leads_pure ⟨middle, tends, Or.inr ⟨subject, evaluator, rfl, goes, current, rfl⟩⟩

end Owing

end Engine

end AccessPolicy
