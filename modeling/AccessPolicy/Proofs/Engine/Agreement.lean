import AccessPolicy.Proofs.Engine.Regular
import AccessPolicy.Proofs.Engine.Upright

/-!
The validator and the evaluators agree. What the validator accepts is compiled by any evaluator; what is
stored goes on being accepted, no registry call ever fails, and an evaluator that has been asked for has
compiled exactly the tenant's rules that count.
-/
namespace AccessPolicy

namespace Engine

open Act hiding pure bind state

variable {engine first : Engine} {tenant : TenantId}

section Access

/-- An evaluator that is built is kept; when the build fails, what was kept is. -/
theorem leads_rebuild_resident (engine : Engine) (tenant : TenantId) :
    Leads (rebuild tenant) engine (fun evaluator after => after.evaluator? tenant = some evaluator)
      (fun _ after => after.own.evaluators = engine.own.evaluators) (fun _ => True) := by
  have same : Preserves (fun after => after.own.evaluators = engine.own.evaluators)
      (buildEvaluator tenant) :=
    preserves_buildEvaluator (fun _ _ same => same) tenant
  have builds := same.leads (rfl : engine.own.evaluators = engine.own.evaluators)
  apply leads_timingBuild
  · apply Leads.bind builds
    · intro evaluator middle _
      apply leads_bind
      apply leads_modify
      exact leads_pure (Table.get?_put_self ..)
    · exact fun _ _ same => same
    · exact fun _ _ => trivial
  · exact fun _ _ resident => resident
  · exact fun _ _ same => same
  · exact fun _ _ => trivial

/-- The evaluator that is handed out is the one that is kept. -/
theorem leads_evaluator_resident (engine : Engine) (tenant : TenantId) :
    Leads (evaluator tenant) engine (fun evaluator after => after.evaluator? tenant = some evaluator)
      (fun _ _ => True) (fun _ => True) := by
  have waits : Leads (awaitBuild tenant : Act Engine EvaluatorError Unit) engine (fun _ _ => True)
      (fun _ _ => True) (fun _ => True) := by
    have always : Preserves (fun _ : Engine => True) (awaitBuild tenant : Act Engine EvaluatorError Unit) :=
      fun _ _ => trivial
    exact always.leads trivial
  apply Leads.bind waits
  · intro _ middle _
    apply leads_read
    cases resident : middle.evaluator? tenant with
    | none =>
      exact (leads_rebuild_resident middle tenant).mono (fun _ _ ends => ends) (fun _ _ _ => trivial)
        fun _ _ => trivial
    | some kept =>
      dsimp only
      split
      · apply leads_bind
        apply leads_attempt
        apply (leads_rebuild_resident middle tenant).mono
        · exact fun _ _ ends => leads_pure ends
        · intro _ after same
          apply leads_pure
          unfold evaluator? at resident ⊢
          rw [same]
          exact resident
        · exact fun _ _ => trivial
      · exact leads_pure resident
  · exact fun _ _ _ => trivial
  · exact fun _ _ => trivial

/-- After an access the evaluator that is kept has compiled exactly the rules that count. -/
theorem Coherent.exists_evaluator {cached : Prop} (coherent : Coherent (Regime.steady cached) engine)
    (upright : engine.Upright) (tenant : TenantId) : ∃ evaluator after,
      Engine.evaluator tenant engine = (.ok evaluator, after) ∧
        after.evaluator? tenant = some evaluator ∧
        ∀ id, evaluator.contains id = true ↔ ∃ row, engine.commons.store.rows.get? id = some row ∧
          row.tenant = tenant ∧ row.isActive engine.now = true := by
  have accesses := (yields_evaluator coherent.sound coherent.attends tenant).ensures
    (not_hurried_steady cached)
  obtain ⟨evaluator, after, ends, renders, _⟩ := Leads.exists_ok accesses
  have mirrors := (renders trivial).mirrors
  have resident := (leads_evaluator_resident engine tenant).of_eq_ok ends
  refine ⟨evaluator, after, ends, resident, fun id => ?_⟩
  have accepted : ∀ rule ∈ engine.commons.store.law tenant, rule.Accepted := fun rule member =>
    upright.accepted_of_get? (coherent.sound.mem_law_iff.mp member).1
  rw [mirrors.contains_iff accepted]
  constructor
  · rintro ⟨rule, member, rfl, active⟩
    obtain ⟨stored, own⟩ := coherent.sound.mem_law_iff.mp member
    exact ⟨rule, stored, own, active⟩
  · rintro ⟨row, stored, own, active⟩
    have named := coherent.sound.keyed id row stored
    exact ⟨row, coherent.sound.mem_law_iff.mpr ⟨named ▸ stored, own⟩, named, active⟩

end Access

/-- What the validator accepts any evaluator compiles. Since there were no rules, every row is accepted,
and the writes have made no registry call that failed; and as long as the calendar can bear the windows
and the clock does not go back, the evaluators have compiled what counts. -/
theorem validator_agrees_with_evaluators :
    (∀ (rule : Rule) (existing : Option (List Rule)) (now : Instant),
      (Validator.standard.validate rule existing now).valid = true →
        ∀ evaluator : Evaluator, ∃ added, (evaluator.insert rule).1 = .ok added) ∧
    ∀ (first : Engine) (events : List Event), first.commons.store.rows = [] →
      first.own.evaluators = [] →
      (∀ id row, (first.after events).commons.store.rows.get? id = some row →
        ∀ existing now, (Validator.standard.validate row existing now).valid = true) ∧
      (∀ write : Write, write.steps.Along Faultless (first.after events).newCall) ∧
      (Throughout Orderly first events → Throughout Event.Forward first events →
        (first.after events).commons.store.available = true →
        ∀ tenant, ∃ evaluator after,
          Engine.evaluator tenant (first.after events).newCall = (.ok evaluator, after) ∧
            after.evaluator? tenant = some evaluator ∧
            ∀ id, evaluator.contains id = true ↔
              ∃ row, (first.after events).commons.store.rows.get? id = some row ∧
                row.tenant = tenant ∧ row.isActive (first.after events).now = true) := by
  refine ⟨fun rule existing now valid evaluator => evaluator.exists_insert (Validator.valid_iff.mp valid),
    fun first events empty bare => ?_⟩
  have start : first.Upright := by
    constructor
    · rw [empty]
      exact fun _ impossible => nomatch impossible
    · rw [bare]
      exact fun _ impossible => nomatch impossible
  have upright : (first.after events).Upright :=
    after_of_step (fun _ event upright => upright.happen event) start events
  have calls : (first.after events).newCall.Upright := upright.withTiming .start
  refine ⟨fun id row stored existing now => Validator.valid_iff.mpr (upright.accepted_of_get? stored),
    fun write => (calls.along write).1, fun orderly forward reach => ?_⟩
  have step (engine : Engine) (event : Event) (regular : Regular (fun _ => True) engine)
      (fine : engine.Orderly event ∧ event.Forward engine) :
      Regular (fun _ => True) (event.happen engine) :=
    regular.happen fine.1 (Or.inr fine.2)
  have regular := after_of_throughout step (regular_of_empty empty bare) (orderly.and forward)
  have kept : Regular (Regime.steady False).current (first.after events).newCall :=
    ⟨regular.sound, regular.tracks⟩
  have coherent := kept.coherent (fun cached => cached) (paced_start _)
  have reached : (first.after events).newCall.commons.store.available = true := reach
  rw [restored_eq reached] at coherent
  exact coherent.exists_evaluator calls

/-- Ann's rule is stored, and time goes by. -/
def grantedAndLater : List Event :=
  [.call (.create ⟨1⟩ annReads), .clock afterwards]

theorem validator_agrees_later :
    (Validator.standard.validate annReads none .epoch).valid = true ∧
    started.commons.store.rows = [] ∧ started.own.evaluators = [] ∧
    Throughout Orderly started grantedAndLater ∧ Throughout Event.Forward started grantedAndLater ∧
    (started.after grantedAndLater).commons.store.available = true ∧
    (∃ added, ((Evaluator.bare ⟨1⟩ none .epoch).insert annReads).1 = .ok added) ∧
    ∃ evaluator after,
      Engine.evaluator ⟨1⟩ (started.after grantedAndLater).newCall = (.ok evaluator, after) ∧
        after.evaluator? ⟨1⟩ = some evaluator ∧ evaluator.contains ⟨1⟩ = true := by
  have closing : granting.commons.store.rows.values.all Rule.closes = true := by decide
  have orderly : Throughout Orderly started grantedAndLater :=
    ⟨⟨closing_of_all closing, fun _ _ _ => rfl⟩, ⟨closing_of_all closing, by simp⟩, trivial⟩
  have forward : Throughout Event.Forward started grantedAndLater :=
    ⟨trivial, ⟨by decide, by decide⟩, trivial⟩
  have valid : (Validator.standard.validate annReads none .epoch).valid = true := by decide +kernel
  have agrees := validator_agrees_with_evaluators.2 started grantedAndLater rfl rfl
  obtain ⟨evaluator, after, ends, resident, contains⟩ := agrees.2.2 orderly forward rfl ⟨1⟩
  have counts : evaluator.contains ⟨1⟩ = true :=
    (contains ⟨1⟩).mpr ⟨{ annReads with id := ⟨1⟩ }, rfl, rfl, by decide⟩
  exact ⟨valid, rfl, rfl, orderly, forward, rfl,
    validator_agrees_with_evaluators.1 annReads none .epoch valid _, evaluator, after, ends, resident, counts⟩

end Engine

end AccessPolicy
