import AccessPolicy.Proofs.Engine.Event
import AccessPolicy.Proofs.Engine.WriteSteps
import AccessPolicy.Proofs.Evaluator.Linked

/-!
Registry calls do not fail. The rows of an engine are accepted by the validator, so that its evaluators
compile them; they know the names of every membership, so that they can take it out. Each step of a write
leaves the engine so, whatever it is about, and none of them is a repair.
-/
namespace AccessPolicy

namespace Engine

open Act hiding pure bind state
open Steps

variable {ε α β : Type} {engine after : Engine} {tenant : TenantId} {rule : Rule}

/-- The validator accepts every row, and the evaluators know the names of their memberships. -/
structure Upright (engine : Engine) : Prop where
  accepted : ∀ row ∈ engine.commons.store.rows.values, row.Accepted
  linked : ∀ evaluator ∈ engine.own.evaluators.values, evaluator.Linked

namespace Upright

variable (upright : engine.Upright)
include upright

theorem accepted_of_get? {id : RuleId} (stored : engine.commons.store.rows.get? id = some rule) :
    rule.Accepted :=
  upright.accepted rule (Table.mem_values_of_get? stored)

theorem idle (idle : Idle engine after) : after.Upright := by
  constructor
  · rw [idle.commons]
    exact upright.accepted
  · rw [idle.own]
    exact upright.linked

theorem putRow (accepted : rule.Accepted) (id : RuleId) : (engine.withStore
    { engine.commons.store with rows := engine.commons.store.rows.put id rule }).Upright := by
  refine ⟨fun row present => ?_, upright.linked⟩
  rcases Table.mem_values_put present with same | before
  · rw [same]
    exact accepted
  · exact upright.accepted row before

theorem eraseRow (id : RuleId) : (engine.withStore (engine.commons.store.eraseRow id)).Upright :=
  ⟨fun row present => upright.accepted row (Table.mem_values_erase present), upright.linked⟩

theorem recordUsage (tenant : TenantId) (ids : List RuleId) (now : Instant) :
    (engine.withStore (engine.commons.store.recordUsage tenant ids now).2).Upright := by
  unfold RuleStore.recordUsage
  split
  · exact upright
  · induction ids generalizing engine with
    | nil => exact upright
    | cons id rest ih =>
      have counted : (engine.withStore { engine.commons.store with
          rows := RuleStore.recordUse tenant now engine.commons.store.rows id }).Upright := by
        unfold RuleStore.recordUse
        split
        · rename_i stored found
          split
          · have used : (RuleStore.used stored now).Accepted :=
              (upright.accepted_of_get? found).of_content_eq rfl
            exact upright.putRow used id
          · exact upright
        · exact upright
      exact ih counted ‹_›

theorem withTiming (timing : Timing) : (engine.withTiming timing).Upright :=
  ⟨upright.accepted, upright.linked⟩

theorem putEvaluator {evaluator : Evaluator} (linked : evaluator.Linked) (tenant : TenantId) :
    (engine.withEvaluators (engine.own.evaluators.put tenant evaluator)).Upright := by
  refine ⟨upright.accepted, fun found present => ?_⟩
  rcases Table.mem_values_put present with same | before
  · rw [same]
    exact linked
  · exact upright.linked found before

theorem leads_buildEvaluator (tenant : TenantId) :
    Leads (buildEvaluator tenant) engine (fun evaluator after => after.Upright ∧ evaluator.Linked)
      (fun _ => Upright) Upright := by
  have timed (engine : Engine) (timing : Timing) (kept : engine.Upright) :
      (engine.withTiming timing).Upright := kept.withTiming timing
  apply leads_read
  apply leads_bind
  apply leads_mapError
  apply (leads_find timed _ upright).mono
  · intro rules middle ⟨kept, stored⟩
    split
    · rename_i evaluator built
      have linked := Evaluator.linked_of_build (fun rule member => upright.accepted rule (stored rule member))
        built
      exact leads_pure ⟨kept, linked⟩
    · exact kept
  · exact fun _ _ kept => kept
  · exact fun _ kept => kept

end Upright

theorem preserves_rebuild_upright (tenant : TenantId) : Preserves Upright (rebuild tenant) := by
  have rebuilds : Preserves Upright (buildEvaluator tenant >>= fun evaluator =>
      setEvaluator tenant evaluator >>= fun _ => Pure.pure evaluator) := by
    apply preserves_of_leads
    intro engine upright
    apply Leads.bind (upright.leads_buildEvaluator tenant)
    · intro evaluator middle ⟨kept, linked⟩
      apply leads_bind
      apply leads_modify
      exact leads_pure (kept.putEvaluator linked tenant)
    · exact fun _ _ kept => kept
    · exact fun _ kept => kept
  exact fun engine upright => (rebuilds engine upright).withTiming _

theorem follows_upright : AdmitsFollowing Upright where
  timing := fun timing upright => upright.withTiming timing
  rebuild := fun _ => preserves_rebuild_upright _
  drop := fun _ upright =>
    ⟨upright.accepted, fun found present => upright.linked found (Table.mem_values_erase present)⟩
  forget := fun _ _ upright => ⟨upright.accepted, upright.linked⟩
  publish := fun _ upright => ⟨upright.accepted, upright.linked⟩
  dropAll := fun upright => ⟨upright.accepted, fun _ impossible => nomatch impossible⟩
  listener := fun _ upright => ⟨upright.accepted, upright.linked⟩
  clear := fun _ upright => ⟨upright.accepted, upright.linked⟩

theorem decisions_upright : AdmitsDecisions Upright (fun _ => True) where
  toAdmitsAccess := follows_upright.toAdmitsAccess
  recordUsage := fun ids now _ upright => upright.recordUsage _ ids now
  keep := fun _ _ _ _ _ _ _ upright => ⟨upright.accepted, upright.linked⟩
  audit := fun _ upright => ⟨upright.accepted, upright.linked⟩

section Calls

variable {evaluator : Evaluator}

theorem Upright.leads_step (upright : engine.Upright)
    {step : Except EvaluatorError Bool × Evaluator} (linked : step.2.Linked)
    (succeeds : ∃ flag, step.1 = .ok flag) :
    Leads (stepEvaluator tenant step) engine (fun _ => Upright) (fun _ _ => False) Upright := by
  obtain ⟨flag, same⟩ := succeeds
  apply leads_bind
  apply leads_modify
  rw [same]
  exact leads_pure (upright.putEvaluator linked tenant)

theorem leads_tracked (upright : engine.Upright) (linked : evaluator.Linked) (rule : Rule)
    (now : Instant) :
    Leads (tracked evaluator rule now) engine (fun tracked after => after.Upright ∧ tracked.Linked)
      (fun _ _ => False) Upright := by
  unfold tracked
  split
  · rename_i tracked track
    exact leads_pure ⟨upright, linked.track track⟩
  · exact upright

/-- A rule that is tracked is compiled if it counts. -/
theorem Upright.leads_enter (upright : engine.Upright) (linked : evaluator.Linked)
    (accepted : rule.Accepted) (now : Instant) (value : Bool → Bool) (otherwise : Bool) :
    Leads (tracked evaluator rule now >>= fun tracked =>
      setEvaluator rule.tenant tracked >>= fun _ =>
        if rule.isActive now then
          stepEvaluator rule.tenant (tracked.insert rule) >>= fun added => Pure.pure (value added)
        else Pure.pure otherwise) engine (fun _ => Upright) (fun _ _ => False) Upright := by
  apply Leads.bind (leads_tracked upright linked rule now)
  · intro tracked middle ⟨upright, linked⟩
    have put := upright.putEvaluator linked rule.tenant
    apply leads_bind
    apply leads_modify
    split
    · apply leads_bind
      apply (put.leads_step (linked.insert accepted) (tracked.exists_insert accepted)).mono
      · exact fun _ _ kept => leads_pure kept
      · exact fun _ _ impossible => impossible
      · exact fun _ kept => kept
    · exact leads_pure put
  · exact fun _ _ impossible => impossible
  · exact fun _ kept => kept

/-- A registry call that is about an accepted rule does not fail. -/
theorem Upright.leads_call (upright : engine.Upright) {owed : Owed}
    (accepted : ∀ row, owed.row? = some row → row.Accepted) :
    Leads owed.call engine (fun _ => Upright) (fun _ _ => False) Upright := by
  have resident_linked (tenant : TenantId) (kept : Evaluator)
      (resident : engine.evaluator? tenant = some kept) : kept.Linked :=
    upright.linked kept (Table.mem_values_of_get? resident)
  cases owed with
  | add rule =>
    apply leads_read
    cases resident : engine.evaluator? rule.tenant with
    | none => exact leads_pure upright
    | some kept =>
      have adds := upright.leads_enter (resident_linked _ _ resident) (accepted rule rfl) engine.now
        (fun added => added) false
      simp only [bind_pure] at adds
      exact adds
  | replace previous current =>
    apply leads_read
    cases resident : engine.evaluator? current.tenant with
    | none => exact leads_pure upright
    | some kept =>
      have linked := resident_linked _ _ resident
      obtain ⟨removed, takes⟩ := linked.exists_remove previous
      have rest := linked.remove previous
      dsimp only
      apply leads_bind
      apply leads_modify
      rw [takes]
      apply leads_bind
      apply leads_pure
      exact (upright.putEvaluator rest current.tenant).leads_enter rest (accepted current rfl)
        engine.now (removed || ·) removed
  | remove rule =>
    apply leads_read
    cases resident : engine.evaluator? rule.tenant with
    | none => exact leads_pure upright
    | some kept =>
      have linked := resident_linked _ _ resident
      exact upright.leads_step (linked.remove rule) (linked.exists_remove rule)

end Calls

end Engine

/-- The step is no repair, and what it carries into an evaluator is accepted. -/
def WriteMark.Safe (mark : WriteMark) : Prop :=
  mark.kind ≠ .drop ∧
    ∀ owed, mark.debt.owed = some owed → ∀ row, owed.row? = some row → row.Accepted

namespace Engine

open Act hiding pure bind state
open Steps

variable {ε α β : Type} {engine : Engine} {tenant : TenantId} {rule : Rule} {mark : WriteMark}
variable {left : List Rule} {debt : Debt}

/-- From any engine that is upright the steps go through such engines, and are safe. -/
def Unfailing (steps : Steps Engine WriteMark ε α) : Prop :=
  Resumes (fun due (_ : Option Empty) engine => engine.Upright ∧ ∀ mark ∈ due, mark.Safe)
    (fun _ _ _ => True) (fun _ => Upright) steps

section Steps

theorem unfailing_pure (value : α) : Unfailing (Pure.pure value : Steps Engine WriteMark ε α) :=
  resumes_pure (fun _ _ upright => ⟨upright, by simp⟩) value

theorem unfailing_once_bind {action : Act Engine ε α} {next : α → Steps Engine WriteMark ε β}
    (safe : mark.Safe) (leads : ∀ engine, engine.Upright → Leads action engine
      (fun value after => after.Upright ∧ Unfailing (next value)) (fun _ => Upright) Upright) :
    Unfailing (once mark action >>= next) := by
  apply resumes_once_bind
  · exact fun _ _ upright => ⟨upright, by simpa using safe⟩
  · intro _ engine ⟨upright, _⟩ _
    apply (leads engine upright).mono
    · exact fun _ _ ⟨kept, onward⟩ => onward.continues kept
    · exact fun _ _ kept => ⟨kept, by simp⟩
    · exact fun _ kept => ⟨kept, by simp⟩

theorem unfailing_preserved {action : Act Engine ε α} {next : α → Steps Engine WriteMark ε β}
    (safe : mark.Safe) (preserves : Preserves Upright action) (onward : ∀ value, Unfailing (next value)) :
    Unfailing (once mark action >>= next) := by
  apply unfailing_once_bind safe
  intro engine upright
  apply (preserves.leads upright).mono
  · exact fun value _ kept => ⟨kept, onward value⟩
  · exact fun _ _ kept => kept
  · exact fun _ kept => kept

theorem safe_of_owed_eq_none (other : mark.kind ≠ .drop) (nothing : mark.debt.owed = none) :
    mark.Safe := by
  refine ⟨other, fun owed owing => ?_⟩
  rw [nothing] at owing
  cases owing

theorem unfailing_owned {next : Unit → Steps Engine WriteMark ServiceError β}
    (onward : Unfailing (next ())) :
    Unfailing (planned .free (requireTenant tenant rule) >>= next) := by
  apply unfailing_preserved (safe_of_owed_eq_none (by simp) rfl)
  · unfold requireTenant
    split
    · exact preserves_pure _
    · exact preserves_fail _
  · exact fun _ => onward

/-- What passes the check is accepted. -/
theorem unfailing_validated (nothing : debt.owed = none)
    {next : Unit → Steps Engine WriteMark ServiceError β}
    (onward : rule.Accepted → Unfailing (next ())) :
    Unfailing (planned debt (requireValid tenant rule) >>= next) := by
  apply unfailing_once_bind (safe_of_owed_eq_none (by simp) nothing)
  intro engine upright
  apply (leads_requireValid_idle (paced_pressed engine.timing) tenant rule).mono
  · exact fun _ _ ⟨accepted, idle⟩ => ⟨upright.idle idle, onward accepted⟩
  · exact fun _ _ idle => upright.idle idle
  · exact fun _ ⟨_, idle⟩ => upright.idle idle

theorem unfailing_loaded {id : RuleId} {next : Rule → Steps Engine WriteMark ServiceError β}
    (onward : ∀ loaded : Rule, loaded.Accepted → Unfailing (next loaded)) :
    Unfailing (planned .free (load tenant id) >>= next) := by
  apply unfailing_once_bind (safe_of_owed_eq_none (by simp) rfl)
  intro engine upright
  apply (leads_load tenant id engine).mono
  · intro loaded _ ⟨same, stored, _⟩
    rw [same]
    exact ⟨upright, onward loaded (upright.accepted_of_get? stored)⟩
  · exact fun _ _ same => same ▸ upright
  · exact fun _ impossible => impossible.elim

theorem unfailing_stated (nothing : debt.owed = none) {next : Engine → Steps Engine WriteMark ε β}
    (onward : ∀ engine, Unfailing (next engine)) :
    Unfailing (planned debt Act.state >>= next) :=
  unfailing_preserved (safe_of_owed_eq_none (by simp) nothing) (fun _ upright => upright) onward

/-- The registry call succeeds, so that nothing is repaired. -/
theorem unfailing_carrySteps {owed : Owed} {next : Unit → Steps Engine WriteMark ε α}
    (accepted : ∀ row, owed.row? = some row → row.Accepted) (onward : Unfailing (next ())) :
    Unfailing (carrySteps tenant left owed >>= next) := by
  unfold carrySteps
  rw [bind_assoc]
  apply unfailing_once_bind
  · refine ⟨nofun, fun other owing => ?_⟩
    cases owing
    exact accepted
  · intro engine upright
    apply leads_attempt
    apply (upright.leads_call accepted).mono
    · exact fun _ _ kept => ⟨kept, onward⟩
    · exact fun _ _ impossible => impossible.elim
    · exact fun _ kept => kept

theorem unfailing_announceSteps {next : Unit → Steps Engine WriteMark ε α}
    (onward : Unfailing (next ())) (reason : ChangeReason) :
    Unfailing (announceSteps left tenant reason >>= next) :=
  unfailing_preserved (safe_of_owed_eq_none (by simp) rfl) (follows_upright.broadcast tenant reason)
    fun _ => onward

theorem unfailing_invalidateSteps {next : Unit → Steps Engine WriteMark ε α}
    (onward : Unfailing (next ())) (rules : List Rule) :
    Unfailing (invalidateSteps rules >>= next) := by
  induction rules with
  | nil => exact onward
  | cons rule rest ih =>
    unfold invalidateSteps
    rw [bind_assoc]
    exact unfailing_preserved (safe_of_owed_eq_none (by simp) rfl) (follows_upright.invalidateFor trivial)
      fun _ => ih

theorem unfailing_followSteps {owed : Owed} {next : Unit → Steps Engine WriteMark ε α}
    (accepted : ∀ row, owed.row? = some row → row.Accepted) (onward : Unfailing (next ()))
    (reason : ChangeReason) : Unfailing (followSteps left owed reason >>= next) := by
  unfold followSteps
  rw [bind_assoc]
  apply unfailing_carrySteps accepted
  rw [bind_assoc]
  apply unfailing_announceSteps
  exact unfailing_invalidateSteps onward left

end Steps

section Writes

theorem unfailing_createSteps {next : Rule → Steps Engine WriteMark ServiceError α}
    (onward : ∀ stored, Unfailing (next stored)) :
    Unfailing (createSteps tenant rule >>= next) := by
  unfold createSteps
  simp only [bind_assoc, pure_bind]
  apply unfailing_owned
  apply unfailing_validated rfl
  intro accepted
  apply unfailing_stated rfl
  intro stated
  apply unfailing_once_bind (safe_of_owed_eq_none (by simp) rfl)
  intro engine upright
  apply leads_mapError
  apply (leads_onStore _ engine).mono
  · intro stored _ ⟨inserted, same⟩
    obtain ⟨named, after⟩ := RuleStore.insert_eq_ok inserted
    have fine : stored.Accepted := by
      rw [named]
      exact accepted.of_content_eq rfl
    rw [same, after]
    refine ⟨?_, unfailing_followSteps ?_ (onward stored) .ruleCreated⟩
    · have put := upright.putRow fine stored.id
      exact ⟨put.accepted, put.linked⟩
    · rintro row ⟨⟩
      exact fine
  · intro _ _ ⟨refused, same⟩
    rw [same, RuleStore.insert_eq_error refused]
    exact upright
  · exact fun _ impossible => impossible.elim

theorem unfailing_replaceSteps {previous current : Rule} (accepted : current.Accepted)
    {next : Rule → Steps Engine WriteMark ServiceError α} (onward : Unfailing (next current))
    (reason : ChangeReason) : Unfailing (replaceSteps previous current reason >>= next) := by
  unfold replaceSteps
  simp only [bind_assoc, pure_bind]
  apply unfailing_once_bind (safe_of_owed_eq_none (by simp) rfl)
  intro engine upright
  apply leads_mapError
  apply (leads_onStore _ engine).mono
  · intro _ _ ⟨updated, same⟩
    rw [same, (RuleStore.update_eq_ok updated).1]
    refine ⟨upright.putRow accepted current.id, unfailing_followSteps ?_ onward reason⟩
    rintro row ⟨⟩
    exact accepted
  · intro _ _ ⟨refused, same⟩
    rw [same, RuleStore.update_eq_error refused]
    exact upright
  · exact fun _ impossible => impossible.elim

theorem unfailing_updateSteps {next : Rule → Steps Engine WriteMark ServiceError α}
    (onward : ∀ stored, Unfailing (next stored)) :
    Unfailing (updateSteps tenant rule >>= next) := by
  unfold updateSteps
  simp only [bind_assoc]
  apply unfailing_owned
  apply unfailing_loaded
  intro previous _
  apply unfailing_validated rfl
  intro accepted
  apply unfailing_stated rfl
  intro engine
  have fine : (updated previous rule engine.now).Accepted := accepted.of_content_eq rfl
  exact unfailing_replaceSteps fine (onward _) _

/-- A decision leaves the content of the row, which has been accepted. -/
theorem unfailing_decideApprovalSteps (id : RuleId) (approver : Principal)
    (decided : Rule → String → Instant → Rule) (reason : ChangeReason)
    (alike : ∀ rule name now, (decided rule name now).content = rule.content)
    {next : Rule → Steps Engine WriteMark ServiceError α} (onward : ∀ stored, Unfailing (next stored)) :
    Unfailing (decideApprovalSteps tenant id approver decided reason >>= next) := by
  unfold decideApprovalSteps
  rw [bind_assoc]
  apply unfailing_loaded
  intro previous accepted
  split
  · rw [bind_assoc]
    apply unfailing_stated rfl
    exact fun _ => unfailing_replaceSteps (accepted.of_content_eq (alike ..)) (onward _) _
  · exact unfailing_preserved (safe_of_owed_eq_none (by simp) rfl) (preserves_fail _) onward

theorem unfailing_removeSteps (gone : List Rule) (ids : List RuleId)
    {next : List Rule × Option StoreError → Steps Engine WriteMark ε α}
    (onward : ∀ result, Unfailing (next result)) :
    Unfailing (removeSteps tenant gone ids >>= next) := by
  induction ids generalizing gone next with
  | nil => exact onward _
  | cons id rest ih =>
    unfold removeSteps
    rw [bind_assoc]
    apply unfailing_once_bind (safe_of_owed_eq_none (by simp) rfl)
    intro engine upright
    apply leads_attempt
    apply (leads_onStore _ engine).mono
    · rintro found _ ⟨deletes, same⟩
      cases found with
      | none =>
        rw [same, RuleStore.delete_eq_of_ne_some deletes (by simp)]
        exact ⟨upright, ih gone onward⟩
      | some rule =>
        rw [same, (RuleStore.delete_eq_some deletes).1]
        refine ⟨upright.eraseRow id, ?_⟩
        dsimp only
        rw [bind_assoc]
        apply unfailing_carrySteps
        · simp [Owed.row?]
        · rw [bind_assoc]
          exact ih _ fun result => onward (rule :: result.1, result.2)
    · rintro fault _ ⟨refused, same⟩
      rw [same, RuleStore.delete_eq_of_ne_some refused (by simp)]
      exact ⟨upright, onward _⟩
    · exact fun _ impossible => impossible.elim

theorem unfailing_deleteSteps (ids : List RuleId)
    {next : List RuleId → Steps Engine WriteMark ServiceError α}
    (onward : ∀ removed, Unfailing (next removed)) :
    Unfailing (deleteSteps tenant ids >>= next) := by
  have reports (removed : List Rule) (failure : Option StoreError) :
      Unfailing (reportSteps removed failure >>= next) := by
    cases failure with
    | none => exact onward _
    | some fault =>
      exact unfailing_preserved (safe_of_owed_eq_none (by simp) rfl) (preserves_fail _) onward
  unfold deleteSteps
  rw [bind_assoc]
  apply unfailing_removeSteps []
  intro ⟨removed, failure⟩
  dsimp only
  split
  · rw [bind_assoc]
    apply unfailing_announceSteps
    rw [bind_assoc]
    exact unfailing_invalidateSteps (reports removed failure) removed
  · exact reports removed failure

theorem unfailing_steps (write : Write) : Unfailing write.steps := by
  cases write with
  | create tenant rule => exact unfailing_createSteps fun _ => unfailing_pure ()
  | update tenant rule => exact unfailing_updateSteps fun _ => unfailing_pure ()
  | delete tenant ids => exact unfailing_deleteSteps ids fun _ => unfailing_pure ()
  | approve tenant id approver =>
    exact unfailing_decideApprovalSteps id approver Rule.approve _ (fun _ _ _ => rfl)
      fun _ => unfailing_pure ()
  | reject tenant id approver =>
    exact unfailing_decideApprovalSteps id approver Rule.reject _ (fun _ _ _ => rfl)
      fun _ => unfailing_pure ()

end Writes

/-- The step is no repair of an evaluator, and a registry call that it makes does not fail. -/
def Faultless (mark : WriteMark) (engine : Engine) : Prop :=
  mark.kind ≠ .drop ∧
    ∀ owed, mark.debt.owed = some owed → ∀ fault, (owed.call engine).1 ≠ .error fault

theorem Upright.faultless (upright : engine.Upright) (safe : mark.Safe) : Faultless mark engine := by
  refine ⟨safe.1, fun owed owing fault failed => ?_⟩
  have calls := upright.leads_call (safe.2 owed owing)
  unfold Leads Ends at calls
  generalize owed.call engine = result at calls failed
  obtain ⟨outcome, after⟩ := result
  cases failed
  exact calls

/-- Every write keeps an engine upright, and all its steps are without fault. -/
theorem Upright.along (upright : engine.Upright) (write : Write) :
    write.steps.Along Faultless engine ∧ (write.command.perform engine).Upright := by
  have unfailing := unfailing_steps write
  have start := unfailing.1 none engine upright
  obtain ⟨along, ends⟩ := unfailing.2.along (fun _ _ => trivial) start
  refine ⟨along.mono fun mark state ⟨kept, safe⟩ => kept.faultless (safe mark rfl), ?_⟩
  rw [← write.run_steps]
  exact ends.1

theorem Upright.expire (upright : engine.Upright) : (Engine.expire engine).2.Upright := by
  apply follows_upright.expire (fun _ => trivial) upright
  intro rule member
  have fine : (disabled rule engine.now).Accepted := (upright.accepted rule member).of_content_eq rfl
  apply preserves_onStore
  intro middle kept
  rcases updated : middle.commons.store.update (disabled rule engine.now) with ⟨result, after⟩
  cases result with
  | ok _ =>
    rw [(RuleStore.update_eq_ok updated).1]
    exact kept.putRow fine _
  | error fault =>
    rw [RuleStore.update_eq_error updated]
    exact kept

theorem Upright.perform (upright : engine.Upright) (command : Command) :
    (command.perform engine).Upright := by
  have follows := follows_upright
  have every : command.For fun _ => True := by
    cases command <;> simp [Command.For]
  cases command with
  | create tenant rule => exact (upright.along (.create tenant rule)).2
  | update tenant rule => exact (upright.along (.update tenant rule)).2
  | delete tenant ids => exact (upright.along (.delete tenant ids)).2
  | approve tenant id approver => exact (upright.along (.approve tenant id approver)).2
  | reject tenant id approver => exact (upright.along (.reject tenant id approver)).2
  | expire => exact upright.expire
  | sync tenant service force => exact follows.sync trivial service force engine upright
  | refresh tenant type service => exact follows.refresh trivial type service engine upright
  | validate tenant rule conflicts => exact follows.validate tenant rule conflicts engine upright
  | summary tenant user service inherited =>
    exact follows.summary trivial user service inherited engine upright
  | check | checkPermission | batch | batchPermission =>
    exact decisions_upright.perform rfl every upright

theorem Upright.happen (upright : engine.Upright) (event : Event) : (event.happen engine).Upright := by
  have follows := follows_upright
  have calls : engine.newCall.Upright := upright.withTiming .start
  cases event with
  | call command => exact calls.perform command
  | listen => exact follows.listen _ calls
  | shutdown => exact follows.shutdown _ calls
  | takeChanges => exact follows.takeChanges _ calls
  | applyChange change => exact follows.applyChange change _ calls
  | clock | store | bus | delay | cache => exact ⟨upright.accepted, upright.linked⟩

end Engine

end AccessPolicy
