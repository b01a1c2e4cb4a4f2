import AccessPolicy.Proofs.Engine.WriteSteps

/-!
What the steps of a write uphold beside others. An invariant says what holds with what the write has
still to make good and with what is due of the others; when each kind of step upholds it, the steps of
every write do, up to the end, when nothing is left to be made good.
-/
namespace AccessPolicy

namespace Engine

open Act hiding pure bind state
open Steps

variable {κ ε α β : Type}

/-- Each kind of step upholds an invariant, where it may be made. -/
structure Upheld (holds : Debt → Option κ → Engine → Prop)
    (may : WriteMark → Option κ → Engine → Prop) : Prop where
  sound : ∀ {debt other engine}, holds debt other engine → engine.commons.store.Sound
  paced : ∀ {debt other engine}, holds debt other engine → Paced (Regime.steady False) engine.timing
  elapse : ∀ {debt other engine timing}, holds debt other engine →
    Paced (Regime.steady False) timing → holds debt other (engine.withTiming timing)
  publish : ∀ {debt other engine} (bus : Bus Change), holds debt other engine →
    holds debt other { engine with commons := { engine.commons with bus := bus } }
  read : ∀ {other engine rule}, holds .free other engine →
    engine.commons.store.rows.get? rule.id = some rule → holds (.reading rule) other engine
  unread : ∀ {other engine rule}, holds (.reading rule) other engine → holds .free other engine
  insert : ∀ {other engine stored}, holds .free other engine → may ⟨.insert, .free⟩ other engine →
    stored.id = engine.commons.store.nextId → stored.closes →
    holds (.owing [stored] (.add stored)) other (engine.withStore
      { engine.commons.store.putRow stored with
        nextId := ⟨engine.commons.store.nextId.value + 1⟩ })
  update : ∀ {other engine previous current}, holds (.reading previous) other engine →
    may ⟨.commit current.id, .reading previous⟩ other engine → current.closes →
    previous.id = current.id → previous.tenant = current.tenant →
    (∃ stored, engine.commons.store.rows.get? current.id = some stored ∧
      stored.tenant = current.tenant) →
    holds (.owing [previous, current] (.replace previous current)) other
      (engine.withStore (engine.commons.store.putRow current))
  delete : ∀ {left other engine rule}, holds (.leaving left) other engine →
    may ⟨.commit rule.id, .leaving left⟩ other engine →
    engine.commons.store.rows.get? rule.id = some rule →
    holds (.owing (left ++ [rule]) (.remove rule)) other
      (engine.withStore (engine.commons.store.eraseRow rule.id))
  call : ∀ {left owed other engine}, holds (.owing left owed) other engine →
    Leads owed.call engine (fun _ => holds (.leaving left) other)
      (fun _ => holds (.owing left owed) other) (fun _ => False)
  drop : ∀ {left owed other engine}, holds (.owing left owed) other engine →
    holds (.leaving left) other
      (engine.withEvaluators (engine.own.evaluators.erase owed.tenant))
  close : ∀ {left other engine}, holds (.leaving left) other engine →
    holds (.closed left) other engine
  invalidate : ∀ {rule left other engine}, holds (.closed (rule :: left)) other engine →
    may ⟨.invalidate, .closed (rule :: left)⟩ other engine →
    Ensures (invalidateFor rule : Act Engine ServiceError Unit) engine
      (fun _ => holds (.closed left) other)
  settle : ∀ {other engine}, holds (.closed []) other engine → holds .free other engine

/-- Where the invariant holds with a debt the steps uphold it. -/
def Upholds (holds : Debt → Option κ → Engine → Prop) (may : WriteMark → Option κ → Engine → Prop)
    (debt : Debt) (steps : Steps Engine WriteMark ε α) : Prop :=
  Resumes (fun due => holds (.ofDue due)) may (holds debt) steps

namespace Upheld

variable {holds : Debt → Option κ → Engine → Prop} {may : WriteMark → Option κ → Engine → Prop}
variable {tenant : TenantId} {rule : Rule} {left : List Rule} {debt : Debt} {other : Option κ}
variable {engine : Engine}

section Planning

/-- A step that commits nothing. What was to be made good before it may be let go when it fails. -/
theorem upholds_planned (stops : ∀ {other engine}, holds debt other engine → holds .free other engine)
    {action : Act Engine ε α} {next : α → Steps Engine WriteMark ε β}
    (leads : ∀ other engine, holds debt other engine → Leads action engine
      (fun value => Continues (fun due => holds (.ofDue due)) may other (next value))
      (fun _ => holds debt other) (fun _ => False)) :
    Upholds holds may debt (planned debt action >>= next) := by
  apply resumes_once_bind
  · exact fun _ _ start => start
  · intro other engine start _
    apply (leads other engine start).mono
    · exact fun _ _ ends => ends
    · exact fun _ _ ends => stops ends
    · exact fun _ impossible => impossible.elim

theorem upholds_stated (stops : ∀ {other engine}, holds debt other engine → holds .free other engine)
    {next : Engine → Steps Engine WriteMark ε β}
    (onward : ∀ engine, Upholds holds may debt (next engine)) :
    Upholds holds may debt (planned debt Act.state >>= next) := by
  apply upholds_planned stops
  exact fun _ engine start => (onward engine).continues start

theorem leads_find (upheld : Upheld holds may) (start : holds debt other engine)
    (filter : RuleFilter) :
    Leads (find filter) engine (fun _ => holds debt other) (fun _ => holds debt other)
      (fun _ => False) := by
  have waits := leads_waitUntil (ε := StoreError) (upheld.paced start)
    (engine.timing.elapsed + engine.commons.findDelay)
  have after := upheld.elapse start (paced_goTo (upheld.paced start)
    (engine.timing.elapsed + engine.commons.findDelay))
  apply leads_read
  apply leads_bind
  apply waits.mono
  · intro _ _ same
    rw [same]
    exact leads_ofExcept (fun _ _ => after) (fun _ _ => after)
  · exact fun _ _ impossible => impossible.elim
  · intro _ ⟨hurried, _⟩
    exact not_hurried_steady False hurried

theorem leads_requireValid (upheld : Upheld holds may) (start : holds debt other engine)
    (tenant : TenantId) (rule : Rule) :
    Leads (requireValid tenant rule) engine (fun _ => holds debt other) (fun _ => holds debt other)
      (fun _ => False) := by
  have judges (report : ValidationReport) (after : Engine) (kept : holds debt other after) :
      Leads (if report.valid then pure () else Act.fail (.invalid report.errors) :
        Act Engine ServiceError Unit) after (fun _ => holds debt other)
        (fun _ => holds debt other) (fun _ => False) := by
    split
    · exact leads_pure kept
    · exact leads_fail kept
  apply leads_bind
  apply leads_read
  apply leads_bind
  apply leads_mapError
  apply (upheld.leads_find start _).mono
  · exact fun _ after kept => leads_pure (judges _ after kept)
  · exact fun _ _ kept => kept
  · exact fun _ impossible => impossible

theorem upholds_validated (upheld : Upheld holds may)
    (stops : ∀ {other engine}, holds debt other engine → holds .free other engine)
    {next : Unit → Steps Engine WriteMark ServiceError β}
    (onward : Upholds holds may debt (next ())) :
    Upholds holds may debt (planned debt (requireValid tenant rule) >>= next) := by
  apply upholds_planned stops
  intro other engine start
  apply (upheld.leads_requireValid start tenant rule).mono
  · exact fun _ _ kept => onward.continues kept
  · exact fun _ _ kept => kept
  · exact fun _ impossible => impossible

theorem upholds_owned {next : Unit → Steps Engine WriteMark ServiceError β}
    (onward : rule.tenant = tenant → Upholds holds may .free (next ())) :
    Upholds holds may .free (planned .free (requireTenant tenant rule) >>= next) := by
  apply upholds_planned fun start => start
  intro other engine start
  apply (leads_requireTenant tenant rule engine).mono
  · intro _ _ ⟨same, owned⟩
    exact (onward owned).continues (same ▸ start)
  · exact fun _ _ same => same ▸ start
  · exact fun _ impossible => impossible

/-- The row that is loaded is what the write goes by. -/
theorem upholds_loaded (upheld : Upheld holds may) {id : RuleId}
    {next : Rule → Steps Engine WriteMark ServiceError β}
    (onward : ∀ loaded : Rule, loaded.id = id → loaded.tenant = tenant → loaded.closes →
      Upholds holds may (.reading loaded) (next loaded)) :
    Upholds holds may .free (planned .free (load tenant id) >>= next) := by
  apply upholds_planned fun start => start
  intro other engine start
  apply (leads_load tenant id engine).mono
  · intro loaded _ ⟨same, present, owned⟩
    have sound := upheld.sound start
    have identified : loaded.id = id := sound.keyed id loaded present
    have reads := onward loaded identified owned (sound.closing id loaded present)
    rw [same]
    apply reads.continues
    apply upheld.read start
    rw [identified]
    exact present
  · exact fun _ _ same => same ▸ start
  · exact fun _ impossible => impossible

end Planning

section Finishing

variable (upheld : Upheld holds may)
include upheld

theorem ensures_broadcast (start : holds debt other engine) (tenant : TenantId)
    (reason : ChangeReason) :
    Ensures (broadcast tenant reason : Act Engine ε Unit) engine (fun _ => holds debt other) := by
  apply leads_bind
  apply leads_attempt
  apply leads_read
  split
  · exact leads_fail (leads_pure start)
  · exact leads_modify (leads_pure (upheld.publish _ start))

/-- The registry call that is owed is made, or the evaluator is dropped. -/
theorem upholds_carrySteps {owed : Owed} {next : Unit → Steps Engine WriteMark ε α}
    (owned : owed.tenant = tenant) (onward : Upholds holds may (.leaving left) (next ())) :
    Upholds holds may (.owing left owed) (carrySteps tenant left owed >>= next) := by
  have drops : Upholds holds may (.owing left owed)
      (Steps.once ⟨.drop, .owing left owed⟩ (dropEvaluator tenant) >>= fun _ => next ()) := by
    apply resumes_once_bind
    · exact fun _ _ start => start
    · intro other engine start _
      apply leads_read
      apply leads_bind
      apply leads_modify
      apply leads_pure
      exact onward.continues (owned ▸ upheld.drop start)
  unfold carrySteps
  rw [bind_assoc]
  apply resumes_once_bind
  · exact fun _ _ start => start
  · intro other engine start _
    apply leads_attempt
    apply (upheld.call start).mono
    · exact fun _ _ kept => onward.continues kept
    · exact fun _ _ kept => drops.continues kept
    · exact fun _ impossible => impossible.elim

theorem upholds_announceSteps {next : Unit → Steps Engine WriteMark ε α}
    (onward : Upholds holds may (.closed left) (next ())) (reason : ChangeReason) :
    Upholds holds may (.leaving left) (announceSteps left tenant reason >>= next) := by
  apply resumes_once_bind
  · exact fun _ _ start => start
  · intro other engine start _
    apply Leads.mono (upheld.ensures_broadcast start tenant reason)
    · exact fun _ _ kept => onward.continues (upheld.close kept)
    · exact fun _ _ impossible => impossible.elim
    · exact fun _ impossible => impossible.elim

theorem upholds_invalidateSteps {next : Unit → Steps Engine WriteMark ServiceError α}
    (onward : Upholds holds may .free (next ())) (rules : List Rule) :
    Upholds holds may (.closed rules) (invalidateSteps rules >>= next) := by
  induction rules with
  | nil => exact onward.of_stronger fun _ _ start => upheld.settle start
  | cons rule rest ih =>
    unfold invalidateSteps
    rw [bind_assoc]
    apply resumes_once_bind
    · exact fun _ _ start => start
    · intro other engine start allowed
      apply Leads.mono (upheld.invalidate start allowed)
      · exact fun _ _ kept => ih.continues kept
      · exact fun _ _ impossible => impossible.elim
      · exact fun _ impossible => impossible.elim

theorem upholds_followSteps {owed : Owed} {next : Unit → Steps Engine WriteMark ServiceError α}
    (onward : Upholds holds may .free (next ())) (reason : ChangeReason) :
    Upholds holds may (.owing left owed) (followSteps left owed reason >>= next) := by
  unfold followSteps
  rw [bind_assoc]
  apply upheld.upholds_carrySteps rfl
  rw [bind_assoc]
  apply upheld.upholds_announceSteps
  exact upheld.upholds_invalidateSteps onward left

end Finishing

section Writes

variable (upheld : Upheld holds may)
include upheld

theorem upholds_insert {next : Rule → Steps Engine WriteMark ServiceError α}
    (closing : rule.closes)
    (onward : ∀ stored, Upholds holds may (.owing [stored] (.add stored)) (next stored)) :
    Upholds holds may .free (.once ⟨.insert, .free⟩
      ((onStore (fun store => store.insert rule)).mapError ServiceError.store) >>= next) := by
  apply resumes_once_bind
  · exact fun _ _ start => start
  · intro other engine start allowed
    apply leads_mapError
    apply (leads_onStore _ engine).mono
    · intro stored _ ⟨inserted, same⟩
      obtain ⟨named, after⟩ := RuleStore.insert_eq_ok inserted
      have closing_stored : stored.closes := by
        rw [named]
        exact closing
      have identified : stored.id = engine.commons.store.nextId := congrArg Rule.id named
      rw [same, after]
      exact (onward stored).continues (upheld.insert start allowed identified closing_stored)
    · intro _ _ ⟨refused, same⟩
      rw [same, RuleStore.insert_eq_error refused]
      exact start
    · exact fun _ impossible => impossible.elim

theorem upholds_createSteps (closing : rule.closes)
    {next : Rule → Steps Engine WriteMark ServiceError α}
    (onward : ∀ stored, Upholds holds may .free (next stored)) :
    Upholds holds may .free (createSteps tenant rule >>= next) := by
  have inserts (engine : Engine) : Upholds holds may .free
      (.once ⟨.insert, .free⟩ ((onStore (fun store => store.insert (created rule engine.now))).mapError
        ServiceError.store) >>= fun stored =>
          followSteps [stored] (.add stored) .ruleCreated >>= fun _ => next stored) := by
    apply upheld.upholds_insert
    · exact closing
    · exact fun stored => upheld.upholds_followSteps (onward stored) .ruleCreated
  unfold createSteps
  simp only [bind_assoc, pure_bind]
  apply upholds_owned
  intro _
  apply upheld.upholds_validated fun start => start
  exact upholds_stated (fun start => start) inserts

theorem upholds_replaceSteps {previous current : Rule} (closing : current.closes)
    (same : previous.id = current.id) (owned : previous.tenant = current.tenant)
    {next : Rule → Steps Engine WriteMark ServiceError α}
    (onward : Upholds holds may .free (next current)) (reason : ChangeReason) :
    Upholds holds may (.reading previous) (replaceSteps previous current reason >>= next) := by
  have follows : Upholds holds may (.owing [previous, current] (.replace previous current))
      (followSteps [previous, current] (.replace previous current) reason >>= fun _ =>
        next current) :=
    upheld.upholds_followSteps onward reason
  unfold replaceSteps
  simp only [bind_assoc, pure_bind]
  apply resumes_once_bind
  · exact fun _ _ start => start
  · intro other engine start allowed
    apply leads_mapError
    apply (leads_onStore _ engine).mono
    · intro _ _ ⟨updated, same_engine⟩
      obtain ⟨after, stored⟩ := RuleStore.update_eq_ok updated
      rw [same_engine, after]
      exact follows.continues (upheld.update start allowed closing same owned stored)
    · intro _ _ ⟨refused, same_engine⟩
      rw [same_engine, RuleStore.update_eq_error refused]
      exact upheld.unread start
    · exact fun _ impossible => impossible.elim

theorem upholds_updateSteps (closing : rule.closes)
    {next : Rule → Steps Engine WriteMark ServiceError α}
    (onward : ∀ stored, Upholds holds may .free (next stored)) :
    Upholds holds may .free (updateSteps tenant rule >>= next) := by
  unfold updateSteps
  simp only [bind_assoc]
  apply upholds_owned
  intro owned
  apply upheld.upholds_loaded
  intro previous identified mine _
  apply upheld.upholds_validated upheld.unread
  apply upholds_stated upheld.unread
  intro engine
  apply upheld.upholds_replaceSteps
  · exact closing
  · exact identified
  · exact mine.trans owned.symm
  · exact onward _

theorem upholds_decideApprovalSteps (id : RuleId) (approver : Principal)
    (decided : Rule → String → Instant → Rule) (reason : ChangeReason)
    (alike : ∀ rule name now, (decided rule name now).id = rule.id ∧
      (decided rule name now).tenant = rule.tenant ∧
        (decided rule name now).effectiveTo = rule.effectiveTo)
    {next : Rule → Steps Engine WriteMark ServiceError α}
    (onward : ∀ stored, Upholds holds may .free (next stored)) :
    Upholds holds may .free (decideApprovalSteps tenant id approver decided reason >>= next) := by
  unfold decideApprovalSteps
  rw [bind_assoc]
  apply upheld.upholds_loaded
  intro previous _ _ closing
  split
  · rw [bind_assoc]
    apply upholds_stated upheld.unread
    intro engine
    obtain ⟨same, owned, window⟩ := alike previous approver.id engine.now
    apply upheld.upholds_replaceSteps
    · unfold Rule.closes at closing ⊢
      rwa [window]
    · exact same.symm
    · exact owned.symm
    · exact onward _
  · apply upholds_planned upheld.unread
    exact fun _ _ start => leads_fail start

/-- What is left after more removals is what was removed before and in them. -/
theorem upholds_removeSteps (gone : List Rule) (ids : List RuleId)
    {next : List Rule × Option StoreError → Steps Engine WriteMark ε α}
    (onward : ∀ removed failure, Upholds holds may (.leaving (gone ++ removed)) (next (removed, failure))) :
    Upholds holds may (.leaving gone) (removeSteps tenant gone ids >>= next) := by
  induction ids generalizing gone next with
  | nil =>
    have ends := onward [] none
    rw [List.append_nil] at ends
    exact ends
  | cons id rest ih =>
    unfold removeSteps
    rw [bind_assoc]
    apply resumes_once_bind
    · exact fun _ _ start => start
    · intro other engine start allowed
      apply leads_attempt
      apply (leads_onStore _ engine).mono
      · intro found _ ended
        obtain ⟨deletes, same⟩ := ended
        cases found with
        | none =>
          rw [same, RuleStore.delete_eq_of_ne_some deletes (by simp)]
          exact (ih gone onward).continues start
        | some rule =>
          obtain ⟨after, present, owned⟩ := RuleStore.delete_eq_some deletes
          have identified : rule.id = id := (upheld.sound start).keyed id rule present
          have owing : (Owed.remove rule).tenant = tenant := owned
          subst identified
          have removes : Upholds holds may (.owing (gone ++ [rule]) (.remove rule))
              (carrySteps tenant (gone ++ [rule]) (.remove rule) >>= fun _ =>
                removeSteps tenant (gone ++ [rule]) rest >>= fun result =>
                  next (rule :: result.1, result.2)) := by
            apply upheld.upholds_carrySteps owing
            apply ih
            intro removed failure
            rw [List.append_assoc]
            exact onward (rule :: removed) failure
          rw [same, after]
          simp only [bind_assoc, pure_bind]
          exact removes.continues (upheld.delete start allowed present)
      · intro fault _ ended
        obtain ⟨refused, same⟩ := ended
        have ends := onward [] (some fault)
        rw [List.append_nil] at ends
        rw [same, RuleStore.delete_eq_of_ne_some refused (by simp)]
        exact ends.continues start
      · exact fun _ impossible => impossible.elim

theorem upholds_deleteSteps (ids : List RuleId)
    {next : List RuleId → Steps Engine WriteMark ServiceError α}
    (onward : ∀ removed, Upholds holds may .free (next removed)) :
    Upholds holds may .free (deleteSteps tenant ids >>= next) := by
  have reports (removed : List Rule) (failure : Option StoreError) :
      Upholds holds may .free (reportSteps removed failure >>= next) := by
    cases failure with
    | none => exact onward _
    | some fault =>
      apply upholds_planned fun start => start
      exact fun _ _ start => leads_fail start
  unfold deleteSteps
  rw [bind_assoc]
  apply upheld.upholds_removeSteps []
  intro removed failure
  cases removed with
  | nil => exact reports [] failure
  | cons rule rest =>
    simp only [List.isEmpty_cons, Bool.not_false, if_true, bind_assoc, List.nil_append]
    apply upheld.upholds_announceSteps
    exact upheld.upholds_invalidateSteps (reports (rule :: rest) failure) (rule :: rest)

/-- Every write upholds what each kind of step upholds. -/
theorem upholds_steps (write : Write) (closing : write.Closes) :
    Upholds holds may .free write.steps := by
  have ends {result : Type} (_ : result) :
      Upholds holds may .free (pure () : Steps Engine WriteMark ServiceError Unit) :=
    resumes_pure (fun _ _ start => start) ()
  have decided : ∀ status (rule : Rule) (name : String) (now : Instant),
      (rule.decided status name now).id = rule.id ∧
        (rule.decided status name now).tenant = rule.tenant ∧
          (rule.decided status name now).effectiveTo = rule.effectiveTo :=
    fun _ _ _ _ => ⟨rfl, rfl, rfl⟩
  cases write with
  | create tenant rule => exact upheld.upholds_createSteps closing ends
  | update tenant rule => exact upheld.upholds_updateSteps closing ends
  | delete tenant ids => exact upheld.upholds_deleteSteps ids ends
  | approve tenant id approver =>
    exact upheld.upholds_decideApprovalSteps id approver _ _ (decided .approved) ends
  | reject tenant id approver =>
    exact upheld.upholds_decideApprovalSteps id approver _ _ (decided .rejected) ends

end Writes

end Upheld

end Engine

end AccessPolicy
