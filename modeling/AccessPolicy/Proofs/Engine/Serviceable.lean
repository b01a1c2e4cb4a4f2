import AccessPolicy.Proofs.Engine.Lateness
import AccessPolicy.Proofs.Engine.Regular

/-!
An engine goes on serving its tenants. The next transition of a rule that counts can be told unless the
rule's window ends with the calendar; as long as no such rule is stored every evaluator can be built, and
every call is answered.
-/
namespace AccessPolicy

/-- The next transition of a rule can be told, unless it counts and its window ends with the calendar. -/
theorem Rule.exists_transition_iff (rule : Rule) (now : Instant) :
    (∃ bound, rule.transition now = .ok bound) ↔ (rule.isEligible = true → rule.closes = true) := by
  cases eligible : rule.isEligible with
  | false =>
    have told : rule.transition now = .ok none := by
      simp [transition, eligible]
    exact ⟨fun _ counts => absurd counts Bool.false_ne_true, fun _ => ⟨none, told⟩⟩
  | true =>
    constructor
    · rintro ⟨bound, same⟩ _
      simp only [transition, eligible, if_true] at same
      unfold closes
      cases window : rule.effectiveTo with
      | none => rfl
      | some last =>
        rw [window] at same
        cases next : last.next? with
        | none => simp [next] at same
        | some closing => simp [next]
    · exact fun closing => transition_of_closes (closing rfl) now

theorem exists_nextTransition_iff (rules : List Rule) (now : Instant) :
    (∃ bound, nextTransition rules now = .ok bound) ↔
      ∀ rule ∈ rules, rule.isEligible = true → rule.closes = true := by
  induction rules with
  | nil => simp [nextTransition]
  | cons rule rest ih =>
    simp only [List.forall_mem_cons, ← ih, ← rule.exists_transition_iff now, nextTransition]
    constructor
    · rintro ⟨bound, same⟩
      split at same
      · rename_i first others
        exact ⟨⟨_, first⟩, _, others⟩
      · cases same
      · cases same
    · rintro ⟨⟨one, first⟩, other, others⟩
      rw [first, others]
      exact ⟨_, rfl⟩

namespace Engine

open Act hiding pure bind state

variable {engine first : Engine} {tenant : TenantId} {submission : Submission} {event : Event}

/-- Every call ends with an answer. -/
structure Serviceable (engine : Engine) : Prop where
  /-- A rule that is committed is returned; a call is refused only without having changed anything. -/
  submits : ∀ tenant submission, engine.Orderly (.call (Submission.command tenant submission)) →
    (∃ rule, (submission.submit tenant engine.newCall).1 = .ok rule) ∨
      (∃ fault, (submission.submit tenant engine.newCall).1 = .error fault) ∧
        Idle engine.newCall ((submission.command tenant).perform engine.newCall)
  builds : ∀ tenant, ∃ evaluator, (buildEvaluator tenant engine.newCall).1 = .ok evaluator
  accesses : ∀ tenant, ∃ evaluator, (Engine.evaluator tenant engine.newCall).1 = .ok evaluator
  checks : ∀ (request : CheckRequest) options expand, request.missingField? = none →
    ∃ decision, (check request options expand engine.newCall).1 = .ok decision
  replies : ∀ tenant caller query, ∃ decision,
    ((checkPermission tenant caller query : Act Engine Empty Decision) engine.newCall).1 = .ok decision
  summaries : ∀ tenant user service inherited, ∃ entries,
    (summary tenant user service inherited engine.newCall).1 = .ok entries
  syncs : ∀ tenant service force, ∃ report, (sync tenant service force engine.newCall).1 = .ok report

/-- Calls that take the time that they take, beside evaluators that need not be right. -/
def Regime.lax : Regime :=
  ⟨fun _ => False, False, NoneStale, False, False, False⟩

theorem not_hurried_lax : ¬ Regime.lax.hurried := by
  simp [Regime.lax, Regime.hurried]

theorem Leads.exists_outcome {σ ε α : Type} {action : Act σ ε α} {state : σ} {after : α → σ → Prop}
    {failed : ε → σ → Prop} (leads : Leads action state after failed (fun _ => False)) :
    (∃ value, (action state).1 = .ok value) ∨ ∃ fault, (action state).1 = .error fault := by
  unfold Leads Ends at leads
  split at leads
  · rename_i same
    exact Or.inl ⟨_, congrArg Prod.fst same⟩
  · rename_i same
    exact Or.inr ⟨_, congrArg Prod.fst same⟩
  · exact leads.elim

theorem Ensures.exists_value {σ ε α : Type} {action : Act σ ε α} {state : σ} {after : α → σ → Prop}
    (ensures : Ensures action state after) : ∃ value, (action state).1 = .ok value := by
  obtain ⟨value, _, same, _⟩ := Leads.exists_ok ensures
  exact ⟨value, congrArg Prod.fst same⟩

theorem Coherent.leads_submit {regime : Regime} (coherent : Coherent regime engine)
    (leisure : ¬ regime.hurried)
    (admissible : (submission.command tenant).Admissible engine.commons.store) :
    Leads (submission.submit tenant) engine (fun _ => Settles regime engine)
      (fun _ => Settles regime engine) (fun _ => False) := by
  have decided : ∀ status (rule : Rule) (name : String) (now : Instant),
      (rule.decided status name now).id = rule.id ∧ (rule.decided status name now).tenant = rule.tenant ∧
        (rule.decided status name now).effectiveTo = rule.effectiveTo :=
    fun _ _ _ _ => ⟨rfl, rfl, rfl⟩
  cases submission with
  | create rule => exact settles_create coherent leisure admissible.1 admissible.2
  | update rule => exact settles_update coherent leisure admissible
  | approve id approver =>
    exact settles_decideApproval coherent leisure id approver _ _ (decided .approved)
  | reject id approver =>
    exact settles_decideApproval coherent leisure id approver _ _ (decided .rejected)

theorem serviceable_of_coherent (calls : Coherent .lax engine.newCall) : engine.Serviceable := by
  have serves : Serves .lax engine.newCall engine.newCall := calls
  have leisurely : ¬ Regime.lax.brief := fun brief => brief
  constructor
  · intro tenant submission orderly
    rcases committed_or_refused engine tenant submission with ⟨takes, _⟩ | ⟨refused, idle⟩
    · have ends := calls.leads_submit not_hurried_lax (orderly.admissible takes)
      refine Or.inl ((Leads.exists_outcome ends).resolve_right ?_)
      rintro ⟨fault, failed⟩
      exact takes fault failed
    · refine Or.inr ⟨?_, idle⟩
      simpa [Takes] using refused
  · exact fun tenant => Ensures.exists_value
      ((yields_buildEvaluator calls.sound calls.attends tenant).ensures not_hurried_lax)
  · exact fun tenant => Ensures.exists_value
      ((yields_evaluator calls.sound calls.attends tenant).ensures not_hurried_lax)
  · intro request options expand whole
    obtain ⟨decision, after, ends⟩ := exists_check serves leisurely whole options expand
    exact ⟨decision, congrArg Prod.fst ends⟩
  · exact calls.exists_reply leisurely
  · exact fun tenant user service inherited =>
      Ensures.exists_value (settles_summary calls not_hurried_lax tenant user service inherited)
  · exact fun tenant service force =>
      Ensures.exists_value (settles_sync calls not_hurried_lax tenant service force)

/-- What happens to an engine that started without rules leaves it serviceable, whatever the clock does,
as long as no rule is stored whose window ends with the calendar. -/
theorem serviceable_of_orderly {first : Engine} {events : List Event}
    (empty : first.commons.store.rows = []) (bare : first.own.evaluators = [])
    (orderly : Throughout Orderly first events)
    (reach : (first.after events).commons.store.available = true) :
    (∀ rules now, (∃ bound, nextTransition rules now = .ok bound) ↔
      ∀ rule ∈ rules, rule.isEligible = true → rule.closes = true) ∧
    (first.after events).Serviceable := by
  refine ⟨exists_nextTransition_iff, ?_⟩
  have step (engine : Engine) (event : Event) (regular : Regular Regime.lax.current engine)
      (orderly : engine.Orderly event) : Regular Regime.lax.current (event.happen engine) :=
    regular.happen orderly (Or.inl fun _ impossible => impossible)
  have regular := after_of_throughout step (regular_of_empty empty bare) orderly
  have calls : Regular Regime.lax.current (first.after events).newCall := ⟨regular.sound, regular.tracks⟩
  have coherent : Coherent .lax (first.after events).newCall.restored :=
    calls.coherent (fun cached => cached) (paced_start _)
  have reached : (first.after events).newCall.commons.store.available = true := reach
  rw [restored_eq reached] at coherent
  exact serviceable_of_coherent coherent

theorem serviceable_granting : started.commons.store.rows = [] ∧ started.own.evaluators = [] ∧
    Throughout Orderly started [.call (.create ⟨1⟩ annReads)] ∧
    granting.commons.store.available = true ∧
    (∀ rules now, (∃ bound, nextTransition rules now = .ok bound) ↔
      ∀ rule ∈ rules, rule.isEligible = true → rule.closes = true) ∧ granting.Serviceable := by
  have closing : granting.commons.store.rows.values.all Rule.closes = true := by decide
  have orderly : Throughout Orderly started [.call (.create ⟨1⟩ annReads)] :=
    ⟨⟨closing_of_all closing, fun _ _ _ => rfl⟩, trivial⟩
  have reach : granting.commons.store.available = true := rfl
  exact ⟨rfl, rfl, orderly, reach, serviceable_of_orderly rfl rfl orderly reach⟩

/-- Ann may read up to the last instant of the calendar. -/
def annReadsToTheEnd : Rule :=
  { annReads with
    effectiveTo := Instant.ofParts? Calendar.lastSecond 999999999 }

def halt? {ε α : Type} : Outcome ε α → Option Halt
  | .halted halt => some halt
  | _ => none

/-- The validator accepts the rule; the call that stores it does not return, and no later call for the
tenant does that needs its evaluator. -/
theorem locked_out_by_accepted :
    let command : Command := .create ⟨1⟩ annReadsToTheEnd
    let engine : Engine := command.perform started.newCall
    (∀ existing now, (Validator.standard.validate annReadsToTheEnd existing now).valid = true) ∧
    (∀ now, annReadsToTheEnd.transition now = .error ⟨⟩) ∧
    halt? (create ⟨1⟩ annReadsToTheEnd started.newCall).1 = some .calendarEnd ∧
    engine.commons.store.rows.get? ⟨1⟩ = some { annReadsToTheEnd with id := ⟨1⟩ } ∧
    engine.commons.store.available = true ∧
    halt? (buildEvaluator ⟨1⟩ engine.newCall).1 = some .calendarEnd ∧
    halt? ((checkPermission ⟨1⟩ ⟨"clerk", []⟩ mayAnnRead : Act Engine Empty Decision)
      engine.newCall).1 = some .calendarEnd ∧
    halt? (summary ⟨1⟩ "ann" none true engine.newCall).1 = some .calendarEnd ∧
    halt? (sync ⟨1⟩ none false engine.newCall).1 = some .calendarEnd := by
  refine ⟨fun _ _ => Validator.valid_iff.mpr ?_, fun _ => rfl, ?_, rfl, rfl, ?_, ?_, ?_, ?_⟩
  · unfold Rule.Accepted
    decide +kernel
  all_goals decide +kernel

end Engine

end AccessPolicy
