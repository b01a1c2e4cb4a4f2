import Mathlib.Data.List.Induction
import AccessPolicy.Proofs.Engine.Provenance

/-!
Approval as a workflow. A rule that requires approval counts only after it has been approved, in its
current content, and as long as it is not rejected; or its author has submitted it as approved already.
-/
namespace AccessPolicy

/-- The rule whose content is submitted. -/
def Submission.content? : Submission → Option Rule
  | create rule | update rule => some rule
  | approve _ _ | reject _ _ => none

namespace Engine

variable {first engine : Engine} {events : List Event} {event : Event} {id : RuleId}
variable {row previous rule : Rule}

/-- The event is a call that is not refused and gives the row its content. -/
def Gives (engine : Engine) (event : Event) (id : RuleId) (rule : Rule) : Prop :=
  ∃ tenant submission, engine.Submits event tenant submission ∧
    submission.content? = some rule ∧ submission.target engine.commons.store = id

/-- The event is an approval of the row that is not refused. -/
def Approves (engine : Engine) (event : Event) (id : RuleId) : Prop :=
  ∃ tenant approver, engine.Submits event tenant (.approve id approver)

def Rejects (engine : Engine) (event : Event) (id : RuleId) : Prop :=
  ∃ tenant approver, engine.Submits event tenant (.reject id approver)

/-- The event does not give the row another content. -/
def Leaves (engine : Engine) (event : Event) (id : RuleId) : Prop :=
  ∀ rule, ¬ engine.Gives event id rule

/-- The row has the content that a call has given it, and no later one has given it another. -/
structure GivenAt (first : Engine) (past : List Event) (given : Event) (rest : List Event) (id : RuleId)
    (rule row : Rule) : Prop where
  gives : (first.after past).Gives given id rule
  content : row.content = rule.content
  lasts : Throughout (Leaves · · id) (first.after (past ++ [given])) rest

/-- The row was approved after the call that gave it its content, and it has not been rejected since. -/
def ApprovedSince (first : Engine) (events : List Event) (id : RuleId) (row : Rule) : Prop :=
  ∃ past given between approval rest rule, events = past ++ given :: (between ++ approval :: rest) ∧
    GivenAt first past given (between ++ approval :: rest) id rule row ∧
    (first.after (past ++ given :: between)).Approves approval id ∧
    Throughout (¬ Rejects · · id) (first.after (past ++ given :: (between ++ [approval]))) rest

/-- The call that gave the row its content submitted it as approved, and it has not been rejected
since. -/
def SubmittedApproved (first : Engine) (events : List Event) (id : RuleId) (row : Rule) : Prop :=
  ∃ past given rest rule, events = past ++ given :: rest ∧
    GivenAt first past given rest id rule row ∧ rule.approvalStatus = .approved ∧
    Throughout (¬ Rejects · · id) (first.after (past ++ [given])) rest

section Steps

theorem leaves_of_spares (spares : engine.Spares event id) : engine.Leaves event id := by
  rintro rule ⟨tenant, submission, submits, _, target⟩
  exact spares tenant submission submits target

theorem not_rejects_of_spares (spares : engine.Spares event id) : ¬ engine.Rejects event id := by
  rintro ⟨tenant, approver, submits⟩
  exact spares tenant _ submits rfl

/-- A decision leaves the content of every row. -/
theorem leaves_of_submits {tenant : TenantId} {submission : Submission}
    (submits : engine.Submits event tenant submission) (decides : submission.content? = none) :
    engine.Leaves event id := by
  rintro rule ⟨other, another, submitsToo, gives, _⟩
  obtain ⟨rfl, rfl⟩ :=
    Submission.command_injective (Event.call.inj (submits.1.symm.trans submitsToo.1))
  rw [decides] at gives
  cases gives

end Steps

section Histories

theorem after_cons (first : Engine) (past : List Event) (event : Event) (rest : List Event) :
    (first.after (past ++ [event])).after rest = first.after (past ++ event :: rest) := by
  rw [← after_append, List.append_assoc, List.singleton_append]

variable {past rest : List Event} {given next : Event}

/-- What leaves the row its content leaves it given where it was. -/
theorem GivenAt.later (at_past : GivenAt first past given rest id rule previous)
    (leaves : (first.after (past ++ given :: rest)).Leaves next id)
    (same : row.content = previous.content) :
    GivenAt first past given (rest ++ [next]) id rule row := by
  refine ⟨at_past.gives, same.trans at_past.content, ?_⟩
  rw [throughout_append, after_cons]
  exact ⟨at_past.lasts, leaves, trivial⟩

theorem ApprovedSince.later (approved : ApprovedSince first events id previous)
    (leaves : (first.after events).Leaves next id) (stays : ¬ (first.after events).Rejects next id)
    (same : row.content = previous.content) : ApprovedSince first (events ++ [next]) id row := by
  obtain ⟨past, given, between, approval, rest, rule, rfl, at_past, approves, unrejected⟩ := approved
  refine ⟨past, given, between, approval, rest ++ [next], rule, by simp, ?_, approves, ?_⟩
  · simpa using at_past.later leaves same
  · rw [throughout_append]
    refine ⟨unrejected, ?_, trivial⟩
    rw [← after_append]
    simpa using stays

theorem SubmittedApproved.later (submitted : SubmittedApproved first events id previous)
    (leaves : (first.after events).Leaves next id) (stays : ¬ (first.after events).Rejects next id)
    (same : row.content = previous.content) : SubmittedApproved first (events ++ [next]) id row := by
  obtain ⟨past, given, rest, rule, rfl, at_past, approved, unrejected⟩ := submitted
  refine ⟨past, given, rest ++ [next], rule, by simp, at_past.later leaves same, approved, ?_⟩
  rw [throughout_append, after_cons]
  exact ⟨unrejected, stays, trivial⟩

/-- Where the content of a stored row comes from, and, where it is approved, its approval. -/
structure Traced (first : Engine) (events : List Event) (id : RuleId) (row : Rule) : Prop where
  given : ∃ past given rest rule, events = past ++ given :: rest ∧
    GivenAt first past given rest id rule row
  warranted : row.approvalStatus = .approved →
    ApprovedSince first events id row ∨ SubmittedApproved first events id row

theorem Traced.later (traced : Traced first events id previous)
    (spares : (first.after events).Spares next id) (retains : row.Retains previous) :
    Traced first (events ++ [next]) id row := by
  have leaves : (first.after events).Leaves next id := leaves_of_spares spares
  have stays : ¬ (first.after events).Rejects next id := not_rejects_of_spares spares
  constructor
  · obtain ⟨past, given, rest, rule, rfl, at_past⟩ := traced.given
    exact ⟨past, given, rest ++ [next], rule, by simp, at_past.later leaves retains.content⟩
  · intro approved
    exact (traced.warranted (retains.approval.symm.trans approved)).imp
      (fun since => since.later leaves stays retains.content)
      fun submitted => submitted.later leaves stays retains.content

/-- A call that gives a row its content is where the row comes from. -/
theorem traced_of_gives (gives : (first.after events).Gives next id rule)
    (content : row.content = rule.content) (approval : row.approvalStatus = rule.approvalStatus) :
    Traced first (events ++ [next]) id row := by
  have at_last : GivenAt first events next [] id rule row := ⟨gives, content, trivial⟩
  exact ⟨⟨events, next, [], rule, rfl, at_last⟩, fun approved =>
    Or.inr ⟨events, next, [], rule, rfl, at_last, approval.symm.trans approved, trivial⟩⟩

theorem Traced.approve (traced : Traced first events id previous)
    (approves : (first.after events).Approves next id)
    (leaves : (first.after events).Leaves next id) (content : row.content = previous.content) :
    Traced first (events ++ [next]) id row := by
  obtain ⟨past, given, rest, rule, rfl, at_past⟩ := traced.given
  have later : GivenAt first past given (rest ++ [next]) id rule row := at_past.later leaves content
  refine ⟨⟨past, given, rest ++ [next], rule, by simp, later⟩, fun _ => Or.inl ?_⟩
  exact ⟨past, given, rest, next, [], rule, by simp, later, approves, trivial⟩

theorem Traced.reject (traced : Traced first events id previous)
    (leaves : (first.after events).Leaves next id) (content : row.content = previous.content)
    (rejected : row.approvalStatus = .rejected) : Traced first (events ++ [next]) id row := by
  obtain ⟨past, given, rest, rule, rfl, at_past⟩ := traced.given
  refine ⟨⟨past, given, rest ++ [next], rule, by simp, at_past.later leaves content⟩, ?_⟩
  intro approved
  rw [rejected] at approved
  cases approved

/-- Every row that is stored, of those that were written since the store was empty, is traced. -/
theorem traced_after (empty : first.commons.store.rows = []) (events : List Event)
    (stored : (first.after events).commons.store.rows.get? id = some row) :
    Traced first events id row := by
  induction events using List.reverseRecOn generalizing id row with
  | nil =>
    replace stored : first.commons.store.rows.get? id = some row := stored
    rw [empty] at stored
    cases stored
  | append_singleton events event ih =>
    rw [after_concat] at stored
    rcases (filed_after empty events).stored_after stored with
      ⟨tenant, submission, write, submits, target, writes⟩ | ⟨spares, previous, before, retains⟩
    · cases writes with
      | create _ _ version | update _ _ _ _ version =>
        subst version
        exact traced_of_gives ⟨tenant, _, submits, rfl, target⟩ rfl rfl
      | approve found _ _ version =>
        subst version target
        exact (ih found).approve ⟨tenant, _, submits⟩ (leaves_of_submits submits rfl) rfl
      | reject found _ _ version =>
        subst version target
        exact (ih found).reject (leaves_of_submits submits rfl) rfl rfl
    · exact (ih before).later spares retains

/-- A stored rule that requires approval and counts has been approved in its current content and not
been rejected since, or was submitted as approved and not rejected since. -/
theorem approved_of_active (empty : first.commons.store.rows = []) (events : List Event)
    (stored : (first.after events).commons.store.rows.get? id = some row)
    (required : row.requireApproval = true) {now : Instant} (active : row.isActive now = true) :
    ApprovedSince first events id row ∨ SubmittedApproved first events id row :=
  (traced_after empty events stored).warranted (Rule.approved_of_isActive active required).2

/-- Ann may read once that has been approved. -/
def annAwaits : Rule :=
  annReads.requiringApproval

def bobApproves : List Event :=
  [.call (.create ⟨1⟩ annAwaits), .call (.approve ⟨1⟩ ⟨1⟩ ⟨"bob", []⟩)]

def annApproved : Rule :=
  { annAwaits.approve "bob" .epoch with id := ⟨1⟩ }

theorem approved_of_bobApproves : started.commons.store.rows = [] ∧
    (started.after bobApproves).commons.store.rows.get? ⟨1⟩ = some annApproved ∧
    annApproved.requireApproval = true ∧ annApproved.isActive .epoch = true ∧
    (ApprovedSince started bobApproves ⟨1⟩ annApproved ∨
      SubmittedApproved started bobApproves ⟨1⟩ annApproved) :=
  have stored : (started.after bobApproves).commons.store.rows.get? ⟨1⟩ = some annApproved := rfl
  have active : annApproved.isActive .epoch = true := by decide
  ⟨rfl, stored, rfl, active, approved_of_active rfl bobApproves stored rfl active⟩

/-- Ann's rule as somebody submits it who says that it has been approved. -/
def annSaysApproved : Rule :=
  { annAwaits with
    approvalStatus := .approved
    approvedBy := some "ann" }

/-- A rule that requires approval counts, and lets Ann read, although nobody has approved it. -/
theorem allowed_without_approval :
    let events : List Event := [.call (.create ⟨1⟩ annSaysApproved)]
    let row : Rule := { annSaysApproved with id := ⟨1⟩ }
    (started.after events).commons.store.rows.get? ⟨1⟩ = some row ∧
    row.requireApproval = true ∧ row.isActive .epoch = true ∧
    ¬ ApprovedSince started events ⟨1⟩ row ∧
    allowed? ((checkPermission ⟨1⟩ ⟨"clerk", []⟩ mayAnnRead : Act Engine Empty Decision)
      (started.after events).newCall).1 = some true := by
  refine ⟨rfl, rfl, by decide, ?_, ?_⟩
  · rintro ⟨past, given, between, approval, rest, rule, same, _⟩
    have long := congrArg List.length same
    simp at long
    omega
  · decide +kernel

end Histories

end Engine

end AccessPolicy
