import AccessPolicy.Proofs.Engine.Ledger
import AccessPolicy.Proofs.Engine.Provenance
import AccessPolicy.Proofs.Engine.Renewal

/-!
Usage accounts are exact. While a rule stays stored its count grows by one for each evaluation behind a
check or an item of a batch that used it, and by nothing else: rewriting the rule, approving or rejecting
it, the sweep, a synchronization and a refresh leave its account alone.
-/
namespace AccessPolicy

open RuleStore

/-- The evaluations behind an event. -/
def Event.findings : Event → Engine → List (List Finding)
  | call command, engine => command.findings engine.newCall
  | _, _ => []

namespace Engine

open Act hiding pure bind state

variable {engine : Engine} {event : Event} {events : List Event} {id : RuleId} {row : Rule}

/-- The evaluations behind what happens, of each check and of each item of a batch, in their order. -/
def ledger : Engine → List Event → List (List Finding)
  | _, [] => []
  | engine, event :: rest => event.findings engine ++ ledger (event.happen engine) rest

/-- The rule stays stored, in a store that can be reached and has an id for a new rule. -/
structure Retaining (id : RuleId) (engine : Engine) (event : Event) : Prop where
  available : engine.commons.store.available = true
  room : ∀ tenant rule, event = .call (.create tenant rule) → engine.commons.store.HasRoom
  stays : (event.happen engine).commons.store.rows.get? id ≠ none

section Accounts

theorem usedLike_disabled (row : Rule) (now : Instant) : (disabled row now).UsedLike row :=
  ⟨rfl, rfl, rfl⟩

/-- An event that asks for no decision leaves the account of a rule alone. -/
theorem Filed.usedLike_after (filed : engine.Filed) (retaining : engine.Retaining id event)
    (plain : ∀ command, event = .call command → command.decides = false)
    (stored : engine.commons.store.rows.get? id = some row) :
    ∃ final, (event.happen engine).commons.store.rows.get? id = some final ∧ final.UsedLike row := by
  obtain ⟨final, present⟩ := Option.ne_none_iff_exists'.mp retaining.stays
  refine ⟨final, present, ?_⟩
  have calls : engine.newCall.Filed := ⟨filed.ordered, filed.keyed⟩
  have upkeep (other : ∀ tenant submission, event ≠ .call (Submission.command tenant submission)) :
      DescendsBy Rule.UsedLike engine.commons.store.rows (event.happen engine) := by
    by_cases called : ∃ command, event = .call command
    · obtain ⟨command, rfl⟩ := called
      exact calls.descendsBy_perform Rule.UsedLike.refl (fun row => usedLike_disabled row _)
        (plain command rfl) fun tenant submission same =>
          other tenant submission (congrArg Event.call same)
    · exact descendsBy_happen Rule.UsedLike.refl fun command same => called ⟨command, same⟩
  rcases filed.stored_after_of_upkeep Rule.UsedLike.refl upkeep present with
    ⟨tenant, submission, write, submits, target, writes⟩ | ⟨_, previous, before, like⟩
  · have commit := filed.keyed.commit writes
    have named : final.id = id := (filed.keyed.target_eq writes).trans target
    cases replaced : submission.replaced? with
    | none =>
      -- A new row would need an id that is not in use.
      cases submission with
      | create rule =>
        have free : engine.commons.store.rows.get? engine.commons.store.nextId = none :=
          retaining.room tenant rule submits.1
        have next : engine.commons.store.nextId = id := target
        rw [next, stored] at free
        cases free
      | update | approve | reject => cases replaced
    | some old =>
      obtain ⟨previous, rfl, _, succeeds⟩ := commit.replaced old replaced
      have before : engine.commons.store.rows.get? final.id = some previous := commit.stands.1
      rw [named, stored] at before
      cases before
      exact ⟨succeeds.tenant, succeeds.usageCount, succeeds.lastUsedAt⟩
  · rw [stored] at before
    cases before
    exact like

/-- An event counts the evaluations behind it that use the rule. -/
theorem Filed.tallied_after (filed : engine.Filed) (retaining : engine.Retaining id event)
    (stored : engine.commons.store.rows.get? id = some row) :
    ∃ final, (event.happen engine).commons.store.rows.get? id = some final ∧
      final.UsedLike (tally row (usesOf row id (event.findings engine).flatten)) := by
  have idle (plain : ∀ command, event = .call command → command.decides = false)
      (nothing : event.findings engine = []) :
      ∃ final, (event.happen engine).commons.store.rows.get? id = some final ∧
        final.UsedLike (tally row (usesOf row id (event.findings engine).flatten)) := by
    rw [nothing]
    exact filed.usedLike_after retaining plain stored
  cases event with
  | call command =>
    cases asks : command.decides with
    | true =>
      have counted : Counted engine.newCall (command.perform engine.newCall)
          (command.findings engine.newCall).flatten := counted_perform asks
      have reached : engine.newCall.commons.store.available = true := retaining.available
      refine ⟨_, ?_, .refl _⟩
      change (command.perform engine.newCall).commons.store.rows.get? id = _
      rw [counted.commons]
      exact get?_foldl_count reached counted.distinct stored
    | false =>
      apply idle
      · rintro _ ⟨⟩
        exact asks
      · cases command <;> first | rfl | cases asks
  | _ => exact idle (fun _ => nofun) rfl

/-- A run counts, of the evaluations behind it, those that use the rule. -/
theorem Filed.tallied_throughout (filed : engine.Filed)
    (throughout : Throughout (Retaining id) engine events)
    (stored : engine.commons.store.rows.get? id = some row) :
    ∃ final, (engine.after events).commons.store.rows.get? id = some final ∧
      final.UsedLike (tally row (usesOf row id (engine.ledger events).flatten)) := by
  induction events generalizing engine row with
  | nil => exact ⟨row, stored, .refl row⟩
  | cons event rest ih =>
    obtain ⟨middle, present, like⟩ := filed.tallied_after throughout.1 stored
    obtain ⟨final, last, later⟩ := ih (filed.happen event) throughout.2 present
    refine ⟨final, last, later.trans ?_⟩
    have own : middle.tenant = row.tenant := like.tenant.trans (tally_tenant ..)
    have same : usesOf middle id = usesOf row id := by
      funext made
      unfold usesOf
      rw [own]
    have split : usesOf row id (engine.ledger (event :: rest)).flatten =
        usesOf row id (event.findings engine).flatten ++
          usesOf row id ((event.happen engine).ledger rest).flatten := by
      unfold usesOf
      rw [ledger, List.flatten_append, List.filter_append]
    rw [split, tally_append, same]
    exact tally_usedLike like _

end Accounts

section Once

theorem follows_enrichers (enrichers : Table String Enricher) :
    AdmitsFollowing (fun engine => engine.own.enrichers = enrichers) where
  toAdmitsNotices := (admits_enrichers enrichers _).toAdmitsNotices
  dropAll := fun same => same
  listener := fun _ same => same
  clear := fun _ same => same

theorem enrichers_happen (engine : Engine) (event : Event) :
    (event.happen engine).own.enrichers = engine.own.enrichers := by
  have admits := admits_enrichers engine.own.enrichers (fun _ => True)
  have follows := follows_enrichers engine.own.enrichers
  have start : engine.newCall.own.enrichers = engine.own.enrichers := rfl
  cases event with
  | call command =>
    have every : command.For fun _ => True := by
      cases command <;> simp [Command.For]
    cases asks : command.decides with
    | true => exact admits.toAdmitsDecisions.perform asks every start
    | false =>
      exact admits.toAdmits.perform admits.toAdmits (fun _ same => same) (fun _ _ _ same => same) asks
        every start
  | listen => exact follows.listen _ start
  | shutdown => exact follows.shutdown _ start
  | takeChanges => exact follows.takeChanges _ start
  | applyChange change => exact follows.applyChange change _ start
  | clock | store | bus | delay | cache => rfl

/-- Each check and each item of a batch in the ledger has no more than one evaluation that allows. -/
theorem Lenient.single_ledger (lenient : engine.Lenient) (events : List Event) :
    ∀ made ∈ engine.ledger events, Single made := by
  induction events generalizing engine with
  | nil => exact fun _ => nofun
  | cons event rest ih =>
    intro made member
    rcases List.mem_append.mp member with first | later
    · cases event with
      | call command =>
        have calls : engine.newCall.Lenient := lenient.of_enrichers rfl
        exact calls.single_findings command made first
      | _ => cases first
    · exact ih (lenient.of_enrichers (enrichers_happen engine event)) made later

theorem length_usesOf_of_single {made : List Finding} (single : Single made) :
    (usesOf row id made).length = if made.any (·.uses row.tenant id) then 1 else 0 := by
  have few : (usesOf row id made).length ≤ 1 := by
    unfold usesOf
    rw [← List.countP_eq_length_filter]
    exact Nat.le_trans (List.countP_mono_left fun one _ uses => one.allowed_of_uses uses) single
  by_cases used : made.any (·.uses row.tenant id) = true
  · obtain ⟨one, member, uses⟩ := List.any_eq_true.mp used
    have some_use : 0 < (usesOf row id made).length :=
      List.length_pos_of_mem (List.mem_filter.mpr ⟨member, uses⟩)
    rw [if_pos used]
    omega
  · have no_use : usesOf row id made = [] :=
      List.filter_eq_nil_iff.mpr fun one member uses =>
        used (List.any_eq_true.mpr ⟨one, member, uses⟩)
    rw [if_neg used, no_use, List.length_nil]

/-- Where each check and each item has no more than one evaluation that allows, the uses of a rule are
the checks and the items that used it. -/
theorem length_usesOf_flatten {ledger : List (List Finding)} (single : ∀ made ∈ ledger, Single made) :
    (usesOf row id ledger.flatten).length =
      ledger.countP (fun made => made.any (·.uses row.tenant id)) := by
  induction ledger with
  | nil => rfl
  | cons made rest ih =>
    have first : (usesOf row id made).length = if made.any (·.uses row.tenant id) then 1 else 0 :=
      length_usesOf_of_single (single made List.mem_cons_self)
    have later := ih fun other member => single other (List.mem_cons_of_mem _ member)
    unfold usesOf at first later ⊢
    rw [List.flatten_cons, List.filter_append, List.length_append, first, later, List.countP_cons,
      Nat.add_comm]

end Once

theorem Lenient.after (lenient : engine.Lenient) (events : List Event) :
    (engine.after events).Lenient :=
  after_of_step (fun engine event kept => kept.of_enrichers (enrichers_happen engine event)) lenient
    events

/-- While a rule stays stored, its count grows by the number of evaluations behind the checks and the
items of batches that used it, and the last of them dates its last use. Unless an enricher turns an allow
into a deny, these are as many as the checks and items that used it, and a check that used it is answered
with an allow or is out of time. -/
theorem usage_counted (filed : engine.Filed) (throughout : Throughout (Retaining id) engine events)
    (stored : engine.commons.store.rows.get? id = some row)
    (fits : row.usageCount.toNat + (usesOf row id (engine.ledger events).flatten).length < 2 ^ 64) :
    ∃ final, (engine.after events).commons.store.rows.get? id = some final ∧
      final.usageCount.toNat =
        row.usageCount.toNat + (usesOf row id (engine.ledger events).flatten).length ∧
      final.lastUsedAt = ((usesOf row id (engine.ledger events).flatten).getLast?.map (·.moment)).or
        row.lastUsedAt ∧
      (engine.Lenient → (usesOf row id (engine.ledger events).flatten).length =
          (engine.ledger events).countP (fun made => made.any (·.uses row.tenant id)) ∧
        ∀ past request options expand rest reply,
          events = past ++ .call (.check request options expand) :: rest →
          (check request options expand (engine.after past).newCall).1 = .ok reply →
          (∃ one ∈ checkFindings request options expand (engine.after past).newCall,
            one.uses row.tenant id = true) →
          reply.allowed = true ∨ reply = Decision.deny Reason.deadline) := by
  obtain ⟨final, present, like⟩ := filed.tallied_throughout throughout stored
  refine ⟨final, present, ?_, ?_, ?_⟩
  · rw [like.usageCount]
    exact toNat_tally_usageCount fits
  · rw [like.lastUsedAt]
    exact tally_lastUsedAt row _
  · intro lenient
    refine ⟨length_usesOf_flatten (lenient.single_ledger events), ?_⟩
    rintro past request options expand rest reply - replied ⟨one, made, uses⟩
    have calls : (engine.after past).newCall.Lenient := (lenient.after past).of_enrichers rfl
    exact calls.allowed_or_late replied made (one.allowed_of_uses uses)

section Examples

/-- Ann's rule as it is stored. -/
def annStored : Rule :=
  { annReads with id := ⟨1⟩ }

/-- Ann is asked about, her rule is submitted with a count of its own, and she is asked about again. -/
def annAskedTwice : List Event :=
  let asked : Event :=
    .call (.checkPermission ⟨1⟩ ⟨"clerk", []⟩ { mayAnnRead with useCache := false })
  [asked, .call (.update ⟨1⟩ { annStored with usageCount := 40 }), asked]

theorem retaining_of_call {command : Command} (available : engine.commons.store.available = true)
    (other : ∀ tenant rule, command ≠ .create tenant rule)
    (stays : ((command.perform engine.newCall).commons.store.rows.get? id).isSome = true) :
    engine.Retaining id (.call command) where
  available := available
  room := fun tenant rule same => absurd (Event.call.inj same) (other tenant rule)
  stays := fun gone => by
    change (command.perform engine.newCall).commons.store.rows.get? id = none at gone
    rw [gone] at stays
    cases stays

theorem granting_filed : granting.Filed := by
  have filed : started.Filed := filed_of_empty rfl
  exact filed.happen (.call (.create ⟨1⟩ annReads))

theorem usage_counted_of_annAskedTwice : granting.Filed ∧
    Throughout (Retaining ⟨1⟩) granting annAskedTwice ∧
    granting.commons.store.rows.get? ⟨1⟩ = some annStored ∧
    (usesOf annStored ⟨1⟩ (granting.ledger annAskedTwice).flatten).length = 2 ∧
    ∃ final, (granting.after annAskedTwice).commons.store.rows.get? ⟨1⟩ = some final ∧
      final.usageCount.toNat = 2 ∧ final.lastUsedAt = some .epoch := by
  have throughout : Throughout (Retaining ⟨1⟩) granting annAskedTwice := by
    refine ⟨?_, ?_, ?_, trivial⟩ <;> apply retaining_of_call
    all_goals first | exact fun _ _ => nofun | decide +kernel
  have stored : granting.commons.store.rows.get? ⟨1⟩ = some annStored := rfl
  have uses : (usesOf annStored ⟨1⟩ (granting.ledger annAskedTwice).flatten).length = 2 := by
    decide +kernel
  have last : (usesOf annStored ⟨1⟩ (granting.ledger annAskedTwice).flatten).getLast?.map
      (·.moment) = some .epoch := by
    decide +kernel
  have fits : annStored.usageCount.toNat +
      (usesOf annStored ⟨1⟩ (granting.ledger annAskedTwice).flatten).length < 2 ^ 64 := by
    rw [uses]
    decide
  obtain ⟨final, present, count, date, _⟩ := usage_counted granting_filed throughout stored fits
  rw [uses] at count
  rw [last] at date
  exact ⟨granting_filed, throughout, stored, uses, final, present, count, date⟩

/-- How often the rule that is stored under an id has been used. -/
def usageOf (id : RuleId) (engine : Engine) : Option Nat :=
  (engine.commons.store.rows.get? id).map (·.usageCount.toNat)

/-- The engine has no evaluator of Ann's tenant, and searches take ten milliseconds. -/
def slowToAnswer : Engine :=
  (granting.withEvaluators []).setFindDelay 10

/-- Refuses what is asked about Ann. -/
def vetoing : Enricher := fun request decision =>
  if request.subject = "ann" then { decision with allowed := false } else decision

def hiredUnderVeto : Engine :=
  { hired with own := { hired.own with enrichers := [("orders", vetoing)] } }

/-- What a check decides for Ann, and for what reason. -/
def answerFor (options : CheckOptions) (expand : Bool) (engine : Engine) : Option (Bool × String) :=
  match (check (mayAnnRead.toRequest ⟨1⟩ ⟨"clerk", []⟩) options expand engine.newCall).1 with
  | .ok decision => some (decision.allowed, decision.reason)
  | _ => none

/-- A use is counted although its check is out of time when the decision has been made, and no evaluation
decides it. One check counts a use twice when an enricher refuses Ann what her rule allows her, and her
role is asked about next. -/
theorem counted_beyond_decisions :
    (slowToAnswer.Retaining ⟨1⟩
        (.call (.check (mayAnnRead.toRequest ⟨1⟩ ⟨"clerk", []⟩) { deadline := some 10 } false)) ∧
      usageOf ⟨1⟩ slowToAnswer = some 0 ∧
      answerFor { deadline := some 10 } false slowToAnswer = some (false, Reason.deadline) ∧
      usageOf ⟨1⟩ (slowToAnswer.after [.call (.check (mayAnnRead.toRequest ⟨1⟩ ⟨"clerk", []⟩)
        { deadline := some 10 } false)]) = some 1) ∧
    hiredUnderVeto.Retaining ⟨2⟩
        (.call (.check (mayAnnRead.toRequest ⟨1⟩ ⟨"clerk", []⟩) { useCache := false } true)) ∧
      usageOf ⟨2⟩ hiredUnderVeto = some 0 ∧
      answerFor { useCache := false } true hiredUnderVeto = some (true, Reason.viaRole "reader") ∧
      usageOf ⟨2⟩ (hiredUnderVeto.after
        [.call (.check (mayAnnRead.toRequest ⟨1⟩ ⟨"clerk", []⟩) { useCache := false } true)]) = some 2 := by
  refine ⟨⟨retaining_of_call ?_ ?_ ?_, ?_, ?_, ?_⟩, retaining_of_call ?_ ?_ ?_, ?_, ?_, ?_⟩
  all_goals first | exact fun _ _ => nofun | decide +kernel

end Examples

end Engine

end AccessPolicy
