import AccessPolicy.Proofs.Engine.Event

/-!
Where stored rows come from. What is stored under an id after an event was committed by a call for that
id, or it was stored under the id before and upkeep has changed no more than its bookkeeping.
-/
namespace AccessPolicy

namespace Submission

variable {tenant : TenantId} {commons : Commons} {submission : Submission} {row : Rule}
variable {write : RowWrite}

/-- The id under which the call writes. -/
def target (submission : Submission) (store : RuleStore) : RuleId :=
  submission.replaced?.getD store.nextId

theorem command_injective {other : TenantId} {another : Submission}
    (same : submission.command tenant = another.command other) :
    tenant = other ∧ submission = another := by
  cases submission <;> cases another <;> cases same <;> exact ⟨rfl, rfl⟩

theorem Writes.rows_eq (writes : submission.Writes tenant commons row write) (store : RuleStore) :
    (write.apply store).rows = store.rows.put row.id row := by
  cases writes <;> rfl

end Submission

namespace Engine

open Act hiding pure bind state

variable {engine after : Engine} {tenant : TenantId} {submission : Submission} {event : Event}
variable {rows : Table RuleId Rule} {id : RuleId} {row : Rule} {related : Rule → Rule → Prop}

theorem Keyed.target_eq (keyed : engine.Keyed) {write : RowWrite}
    (writes : submission.Writes tenant engine.commons row write) :
    row.id = submission.target engine.commons.store := by
  cases writes with
  | create _ _ version | update _ _ _ _ version =>
    rw [version]
    rfl
  | approve found _ _ version | reject found _ _ version =>
    rw [version]
    exact (keyed _ _ found :)

section Submitting

/-- The call is not refused: it ends with the rule, or it commits the rule and halts after that. -/
def Takes (engine : Engine) (tenant : TenantId) (submission : Submission) : Prop :=
  ∀ fault, (submission.submit tenant engine).1 ≠ .error fault

/-- A call without a time limit commits its rule, unless it is refused and changes nothing. -/
theorem committed_or_refused (engine : Engine) (tenant : TenantId) (submission : Submission) :
    engine.newCall.Takes tenant submission ∧ (∃ row write,
        submission.Writes tenant engine.commons row write ∧
          ((submission.command tenant).perform engine.newCall).commons.store.rows =
            engine.commons.store.rows.put row.id row) ∨
      ¬ engine.newCall.Takes tenant submission ∧
        Idle engine.newCall ((submission.command tenant).perform engine.newCall) := by
  have paced : Paced (Regime.steady False) engine.newCall.timing := paced_start _
  have leads := leadsToCommit_submit paced tenant submission
  have committed {row : Rule} {write : RowWrite} {after : Engine}
      (writes : submission.Writes tenant engine.commons row write)
      (stored : after.commons.store = write.apply engine.commons.store) :
      ∃ row write, submission.Writes tenant engine.commons row write ∧
        after.commons.store.rows = engine.commons.store.rows.put row.id row :=
    ⟨row, write, writes, by rw [stored, writes.rows_eq]⟩
  rw [Submission.perform_command]
  unfold Takes
  unfold LeadsToCommit Leads Ends at leads
  generalize submission.submit tenant engine.newCall = result at leads
  obtain ⟨outcome, after⟩ := result
  cases outcome with
  | ok rule =>
    obtain ⟨write, writes, shares⟩ := leads
    refine Or.inl ⟨fun _ => nofun, committed writes ?_⟩
    rw [shares.commons, Commons.tell_store]
    rfl
  | error fault =>
    exact Or.inr ⟨fun takes => takes fault rfl, leads⟩
  | halted halt =>
    refine Or.inl ⟨fun _ => nofun, ?_⟩
    rcases leads with ⟨hurried, _⟩ | ⟨rule, write, writes, shares | shares⟩
    · exact absurd hurried (not_hurried_steady False)
    · exact committed writes (by rw [shares.commons]; rfl)
    · refine committed writes ?_
      rw [shares.commons, Commons.tell_store]
      rfl

end Submitting

section Upkeep

/-- Each row was stored under its id before, and is related to what it was. -/
def DescendsBy (related : Rule → Rule → Prop) (rows : Table RuleId Rule) (engine : Engine) : Prop :=
  ∀ id row, engine.commons.store.rows.get? id = some row →
    ∃ previous, rows.get? id = some previous ∧ related row previous

/-- Each row was stored under its id before, and no more than its bookkeeping has changed since. -/
def Descends (rows : Table RuleId Rule) (engine : Engine) : Prop :=
  ∀ id row, engine.commons.store.rows.get? id = some row →
    ∃ previous, rows.get? id = some previous ∧ row.Retains previous

theorem descendsBy_refl (refl : ∀ row, related row row) (engine : Engine) :
    DescendsBy related engine.commons.store.rows engine :=
  fun _ row present => ⟨row, present, refl row⟩

theorem DescendsBy.putRow (descends : DescendsBy related rows engine) {previous : Rule}
    (present : rows.get? row.id = some previous) (relates : related row previous) :
    DescendsBy related rows (engine.withStore (engine.commons.store.putRow row)) := by
  intro id found stored
  replace stored : (engine.commons.store.rows.put row.id row).get? id = some found := stored
  by_cases same : id = row.id
  · rw [same, Table.get?_put_self] at stored
    cases stored
    exact ⟨previous, same ▸ present, relates⟩
  · rw [Table.get?_put_of_ne _ _ same] at stored
    exact descends id found stored

theorem DescendsBy.delete (descends : DescendsBy related rows engine) (tenant : TenantId)
    (id : RuleId) :
    DescendsBy related rows (engine.withStore (engine.commons.store.delete tenant id).2) := by
  rcases deleted : engine.commons.store.delete tenant id with ⟨result, after⟩
  by_cases nothing : ∀ rule, result ≠ .ok (some rule)
  · rw [RuleStore.delete_eq_of_ne_some deleted nothing]
    exact descends
  · obtain ⟨rule, same⟩ := Classical.not_forall.mp nothing
    rw [Classical.not_not.mp same] at deleted
    rw [(RuleStore.delete_eq_some deleted).1]
    intro other row present
    replace present : (engine.commons.store.rows.erase id).get? other = some row := present
    by_cases same : other = id
    · rw [same, Table.get?_erase_self] at present
      cases present
    · rw [Table.get?_erase_of_ne _ same] at present
      exact descends other row present

theorem admits_descendsBy (related : Rule → Rule → Prop) (rows : Table RuleId Rule)
    (mine : TenantId → Prop) : AdmitsRemovals (DescendsBy related rows) mine where
  timing := fun _ descends => descends
  build := fun _ _ descends => descends
  drop := fun _ descends => descends
  forget := fun _ _ descends => descends
  publish := fun _ descends => descends
  deleteRow := fun id _ descends => descends.delete _ id

theorem follows_descendsBy (related : Rule → Rule → Prop) (rows : Table RuleId Rule) :
    AdmitsFollowing (DescendsBy related rows) where
  toAdmitsNotices := (admits_descendsBy related rows _).toAdmitsNotices
  dropAll := fun descends => descends
  listener := fun _ descends => descends
  clear := fun _ descends => descends

theorem Filed.get?_of_mem (filed : engine.Filed) (member : row ∈ engine.commons.store.rows.values) :
    engine.commons.store.rows.get? row.id = some row := by
  obtain ⟨⟨id, found⟩, present, rfl⟩ := List.mem_map.mp member
  have stored := (Table.mem_iff_get? filed.ordered).mp present
  rw [filed.keyed id found stored]
  exact stored

/-- The sweep changes no more than the state and the date of what it disables. -/
theorem Filed.descendsBy_expire (filed : engine.Filed) (refl : ∀ row, related row row)
    (disables : ∀ row, related (disabled row engine.now) row) :
    DescendsBy related engine.commons.store.rows (expire engine).2 := by
  have admits := admits_descendsBy related engine.commons.store.rows (fun _ => True)
  apply admits.toAdmitsNotices.expire (fun _ => trivial) (descendsBy_refl refl engine)
  intro rule member
  have present := filed.get?_of_mem member
  apply preserves_onStore
  intro middle descends
  rcases updated : middle.commons.store.update (disabled rule engine.now) with ⟨result, after⟩
  cases result with
  | ok _ =>
    rw [(RuleStore.update_eq_ok updated).1]
    exact descends.putRow present (disables rule)
  | error fault =>
    rw [RuleStore.update_eq_error updated]
    exact descends

/-- A command that writes no one rule and asks for no decision leaves of the rows what it does not
delete. -/
theorem Filed.descendsBy_perform (filed : engine.Filed) (refl : ∀ row, related row row)
    (disables : ∀ row, related (disabled row engine.now) row) {command : Command}
    (plain : command.decides = false)
    (other : ∀ tenant submission, command ≠ Submission.command tenant submission) :
    DescendsBy related engine.commons.store.rows (command.perform engine) := by
  have admits := admits_descendsBy related engine.commons.store.rows (fun _ => True)
  have start := descendsBy_refl refl engine
  cases command with
  | create tenant rule => exact absurd rfl (other tenant (.create rule))
  | update tenant rule => exact absurd rfl (other tenant (.update rule))
  | approve tenant id approver => exact absurd rfl (other tenant (.approve id approver))
  | reject tenant id approver => exact absurd rfl (other tenant (.reject id approver))
  | delete tenant ids => exact admits.delete trivial ids engine start
  | expire => exact filed.descendsBy_expire refl disables
  | sync tenant service force => exact admits.sync trivial service force engine start
  | refresh tenant type service => exact admits.refresh trivial type service engine start
  | validate tenant rule conflicts => exact admits.validate tenant rule conflicts engine start
  | summary tenant user service inherited =>
    exact admits.summary trivial user service inherited engine start
  | check | checkPermission | batch | batchPermission => cases plain

/-- An event that is no call keeps every row. -/
theorem descendsBy_happen (refl : ∀ row, related row row) (uncalled : ∀ command, event ≠ .call command) :
    DescendsBy related engine.commons.store.rows (event.happen engine) := by
  have follows := follows_descendsBy related engine.commons.store.rows
  have start : DescendsBy related engine.commons.store.rows engine.newCall := descendsBy_refl refl engine
  cases event with
  | call command => exact absurd rfl (uncalled command)
  | listen => exact follows.listen _ start
  | shutdown => exact follows.shutdown _ start
  | takeChanges => exact follows.takeChanges _ start
  | applyChange change => exact follows.applyChange change _ start
  | clock | store | bus | delay | cache => exact start

theorem Descends.recordUse (descends : Descends rows engine) (tenant : TenantId) (now : Instant)
    (id : RuleId) : Descends rows (engine.withStore { engine.commons.store with
      rows := RuleStore.recordUse tenant now engine.commons.store.rows id }) := by
  intro other row present
  replace present : (RuleStore.recordUse tenant now engine.commons.store.rows id).get? other =
    some row := present
  unfold RuleStore.recordUse at present
  split at present
  · rename_i stored found
    split at present
    · by_cases same : other = id
      · rw [same, Table.get?_put_self] at present
        cases present
        obtain ⟨previous, before, retains⟩ := descends id stored found
        have counted : (RuleStore.used stored now).Retains stored := ⟨rfl, rfl, fun same => same⟩
        exact ⟨previous, same ▸ before, counted.trans retains⟩
      · rw [Table.get?_put_of_ne _ _ same] at present
        exact descends other row present
    · exact descends other row present
  · exact descends other row present

theorem Descends.recordUsage (descends : Descends rows engine) (tenant : TenantId)
    (ids : List RuleId) (now : Instant) : Descends rows
      (engine.withStore (engine.commons.store.recordUsage tenant ids now).2) := by
  unfold RuleStore.recordUsage
  split
  · exact descends
  · induction ids generalizing engine with
    | nil => exact descends
    | cons id rest ih => exact ih (descends.recordUse tenant now id) ‹_›

theorem counts_descends (rows : Table RuleId Rule) (mine : TenantId → Prop) :
    AdmitsDecisions (Descends rows) mine where
  toAdmitsAccess := (admits_descendsBy Rule.Retains rows mine).toAdmitsAccess
  recordUsage := fun ids now _ descends => descends.recordUsage _ ids now
  keep := fun _ _ _ _ _ _ _ descends => descends
  audit := fun _ descends => descends

theorem retains_disabled (row : Rule) (now : Instant) : (disabled row now).Retains row :=
  ⟨rfl, rfl, fun impossible => nomatch impossible⟩

/-- A command that writes no one rule leaves of the rows what it does not delete. -/
theorem Filed.descends_perform (filed : engine.Filed) {command : Command}
    (other : ∀ tenant submission, command ≠ Submission.command tenant submission) :
    Descends engine.commons.store.rows (command.perform engine) := by
  cases asks : command.decides with
  | true =>
    have every : command.For fun _ => True := by
      cases command <;> simp [Command.For]
    exact (counts_descends engine.commons.store.rows _).perform asks every
      (descendsBy_refl Rule.Retains.refl engine)
  | false =>
    exact filed.descendsBy_perform Rule.Retains.refl (fun row => retains_disabled row _) asks other

end Upkeep

section Events

/-- The event is a call that writes one rule, and it is not refused. -/
def Submits (engine : Engine) (event : Event) (tenant : TenantId) (submission : Submission) : Prop :=
  event = .call (submission.command tenant) ∧ engine.newCall.Takes tenant submission

/-- The event commits no row under the id. -/
def Spares (engine : Engine) (event : Event) (id : RuleId) : Prop :=
  ∀ tenant submission, engine.Submits event tenant submission →
    submission.target engine.commons.store ≠ id

/-- A row that is stored after an event was committed by it, or was stored under its id before and is
related to what it was, where that is so of every row after an event that writes no one rule. -/
theorem Filed.stored_after_of_upkeep (filed : engine.Filed) (refl : ∀ row, related row row)
    (upkeep : (∀ tenant submission, event ≠ .call (Submission.command tenant submission)) →
      DescendsBy related engine.commons.store.rows (event.happen engine))
    (stored : (event.happen engine).commons.store.rows.get? id = some row) :
    (∃ tenant submission write, engine.Submits event tenant submission ∧
      submission.target engine.commons.store = id ∧
      submission.Writes tenant engine.commons row write) ∨
    engine.Spares event id ∧
      ∃ previous, engine.commons.store.rows.get? id = some previous ∧ related row previous := by
  by_cases written : ∃ tenant submission, event = .call (Submission.command tenant submission)
  · obtain ⟨tenant, submission, rfl⟩ := written
    have spares (away : engine.newCall.Takes tenant submission →
        submission.target engine.commons.store ≠ id) :
        engine.Spares (.call (submission.command tenant)) id := by
      rintro other another ⟨same, takes⟩
      obtain ⟨rfl, rfl⟩ := Submission.command_injective (Event.call.inj same)
      exact away takes
    replace stored : ((submission.command tenant).perform
      engine.newCall).commons.store.rows.get? id = some row := stored
    rcases committed_or_refused engine tenant submission with
      ⟨takes, committed, write, writes, rows⟩ | ⟨refused, idle⟩
    · have named := filed.keyed.target_eq writes
      rw [rows] at stored
      by_cases same : id = committed.id
      · rw [same, Table.get?_put_self] at stored
        cases stored
        exact Or.inl ⟨tenant, submission, write, ⟨rfl, takes⟩, (same.trans named).symm, writes⟩
      · rw [Table.get?_put_of_ne _ _ same] at stored
        exact Or.inr ⟨spares fun _ target => same (target.symm.trans named.symm),
          row, stored, refl row⟩
    · rw [idle.commons] at stored
      exact Or.inr ⟨spares fun taken => absurd taken refused, row, stored, refl row⟩
  · -- An event that is no such call spares every id.
    have plain (tenant : TenantId) (submission : Submission) :
        event ≠ .call (submission.command tenant) := fun same => written ⟨tenant, submission, same⟩
    exact Or.inr ⟨fun tenant submission submits => absurd submits.1 (plain tenant submission),
      upkeep plain id row stored⟩

/-- A row that is stored after an event was committed by it, or was stored under its id before. -/
theorem Filed.stored_after (filed : engine.Filed)
    (stored : (event.happen engine).commons.store.rows.get? id = some row) :
    (∃ tenant submission write, engine.Submits event tenant submission ∧
      submission.target engine.commons.store = id ∧
      submission.Writes tenant engine.commons row write) ∨
    engine.Spares event id ∧
      ∃ previous, engine.commons.store.rows.get? id = some previous ∧ row.Retains previous := by
  refine filed.stored_after_of_upkeep Rule.Retains.refl (fun plain => ?_) stored
  by_cases called : ∃ command, event = .call command
  · obtain ⟨command, rfl⟩ := called
    have calls : engine.newCall.Filed := ⟨filed.ordered, filed.keyed⟩
    exact calls.descends_perform fun tenant submission same =>
      plain tenant submission (congrArg Event.call same)
  · exact descendsBy_happen Rule.Retains.refl fun command same => called ⟨command, same⟩

end Events

end Engine

end AccessPolicy
