import AccessPolicy.Proofs.Ascending
import AccessPolicy.Proofs.Engine.Footprint
import AccessPolicy.Proofs.Rule.Content

/-!
Writes are atomic. A write that fails leaves everything as it was; one that ends with a rule has
written one row and announced it once. Whatever an operation announces, it announces of the tenants
whose rows it wrote.
-/
namespace AccessPolicy

/-- A change is published, unless the bus is down. -/
def Commons.tell (commons : Commons) (change : Change) : Commons :=
  if commons.busDown then commons else { commons with bus := commons.bus.publish change }

namespace Engine

open Act hiding pure bind state

variable {ε α : Type} {base engine : Engine} {commons : Commons} {id : Uuid}
variable {tenant : TenantId} {rule : Rule}

/-- Nothing but the time of the call has changed. -/
structure Idle (base engine : Engine) : Prop where
  commons : engine.commons = base.commons
  own : engine.own = base.own

theorem Idle.refl (engine : Engine) : Idle engine engine :=
  ⟨rfl, rfl⟩

theorem admits_idle (base : Engine) : AdmitsReads (Idle base) (fun _ => False) where
  timing := fun _ idle => ⟨idle.commons, idle.own⟩
  build := fun _ impossible => impossible.elim
  drop := fun impossible => impossible.elim
  forget := fun impossible => impossible.elim

/-- What an engine shares with others, and by which id they know it. -/
structure Shares (commons : Commons) (id : Uuid) (engine : Engine) : Prop where
  commons : engine.commons = commons
  id : engine.own.id = id

theorem Idle.bus (idle : Idle base engine) : engine.commons.bus = base.commons.bus :=
  congrArg Commons.bus idle.commons

theorem admits_shares (commons : Commons) (id : Uuid) :
    AdmitsReads (Shares commons id) (fun _ => True) where
  timing := fun _ shares => ⟨shares.commons, shares.id⟩
  build := fun _ _ shares => ⟨shares.commons, shares.id⟩
  drop := fun _ shares => ⟨shares.commons, shares.id⟩
  forget := fun _ _ shares => ⟨shares.commons, shares.id⟩

section Announcing

theorem leads_broadcast (shares : Shares commons id engine) (tenant : TenantId)
    (reason : ChangeReason) :
    Ensures (broadcast tenant reason : Act Engine ε Unit) engine
      (fun _ => Shares (commons.tell ⟨id, some tenant, reason⟩) id) := by
  obtain ⟨rfl, rfl⟩ := shares
  apply leads_bind
  apply leads_attempt
  apply leads_read
  unfold Commons.tell
  split
  · exact leads_fail (leads_pure ⟨rfl, rfl⟩)
  · exact leads_modify (leads_pure ⟨rfl, rfl⟩)

/-- A change of the evaluators is carried out, the change is announced, and the rest leaves what is
shared alone. A halt may come before or after the change is announced. -/
theorem leads_settling {change : Act Engine EvaluatorError Bool} {reason : ChangeReason}
    {rest : Act Engine ε α} {after : α → Prop} (shares : Shares commons id engine)
    (preserves : Preserves (Shares commons id) change)
    (onward : ∀ {told middle}, Shares told id middle →
      Yields (Shares told id) True rest middle (fun value _ => after value)) :
    Leads (carry tenant change >>= fun _ => broadcast tenant reason >>= fun _ => rest) engine
      (fun value final => after value ∧ Shares (commons.tell ⟨id, some tenant, reason⟩) id final)
      (fun _ _ => False)
      (fun final => Shares commons id final ∨
        Shares (commons.tell ⟨id, some tenant, reason⟩) id final) := by
  apply Leads.bind ((admits_shares commons id).yields_carry trivial preserves shares)
  · intro _ middle ⟨_, shares⟩
    apply (leads_broadcast shares tenant reason).bind
    intro _ told shares
    exact Leads.mono (onward shares) (fun _ _ ends => ends) (fun _ _ impossible => impossible)
      (fun _ ends => Or.inr ends.2)
  · exact fun _ _ impossible => impossible
  · exact fun _ ends => Or.inl ends.2

end Announcing

end Engine

/-- A call that writes one rule. -/
inductive Submission where
  | create (rule : Rule)
  | update (rule : Rule)
  | approve (id : RuleId) (approver : Principal)
  | reject (id : RuleId) (approver : Principal)

namespace Submission

def submit (tenant : TenantId) : Submission → Act Engine ServiceError Rule
  | create rule => Engine.create tenant rule
  | update rule => Engine.update tenant rule
  | approve id approver => Engine.approve tenant id approver
  | reject id approver => Engine.reject tenant id approver

def reason : Submission → ChangeReason
  | create _ => .ruleCreated
  | update _ => .ruleUpdated
  | approve _ _ => .ruleApproved
  | reject _ _ => .ruleRejected

/-- The row that is to be replaced. -/
def replaced? : Submission → Option RuleId
  | create _ => none
  | update rule => some rule.id
  | approve id _ | reject id _ => some id

def command (tenant : TenantId) : Submission → Command
  | create rule => .create tenant rule
  | update rule => .update tenant rule
  | approve id approver => .approve tenant id approver
  | reject id approver => .reject tenant id approver

theorem perform_command (tenant : TenantId) (submission : Submission) (engine : Engine) :
    (submission.command tenant).perform engine = (submission.submit tenant engine).2 := by
  cases submission <;> rfl

end Submission

/-- A rule takes the place of a stored one, which leaves it its bookkeeping. -/
structure Rule.Succeeds (rule previous : Rule) : Prop where
  id : rule.id = previous.id
  tenant : rule.tenant = previous.tenant
  createdAt : rule.createdAt = previous.createdAt
  usageCount : rule.usageCount = previous.usageCount
  lastUsedAt : rule.lastUsedAt = previous.lastUsedAt

inductive RowWrite where
  | add (rule : Rule)
  | replace (previous rule : Rule)
  | erase (rule : Rule)

namespace RowWrite

/-- Whose row it is. -/
def tenant : RowWrite → TenantId
  | add rule | replace _ rule | erase rule => rule.tenant

def apply (store : RuleStore) : RowWrite → RuleStore
  | add rule => { store.putRow rule with nextId := ⟨store.nextId.value + 1⟩ }
  | replace _ rule => store.putRow rule
  | erase rule => store.eraseRow rule.id

/-- What is added takes the next id. What is replaced or removed is stored, and the new version of it
is of the same tenant and of this moment. -/
def Stands (now : Instant) (store : RuleStore) : RowWrite → Prop
  | add rule => rule.id = store.nextId
  | replace previous rule => store.rows.get? rule.id = some previous ∧
      previous.tenant = rule.tenant ∧ rule.updatedAt = now
  | erase rule => store.rows.get? rule.id = some rule

end RowWrite

def Commons.write (commons : Commons) (write : RowWrite) : Commons :=
  { commons with store := write.apply commons.store }

/-- The one write of a call: of a new rule, or of the new version of a stored one. -/
structure Commit (tenant : TenantId) (replaced? : Option RuleId) (rule : Rule) (commons : Commons)
    (write : RowWrite) : Prop where
  tenant : rule.tenant = tenant
  stands : write.Stands commons.now commons.store
  added : replaced? = none → write = .add rule
  replaced : ∀ id, replaced? = some id →
    ∃ previous, write = .replace previous rule ∧ previous.id = id ∧ rule.Succeeds previous

theorem Commit.writes_own {tenant : TenantId} {replaced? : Option RuleId} {rule : Rule}
    {commons : Commons} {write : RowWrite} (commit : Commit tenant replaced? rule commons write) :
    write.tenant = tenant := by
  cases found : replaced? with
  | none =>
    rw [commit.added found]
    exact commit.tenant
  | some id =>
    obtain ⟨previous, rfl, _⟩ := commit.replaced id found
    exact commit.tenant

/-- What a call that writes one rule commits: the new rule, which has been checked, or the new version
of a stored one. -/
inductive Submission.Writes (tenant : TenantId) (commons : Commons) :
    Submission → Rule → RowWrite → Prop
  | create {rule stored : Rule} (owned : rule.tenant = tenant) (accepted : rule.Accepted)
      (version : stored = { Engine.created rule commons.now with id := commons.store.nextId }) :
      Writes tenant commons (.create rule) stored (.add stored)
  | update {rule previous current : Rule} (owned : rule.tenant = tenant) (accepted : rule.Accepted)
      (found : commons.store.rows.get? rule.id = some previous) (own : previous.tenant = tenant)
      (version : current = Engine.updated previous rule commons.now) :
      Writes tenant commons (.update rule) current (.replace previous current)
  | approve {id : RuleId} {approver : Principal} {previous current : Rule}
      (found : commons.store.rows.get? id = some previous) (own : previous.tenant = tenant)
      (required : previous.requireApproval = true)
      (version : current = previous.approve approver.id commons.now) :
      Writes tenant commons (.approve id approver) current (.replace previous current)
  | reject {id : RuleId} {approver : Principal} {previous current : Rule}
      (found : commons.store.rows.get? id = some previous) (own : previous.tenant = tenant)
      (required : previous.requireApproval = true)
      (version : current = previous.reject approver.id commons.now) :
      Writes tenant commons (.reject id approver) current (.replace previous current)

namespace Engine

open Act hiding pure bind state

/-- Every row of the store stands under its own id. -/
def Keyed (engine : Engine) : Prop :=
  ∀ id rule, engine.commons.store.rows.get? id = some rule → rule.id = id

section Submitting

variable {engine : Engine} {tenant : TenantId} {rule : Rule} {regime : Regime}

theorem Keyed.commit_replace {id : RuleId} {previous current : Rule} (keyed : engine.Keyed)
    (found : engine.commons.store.rows.get? id = some previous) (own : previous.tenant = tenant)
    (succeeds : current.Succeeds previous) (stamped : current.updatedAt = engine.commons.now) :
    Commit tenant (some id) current engine.commons (.replace previous current) := by
  have named : previous.id = id := keyed id previous found
  refine ⟨succeeds.tenant.trans own, ⟨?_, succeeds.tenant.symm, stamped⟩,
    fun impossible => (nomatch impossible), ?_⟩
  · rw [succeeds.id, named]
    exact found
  · intro _ same
    exact ⟨previous, rfl, named.trans (Option.some.inj same), succeeds⟩

theorem Keyed.commit (keyed : engine.Keyed) {submission : Submission} {write : RowWrite}
    (writes : submission.Writes tenant engine.commons rule write) :
    Commit tenant submission.replaced? rule engine.commons write := by
  cases writes with
  | create owned _ version =>
    subst version
    exact ⟨owned, rfl, fun _ => rfl, fun _ impossible => (nomatch impossible)⟩
  | update owned _ found own version =>
    subst version
    have named := (keyed _ _ found).symm
    exact keyed.commit_replace found own ⟨named, owned.trans own.symm, rfl, rfl, rfl⟩ rfl
  | approve found own _ version | reject found own _ version =>
    subst version
    exact keyed.commit_replace found own ⟨rfl, rfl, rfl, rfl, rfl⟩ rfl

theorem leads_find_idle (paced : Paced regime engine.timing) (filter : RuleFilter) :
    Leads (find filter) engine (fun _ => Idle engine) (fun _ => Idle engine)
      (fun after => regime.hurried ∧ Idle engine after) := by
  apply leads_read
  apply Leads.bind (leads_waitUntil paced _)
  · rintro _ _ rfl
    exact leads_ofExcept (fun _ _ => ⟨rfl, rfl⟩) (fun _ _ => ⟨rfl, rfl⟩)
  · exact fun _ _ impossible => impossible.elim
  · rintro _ ⟨hurried, rfl⟩
    exact ⟨hurried, rfl, rfl⟩

/-- A check changes nothing; what passes it is accepted. -/
theorem leads_requireValid_idle (paced : Paced regime engine.timing) (tenant : TenantId) (rule : Rule) :
    Leads (requireValid tenant rule) engine (fun _ after => rule.Accepted ∧ Idle engine after)
      (fun _ => Idle engine) (fun after => regime.hurried ∧ Idle engine after) := by
  apply leads_bind
  apply leads_read
  rw [if_pos rfl]
  apply leads_bind
  apply leads_mapError
  apply (leads_find_idle paced _).mono
  · intro existing after idle
    apply leads_pure
    split
    · rename_i valid
      exact leads_pure ⟨Validator.valid_iff.mp valid, idle⟩
    · exact leads_fail idle
  · exact fun _ _ idle => idle
  · exact fun _ ends => ends

/-- Where a call that writes one rule leads to: to a failure before its commit, which has changed
nothing, or to the committed rule, announced once. Only a halt may leave a commit unannounced, and a
halt before the commit is one that the time has brought. -/
def LeadsToCommit (hurried : Prop) (action : Act Engine ServiceError Rule) (base engine : Engine)
    (tenant : TenantId) (commits : Rule → RowWrite → Prop) (reason : ChangeReason) : Prop :=
  Leads action engine
    (fun rule after => ∃ write, commits rule write ∧
      Shares ((base.commons.write write).tell ⟨base.own.id, some tenant, reason⟩) base.own.id after)
    (fun _ => Idle base)
    (fun after => hurried ∧ Idle base after ∨ ∃ rule write, commits rule write ∧
      (Shares (base.commons.write write) base.own.id after ∨
        Shares ((base.commons.write write).tell ⟨base.own.id, some tenant, reason⟩) base.own.id
          after))

/-- What follows a commit announces it, and fails no more. -/
theorem leadsToCommit_of_committed {hurried : Prop} {commits : Rule → RowWrite → Prop}
    {reason : ChangeReason} {base middle : Engine} {write : RowWrite}
    {change : Act Engine EvaluatorError Bool} {onward : Act Engine ServiceError Rule}
    (own : rule.tenant = tenant) (commit : commits rule write)
    (shares : Shares (base.commons.write write) base.own.id middle)
    (preserves : ∀ commons, Preserves (Shares commons base.own.id) change)
    (forgets : ∀ {told state}, Shares told base.own.id state →
      Yields (Shares told base.own.id) True onward state (fun value _ => value = rule)) :
    LeadsToCommit hurried (carry rule.tenant change >>= fun _ => broadcast rule.tenant reason >>=
      fun _ => onward) base middle tenant commits reason := by
  rw [LeadsToCommit, own]
  apply (leads_settling shares (preserves _) forgets).mono
  · rintro _ final ⟨rfl, shares⟩
    exact ⟨write, commit, shares⟩
  · exact fun _ _ impossible => impossible.elim
  · exact fun final ends => Or.inr ⟨rule, write, commit, ends⟩

theorem leadsToCommit_create (paced : Paced regime engine.timing) (tenant : TenantId) (rule : Rule) :
    LeadsToCommit regime.hurried (create tenant rule) engine engine tenant
      (Submission.Writes tenant engine.commons (.create rule)) .ruleCreated := by
  apply Leads.bind (leads_requireTenant tenant rule engine)
  · intro _ _ ⟨same, own⟩
    rw [same]
    apply Leads.bind (leads_requireValid_idle paced tenant rule)
    · intro _ middle ⟨accepted, idle⟩
      apply leads_read
      apply leads_bind
      apply leads_mapError
      apply (leads_onStore _ middle).mono
      · intro stored _ ⟨inserted, same⟩
        obtain ⟨named, after⟩ := RuleStore.insert_eq_ok inserted
        have writes : Submission.Writes tenant engine.commons (.create rule) stored (.add stored) := by
          refine .create own accepted ?_
          rw [named, ← idle.commons]
          rfl
        have shares : Shares (engine.commons.write (.add stored)) engine.own.id
            (middle.withStore { middle.commons.store.putRow stored with
              nextId := ⟨middle.commons.store.nextId.value + 1⟩ }) := by
          rw [← idle.commons]
          exact ⟨rfl, congrArg Replica.id idle.own⟩
        rw [same, after]
        apply leadsToCommit_of_committed ?_ writes shares
        · exact fun commons => (admits_shares commons _).addRule trivial
        · intro told _ shares
          apply ((admits_shares told _).yields_invalidateFor trivial shares).bind
          exact fun _ _ shares _ => yields_pure shares rfl
        · rw [named]
          exact own
      · intro _ _ ⟨refused, same⟩
        rw [same, RuleStore.insert_eq_error refused]
        exact idle
      · exact fun _ impossible => impossible.elim
    · exact fun _ _ idle => idle
    · exact fun _ ends => Or.inl ends
  · exact fun _ _ same => same ▸ .refl engine
  · exact fun _ impossible => impossible.elim

/-- A new version of a stored row is committed or refused. -/
theorem leadsToCommit_replace {hurried : Prop} {commits : Rule → RowWrite → Prop}
    {previous current : Rule} {base middle : Engine} (idle : Idle base middle)
    (own : current.tenant = tenant) (commit : commits current (.replace previous current))
    (reason : ChangeReason) :
    LeadsToCommit hurried (replace previous current reason) base middle tenant commits reason := by
  apply leads_bind
  apply leads_mapError
  apply (leads_onStore _ middle).mono
  · intro _ _ ⟨updates, same⟩
    have shares : Shares (base.commons.write (.replace previous current)) base.own.id
        (middle.withStore (middle.commons.store.putRow current)) := by
      rw [← idle.commons]
      exact ⟨rfl, congrArg Replica.id idle.own⟩
    rw [same, (RuleStore.update_eq_ok updates).1]
    apply leadsToCommit_of_committed own commit shares
    · exact fun commons => (admits_shares commons _).replaceRule previous trivial
    · intro told _ shares
      apply ((admits_shares told _).yields_invalidateFor trivial shares).bind
      intro _ _ shares _
      apply ((admits_shares told _).yields_invalidateFor trivial shares).bind
      exact fun _ _ shares _ => yields_pure shares rfl
  · intro _ _ ⟨refused, same⟩
    rw [same, RuleStore.update_eq_error refused]
    exact idle
  · exact fun _ impossible => impossible.elim

theorem leadsToCommit_update (paced : Paced regime engine.timing) (tenant : TenantId) (rule : Rule) :
    LeadsToCommit regime.hurried (update tenant rule) engine engine tenant
      (Submission.Writes tenant engine.commons (.update rule)) .ruleUpdated := by
  apply Leads.bind (leads_requireTenant tenant rule engine)
  · intro _ _ ⟨same, own⟩
    rw [same]
    apply Leads.bind (leads_load tenant rule.id engine)
    · intro previous _ ⟨same, present, ownToo⟩
      rw [same]
      apply Leads.bind (leads_requireValid_idle paced tenant rule)
      · intro _ middle ⟨accepted, idle⟩
        apply leads_read
        have now : middle.now = engine.commons.now := congrArg Commons.now idle.commons
        have ownVersion : (updated previous rule engine.commons.now).tenant = tenant := own
        rw [now]
        exact leadsToCommit_replace idle ownVersion (.update own accepted present ownToo rfl) _
      · exact fun _ _ idle => idle
      · exact fun _ ends => Or.inl ends
    · exact fun _ _ same => same ▸ .refl engine
    · exact fun _ impossible => impossible.elim
  · exact fun _ _ same => same ▸ .refl engine
  · exact fun _ impossible => impossible.elim

theorem leadsToCommit_decideApproval {hurried : Prop} {commits : Rule → RowWrite → Prop}
    (tenant : TenantId) (id : RuleId) (approver : Principal)
    {decided : Rule → String → Instant → Rule} (reason : ChangeReason)
    (same : ∀ rule name now, (decided rule name now).tenant = rule.tenant)
    (commit : ∀ previous, engine.commons.store.rows.get? id = some previous →
      previous.tenant = tenant → previous.requireApproval = true →
        commits (decided previous approver.id engine.commons.now)
          (.replace previous (decided previous approver.id engine.commons.now))) :
    LeadsToCommit hurried (decideApproval tenant id approver decided reason) engine engine tenant
      commits reason := by
  apply Leads.bind (leads_load tenant id engine)
  · intro previous _ ⟨unchanged, present, own⟩
    rw [unchanged]
    split
    · rename_i required
      apply leads_read
      exact leadsToCommit_replace (.refl engine) ((same ..).trans own)
        (commit previous present own required) reason
    · exact leads_fail (.refl engine)
  · exact fun _ _ same => same ▸ .refl engine
  · exact fun _ impossible => impossible.elim

theorem leadsToCommit_submit (paced : Paced regime engine.timing) (tenant : TenantId)
    (submission : Submission) :
    LeadsToCommit regime.hurried (submission.submit tenant) engine engine tenant
      (submission.Writes tenant engine.commons) submission.reason := by
  cases submission with
  | create rule => exact leadsToCommit_create paced tenant rule
  | update rule => exact leadsToCommit_update paced tenant rule
  | approve id approver =>
    exact leadsToCommit_decideApproval tenant id approver .ruleApproved (fun _ _ _ => rfl)
      fun _ present own required => .approve present own required rfl
  | reject id approver =>
    exact leadsToCommit_decideApproval tenant id approver .ruleRejected (fun _ _ _ => rfl)
      fun _ present own required => .reject present own required rfl

end Submitting

end Engine

end AccessPolicy
