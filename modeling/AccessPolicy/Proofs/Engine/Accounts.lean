import AccessPolicy.Proofs.Engine.Atomic

/-!
What an operation announces accounts for what it writes: the changes that it publishes, other than
calls to synchronise, name the tenants of the rows that it has added, replaced or removed.
-/
namespace AccessPolicy

/-- Rows are written one after the other. -/
def Wrote (now : Instant) (store : RuleStore) : List RowWrite → RuleStore → Prop
  | [], after => after = store
  | write :: rest, after => write.Stands now store ∧ Wrote now (write.apply store) rest after

/-- Changes are published one after the other, unless the bus is down. -/
def Commons.tellAll (commons : Commons) (changes : List Change) : Commons :=
  changes.foldl Commons.tell commons

theorem Commons.tell_busDown (commons : Commons) (change : Change) :
    (commons.tell change).busDown = commons.busDown := by
  unfold tell
  split <;> rfl

theorem Commons.tell_store (commons : Commons) (change : Change) :
    (commons.tell change).store = commons.store := by
  unfold tell
  split <;> rfl

theorem Commons.tellAll_store (commons : Commons) (changes : List Change) :
    (commons.tellAll changes).store = commons.store := by
  induction changes generalizing commons with
  | nil => rfl
  | cons change rest ih => exact (ih (commons.tell change)).trans (commons.tell_store change)

theorem Commons.tellAll_bus {commons : Commons} (up : commons.busDown = false)
    (changes : List Change) :
    (commons.tellAll changes).bus = changes.foldl Bus.publish commons.bus := by
  induction changes generalizing commons with
  | nil => rfl
  | cons change rest ih =>
    have told : (commons.tell change).bus = commons.bus.publish change := by
      rw [tell, if_neg (by simp [up])]
    rw [List.foldl_cons, ← told]
    exact ih ((commons.tell_busDown change).trans up)

namespace Engine

open Act hiding pure bind state

variable {ε : Type} {base engine after : Engine} {commons : Commons} {id : Uuid}
variable {tenant : TenantId} {rule : Rule}

/-- What an operation has published accounts for the rows that it has written. -/
structure Accounts (before after : Engine) (changes : List Change) (writes : List RowWrite) :
    Prop where
  published : after.commons.bus = changes.foldl Bus.publish before.commons.bus
  mine : ∀ change ∈ changes, change.origin = before.own.id
  named : ∀ change ∈ changes, change.reason ≠ .forceSync →
    ∃ write ∈ writes, change.tenant = some write.tenant
  told : (∃ change ∈ changes, change.reason ≠ .forceSync) →
    Wrote before.commons.now before.commons.store writes after.commons.store ∧
      ∀ write ∈ writes, ∃ change ∈ changes, change.reason ≠ .forceSync ∧
        change.tenant = some write.tenant

theorem accounts_silent (silent : after.commons.bus = base.commons.bus) :
    Accounts base after [] [] where
  published := silent
  mine := fun _ impossible => nomatch impossible
  named := fun _ impossible => nomatch impossible
  told := fun ⟨_, impossible, _⟩ => nomatch impossible

/-- One change of each of some tenants. -/
def announcements (id : Uuid) (tenants : List TenantId) (reason : ChangeReason) : List Change :=
  tenants.map (fun tenant => ⟨id, some tenant, reason⟩)

/-- Rows have been written, and nothing has been published. -/
structure Rewritten (now : Instant) (writes : List RowWrite) (before after : Commons) : Prop where
  wrote : Wrote now before.store writes after.store
  bus : after.bus = before.bus
  busDown : after.busDown = before.busDown

/-- The tenants of the rows that were written are announced. -/
theorem accounts_of_announced (tenants : List TenantId) {writes : List RowWrite}
    {reason : ChangeReason} (up : base.commons.busDown = false)
    (rewritten : Rewritten base.commons.now writes base.commons commons)
    (shares : Shares (commons.tellAll (announcements base.own.id tenants reason)) base.own.id after)
    (plain : reason ≠ .forceSync)
    (same : ∀ tenant, tenant ∈ tenants ↔ ∃ write ∈ writes, write.tenant = tenant) :
    Accounts base after (announcements base.own.id tenants reason) writes where
  published := by
    rw [shares.commons, Commons.tellAll_bus (rewritten.busDown.trans up), rewritten.bus]
  mine := by
    intro change member
    obtain ⟨tenant, _, rfl⟩ := List.mem_map.mp member
    rfl
  named := by
    intro change member _
    obtain ⟨tenant, listed, rfl⟩ := List.mem_map.mp member
    obtain ⟨write, written, owns⟩ := (same tenant).mp listed
    exact ⟨write, written, congrArg some owns.symm⟩
  told := by
    intro _
    constructor
    · rw [shares.commons, Commons.tellAll_store]
      exact rewritten.wrote
    · intro write member
      have listed := (same write.tenant).mpr ⟨write, member, rfl⟩
      exact ⟨_, List.mem_map_of_mem listed, plain, rfl⟩

/-- The operation accounts for what it writes. -/
def Accounted (before after : Engine) : Prop :=
  ∃ changes writes, Accounts before after changes writes

section Submissions

theorem accounted_of_told {replaced? : Option RuleId} {reason : ChangeReason} {write : RowWrite}
    (up : base.commons.busDown = false) (plain : reason ≠ .forceSync)
    (commit : Commit tenant replaced? rule base.commons write)
    (shares : Shares ((base.commons.write write).tell ⟨base.own.id, some tenant, reason⟩)
      base.own.id after) :
    Accounted base after := by
  have rewritten : Rewritten base.commons.now [write] base.commons (base.commons.write write) :=
    ⟨⟨commit.stands, rfl⟩, rfl, rfl⟩
  refine ⟨_, [write], accounts_of_announced [tenant] up rewritten shares plain ?_⟩
  simp [commit.writes_own, eq_comm]

theorem accounted_submit (tenant : TenantId) (submission : Submission) (keyed : base.Keyed)
    (up : base.commons.busDown = false) :
    Accounted base (submission.submit tenant base).2 := by
  have plain : submission.reason ≠ .forceSync := by
    cases submission <;> simp [Submission.reason]
  have leads := leadsToCommit_submit (paced_pressed base.timing) tenant submission
  apply Leads.settled
  apply Leads.mono leads
  · rintro rule after ⟨write, writes, shares⟩
    exact accounted_of_told up plain (keyed.commit writes) shares
  · exact fun _ after idle => ⟨[], [], accounts_silent idle.bus⟩
  · rintro after (⟨_, idle⟩ | ⟨rule, write, writes, silent | shares⟩)
    · exact ⟨[], [], accounts_silent idle.bus⟩
    · refine ⟨[], [], accounts_silent ?_⟩
      rw [silent.commons]
      rfl
    · exact accounted_of_told up plain (keyed.commit writes) shares

end Submissions

section Deletion

theorem keyed_eraseRow (keyed : engine.Keyed) (id : RuleId) :
    (engine.withStore (engine.commons.store.eraseRow id)).Keyed := by
  intro key found present
  replace present : (engine.commons.store.rows.erase id).get? key = some found := present
  by_cases same : key = id
  · rw [same, Table.get?_erase_self] at present
    cases present
  · rw [Table.get?_erase_of_ne _ same] at present
    exact keyed key found present

/-- To remove rules is to remove the first, if there is one, and then the others. -/
theorem leads_removeEach_cons {id : RuleId} {rest : List RuleId} {halted : Engine → Prop}
    {next : List Rule × Option StoreError → Engine → Prop} (keyed : engine.Keyed)
    (absent : engine.commons.store.delete tenant id = (.ok none, engine.commons.store) →
      Leads (removeEach tenant rest : Act Engine ε (List Rule × Option StoreError)) engine next
        (fun _ _ => False) halted)
    (present : ∀ rule middle,
      engine.commons.store.delete tenant id = (.ok (some rule), engine.commons.store.eraseRow id) →
      Shares { engine.commons with store := engine.commons.store.eraseRow id } engine.own.id middle →
      middle.Keyed → Leads (removeEach tenant rest : Act Engine ε (List Rule × Option StoreError))
        middle (fun result => next (rule :: result.1, result.2)) (fun _ _ => False) halted)
    (refused : ∀ fault,
      engine.commons.store.delete tenant id = (.error fault, engine.commons.store) →
      next ([], some fault) engine)
    (halts : ∀ after, after.commons.bus = engine.commons.bus → halted after) :
    Leads (removeEach tenant (id :: rest) : Act Engine ε (List Rule × Option StoreError)) engine next
      (fun _ _ => False) halted := by
  apply leads_bind
  apply leads_attempt
  apply (leads_onStore _ engine).mono
  · intro found _ ⟨deletes, same⟩
    rw [same]
    cases found with
    | none =>
      have unchanged := RuleStore.delete_eq_of_ne_some deletes (by simp)
      rw [unchanged] at deletes ⊢
      exact absent deletes
    | some rule =>
      obtain ⟨erased, _, _⟩ := RuleStore.delete_eq_some deletes
      rw [erased] at deletes ⊢
      have shares : Shares _ engine.own.id
          (engine.withStore (engine.commons.store.eraseRow id)) := ⟨rfl, rfl⟩
      have admits := admits_shares (engine.withStore (engine.commons.store.eraseRow id)).commons
        engine.own.id
      apply Leads.bind (admits.yields_carry trivial (admits.removeRule trivial) shares)
      · intro _ middle ⟨_, shares⟩
        have keyedMiddle : middle.Keyed := by
          rw [Keyed, shares.commons]
          exact keyed_eraseRow keyed id
        apply Leads.bind (present rule middle deletes shares keyedMiddle)
        · exact fun _ _ ends => leads_pure ends
        · exact fun _ _ impossible => impossible
        · exact fun _ ends => ends
      · exact fun _ _ impossible => impossible
      · intro after ⟨_, shares⟩
        refine halts after ?_
        rw [shares.commons]
        rfl
  · intro fault _ ⟨refusal, same⟩
    have unchanged := RuleStore.delete_eq_of_ne_some refusal (by simp)
    rw [same]
    rw [unchanged] at refusal ⊢
    exact leads_pure (refused fault refusal)
  · exact fun _ impossible => impossible.elim

/-- What is removed one after the other is what is listed. -/
theorem leads_removeEach_wrote (now : Instant) (ids : List RuleId) {engine : Engine}
    (keyed : engine.Keyed) :
    Leads (removeEach tenant ids : Act Engine ε (List Rule × Option StoreError)) engine
      (fun result after => (∀ rule ∈ result.1, rule.tenant = tenant) ∧
        Rewritten now (result.1.map .erase) engine.commons after.commons ∧
        after.own.id = engine.own.id)
      (fun _ _ => False) (fun after => after.commons.bus = engine.commons.bus) := by
  induction ids generalizing engine with
  | nil => exact leads_pure ⟨by simp, ⟨rfl, rfl, rfl⟩, rfl⟩
  | cons id rest ih =>
    apply leads_removeEach_cons keyed
    · exact fun _ => ih keyed
    · intro rule middle deletes shares keyedMiddle
      obtain ⟨_, present, own⟩ := RuleStore.delete_eq_some deletes
      apply (ih keyedMiddle).mono
      · intro result final ⟨owns, rewritten, same⟩
        rw [shares.commons] at rewritten
        have named : rule.id = id := keyed id rule present
        refine ⟨?_, ⟨⟨?_, ?_⟩, rewritten.bus, rewritten.busDown⟩, same.trans shares.id⟩
        · simpa [own] using owns
        · rw [← named] at present
          exact present
        · have wrote := rewritten.wrote
          rw [← named] at wrote
          exact wrote
      · exact fun _ _ impossible => impossible
      · intro final silent
        rw [silent, shares.commons]
    · exact fun _ _ => ⟨by simp, ⟨rfl, rfl, rfl⟩, rfl⟩
    · exact fun _ silent => silent

theorem accounted_delete (tenant : TenantId) (ids : List RuleId) (keyed : base.Keyed)
    (up : base.commons.busDown = false) : Accounted base (delete tenant ids base).2 := by
  apply Leads.settled
  apply Leads.bind (leads_removeEach_wrote base.commons.now ids keyed)
  · intro result middle ⟨owns, rewritten, same⟩
    obtain ⟨removed, failure⟩ := result
    have told {after : Engine} (some_removed : removed ≠ []) (shares : Shares
        (middle.commons.tell ⟨base.own.id, some tenant, .rulesDeleted⟩) base.own.id after) :
        Accounted base after := by
      refine ⟨_, _, accounts_of_announced [tenant] up rewritten shares (by simp) ?_⟩
      obtain ⟨first, member⟩ := List.exists_mem_of_ne_nil removed some_removed
      intro other
      simp only [List.mem_singleton, List.mem_map]
      constructor
      · rintro rfl
        exact ⟨_, ⟨first, member, rfl⟩, owns first member⟩
      · rintro ⟨_, ⟨rule, listed, rfl⟩, rfl⟩
        exact owns rule listed
    have announces {last : Act Engine ServiceError (List RuleId)} (some_removed : removed ≠ [])
        (ends : ∀ told, Preserves (Shares told base.own.id) last) :
        Leads (broadcast tenant .rulesDeleted >>= fun _ => invalidateEach removed >>= fun _ => last)
          middle (fun _ => Accounted base) (fun _ => Accounted base) (Accounted base) := by
      have shares : Shares middle.commons base.own.id middle := ⟨rfl, same⟩
      apply (leads_broadcast shares tenant .rulesDeleted).bind
      intro _ after shares
      have admits := admits_shares
        (middle.commons.tell ⟨base.own.id, some tenant, .rulesDeleted⟩) base.own.id
      have onward := (admits.invalidateEach (ε := ServiceError) removed fun _ _ => trivial).bind
        fun _ => ends _
      exact (onward.leads shares).mono (fun _ _ => told some_removed) (fun _ _ => told some_removed)
        fun _ => told some_removed
    cases removed with
    | nil =>
      have silent : Accounted base middle := ⟨[], [], accounts_silent rewritten.bus⟩
      cases failure with
      | some fault => exact leads_fail silent
      | none => exact leads_pure silent
    | cons rule rest =>
      cases failure with
      | some fault => exact announces (by simp) fun _ => preserves_fail _
      | none => exact announces (by simp) fun _ => preserves_pure _
  · exact fun _ _ impossible => impossible.elim
  · exact fun after silent => ⟨[], [], accounts_silent silent⟩

end Deletion

section Expiry

/-- Rows of the tenants that are listed, and of no others, are replaced. -/
theorem leads_disableEach_wrote (now : Instant) (rules : List Rule) (engine : Engine) :
    Ensures (disableEach now rules : Act Engine ε (List Rule)) engine
      (fun expired after => after.own.id = engine.own.id ∧ ∃ writes,
        Rewritten now writes engine.commons after.commons ∧
        writes.map RowWrite.tenant = expired.map Rule.tenant) := by
  induction rules generalizing engine with
  | nil => exact leads_pure ⟨rfl, [], ⟨rfl, rfl, rfl⟩, rfl⟩
  | cons rule rest ih =>
    apply leads_bind
    apply leads_attempt
    apply (leads_onStore _ engine).mono
    · intro _ _ ⟨updates, same⟩
      obtain ⟨stored, previous, present, owned⟩ := RuleStore.update_eq_ok updates
      rw [same, stored]
      apply (ih _).bind
      intro others after ⟨id, writes, rewritten, tenants⟩
      refine leads_pure ⟨id, .replace previous (disabled rule now) :: writes, ?_, ?_⟩
      · exact ⟨⟨⟨present, owned, rfl⟩, rewritten.wrote⟩, rewritten.bus, rewritten.busDown⟩
      · rw [List.map_cons, List.map_cons, tenants]
        rfl
    · intro _ _ ⟨refused, same⟩
      rw [same, RuleStore.update_eq_error refused]
      apply (ih _).bind
      intro others after ends
      exact leads_pure ends
    · exact fun _ impossible => impossible.elim

/-- Each of some tenants is announced, unless the sweep halts. -/
theorem leads_settleExpiries (tenants : List TenantId) {engine : Engine}
    (shares : Shares commons id engine) :
    Leads (settleExpiries tenants : Act Engine ε Unit) engine
      (fun _ => Shares (commons.tellAll (announcements id tenants .rulesExpired)) id)
      (fun _ _ => False) (fun _ => True) := by
  induction tenants generalizing commons engine with
  | nil => exact leads_pure shares
  | cons tenant rest ih =>
    have settles : Leads (settleExpiry tenant : Act Engine ε Unit) engine
        (fun _ => Shares (commons.tell ⟨id, some tenant, .rulesExpired⟩) id)
        (fun _ _ => False) (fun _ => True) := by
      have forgets {told : Commons} {middle : Engine} (shares : Shares told id middle) :
          Yields (Shares told id) True (onCache (fun cache => cache.invalidateTenant tenant) >>=
            fun _ => Pure.pure () : Act Engine ε Unit) middle (fun _ _ => True) :=
        yields_pure ((admits_shares told id).invalidateTenant trivial shares) trivial
      exact (leads_settling shares ((admits_shares commons id).reload trivial) forgets).mono
        (fun _ _ ends => ends.2) (fun _ _ impossible => impossible) fun _ _ => trivial
    exact Leads.bind settles (fun _ _ shares => ih shares) (fun _ _ impossible => impossible)
      fun _ _ => trivial

theorem accounted_expire (up : base.commons.busDown = false)
    (ends : ∀ halt, (expire base).1 ≠ .halted halt) : Accounted base (expire base).2 := by
  apply Leads.settled_of_ends _ ends
  apply leads_read
  apply Leads.bind ((((admits_idle base).find _).mapError _).leads (.refl base))
  · intro candidates middle idle
    apply (leads_disableEach_wrote base.now _ middle).bind
    intro expired swept ⟨id, writes, rewritten, tenants⟩
    rw [idle.commons] at rewritten
    have shares : Shares swept.commons base.own.id swept :=
      ⟨rfl, id.trans (congrArg Replica.id idle.own)⟩
    apply Leads.bind (leads_settleExpiries _ shares)
    · intro _ after shares
      apply leads_pure
      refine ⟨_, writes, accounts_of_announced _ up rewritten shares (by simp) ?_⟩
      intro tenant
      rw [Ascending.mem_ofList_iff, ← tenants, List.mem_map]
    · exact fun _ _ impossible => impossible.elim
    · exact fun _ _ => trivial
  · exact fun _ after idle => ⟨[], [], accounts_silent idle.bus⟩
  · exact fun _ _ => trivial

end Expiry

section Others

/-- A call to synchronise accounts for nothing, since it writes nothing. -/
theorem accounted_sync (tenant : TenantId) (service : Option String) (force : Bool)
    (up : base.commons.busDown = false) : Accounted base (sync tenant service force base).2 := by
  have admits := admits_shares base.commons base.own.id
  have weaken : ∀ engine, Shares base.commons base.own.id engine → Accounted base engine :=
    fun engine shares => ⟨[], [], accounts_silent (congrArg Commons.bus shares.commons)⟩
  have forgets : Preserves (Shares base.commons base.own.id)
      (onCache (fun cache => cache.invalidate tenant service) : Act Engine ServiceError Nat) :=
    preserves_onCache _ fun _ => admits.invalidate trivial service
  have start : Shares base.commons base.own.id base := ⟨rfl, rfl⟩
  apply ((admits.reload trivial).mapError _).settles_either (preserves_pure _) weaken start
  intro reloaded middle shares
  apply ((admits.evaluator trivial).mapError _).settles_when weaken shares
  intro middle shares
  apply Preserves.settles_bind ((admits.find _).mapError ServiceError.store) weaken shares
  intro active middle shares
  apply forgets.settles_bind weaken shares
  intro _ middle shares
  split
  · apply Ensures.settled
    apply (leads_broadcast shares tenant .forceSync).bind
    intro _ after shares
    refine leads_pure ⟨[⟨base.own.id, some tenant, .forceSync⟩], [], ?_, by simp, by simp, by simp⟩
    rw [shares.commons, Commons.tell, if_neg (by simp [up])]
    rfl
  · exact weaken middle shares

theorem admits_bus (bus : Bus Change) :
    AdmitsDecisions (fun engine => engine.commons.bus = bus) (fun _ => True) where
  timing := fun _ same => same
  rebuild := fun _ => preserves_rebuild (fun _ _ same => same) fun _ _ same => same
  drop := fun _ same => same
  forget := fun _ _ same => same
  recordUsage := fun _ _ _ same => same
  keep := fun _ _ _ _ _ _ _ same => same
  audit := fun _ same => same

end Others

/-- The sweep of expired rules ends; a rule whose window ends with the calendar halts it where an
evaluator is to be built. -/
def Completes (command : Command) (engine : Engine) : Prop :=
  command = .expire → ∀ halt, (expire engine).1 ≠ .halted halt

/-- Every operation accounts for what it writes, as long as the sweep of expired rules ends. -/
theorem accounted_perform {command : Command} (completes : Completes command base)
    (keyed : base.Keyed) (up : base.commons.busDown = false) :
    Accounted base (command.perform base) := by
  have admits := admits_bus base.commons.bus
  have silent {after : Engine} (same : after.commons.bus = base.commons.bus) :
      Accounted base after := ⟨[], [], accounts_silent same⟩
  have every : command.For fun _ => True := by
    cases command <;> simp [Command.For]
  cases command with
  | create tenant rule => exact accounted_submit tenant (.create rule) keyed up
  | update tenant rule => exact accounted_submit tenant (.update rule) keyed up
  | approve tenant id approver => exact accounted_submit tenant (.approve id approver) keyed up
  | reject tenant id approver => exact accounted_submit tenant (.reject id approver) keyed up
  | delete tenant ids => exact accounted_delete tenant ids keyed up
  | expire => exact accounted_expire up (completes rfl)
  | sync tenant service force => exact accounted_sync tenant service force up
  | refresh tenant type service => exact silent (admits.refresh trivial type service base rfl)
  | validate tenant rule conflicts => exact silent (admits.validate tenant rule conflicts base rfl)
  | summary tenant user service inherited =>
    exact silent (admits.summary trivial user service inherited base rfl)
  | check | checkPermission | batch | batchPermission =>
    exact silent (admits.perform rfl every rfl)

section Runs

theorem keyed_putRow (keyed : engine.Keyed) (rule : Rule) :
    (engine.withStore (engine.commons.store.putRow rule)).Keyed := by
  intro key found present
  replace present : (engine.commons.store.rows.put rule.id rule).get? key = some found := present
  by_cases same : key = rule.id
  · rw [same, Table.get?_put_self] at present
    cases present
    exact same.symm
  · rw [Table.get?_put_of_ne _ _ same] at present
    exact keyed key found present

theorem keyed_insert (keyed : engine.Keyed) (rule : Rule) :
    (engine.withStore (engine.commons.store.insert rule).2).Keyed := by
  rcases inserted : engine.commons.store.insert rule with ⟨result, after⟩
  cases result with
  | ok stored =>
    rw [(RuleStore.insert_eq_ok inserted).2]
    exact keyed_putRow keyed stored
  | error fault =>
    rw [RuleStore.insert_eq_error inserted]
    exact keyed

theorem keyed_update (keyed : engine.Keyed) (rule : Rule) :
    (engine.withStore (engine.commons.store.update rule).2).Keyed := by
  rcases updated : engine.commons.store.update rule with ⟨result, after⟩
  cases result with
  | ok _ =>
    rw [(RuleStore.update_eq_ok updated).1]
    exact keyed_putRow keyed rule
  | error fault =>
    rw [RuleStore.update_eq_error updated]
    exact keyed

theorem keyed_delete (keyed : engine.Keyed) (tenant : TenantId) (id : RuleId) :
    (engine.withStore (engine.commons.store.delete tenant id).2).Keyed := by
  rcases deleted : engine.commons.store.delete tenant id with ⟨result, after⟩
  by_cases nothing : ∀ rule, result ≠ .ok (some rule)
  · rw [RuleStore.delete_eq_of_ne_some deleted nothing]
    exact keyed
  · obtain ⟨rule, same⟩ := Classical.not_forall.mp nothing
    rw [Classical.not_not.mp same] at deleted
    rw [(RuleStore.delete_eq_some deleted).1]
    exact keyed_eraseRow keyed id

theorem keyed_recordUse (keyed : engine.Keyed) (tenant : TenantId) (now : Instant) (id : RuleId) :
    (engine.withStore { engine.commons.store with
      rows := RuleStore.recordUse tenant now engine.commons.store.rows id }).Keyed := by
  unfold RuleStore.recordUse
  split
  · rename_i stored found
    split
    · rw [← keyed id stored found]
      exact keyed_putRow keyed (RuleStore.used stored now)
    · exact keyed
  · exact keyed

theorem keyed_recordUsage (keyed : engine.Keyed) (tenant : TenantId) (ids : List RuleId)
    (now : Instant) :
    (engine.withStore (engine.commons.store.recordUsage tenant ids now).2).Keyed := by
  unfold RuleStore.recordUsage
  split
  · exact keyed
  · induction ids generalizing engine with
    | nil => exact keyed
    | cons id rest ih => exact ih (keyed_recordUse keyed tenant now id) ‹_›

theorem admits_keyed (mine : TenantId → Prop) : AdmitsChecks Keyed mine where
  timing := fun _ keyed => keyed
  build := fun _ _ keyed => keyed
  drop := fun _ keyed => keyed
  forget := fun _ _ keyed => keyed
  updateRow := fun _ keyed => keyed_update keyed _
  deleteRow := fun id _ keyed => keyed_delete keyed _ id
  publish := fun _ keyed => keyed
  recordUsage := fun ids now _ keyed => keyed_recordUsage keyed _ ids now
  keep := fun _ _ _ _ _ _ _ keyed => keyed
  audit := fun _ keyed => keyed

theorem follows_keyed : AdmitsSync Keyed where
  toAdmits := (admits_keyed _).toAdmits
  dropAll := fun keyed => keyed
  listener := fun _ keyed => keyed
  clear := fun _ keyed => keyed

/-- What happens to an engine. What it shares with others may become anything, as long as each row
of the store stands under its own id, and so may what its cache holds. -/
inductive Happens : Engine → Engine → Prop
  | call {engine : Engine} (command : Command) : Happens engine (command.perform engine.newCall)
  | listen {engine : Engine} :
      Happens engine ((Engine.listen : Act Engine Empty Unit) engine.newCall).2
  | shutdown {engine : Engine} :
      Happens engine ((Engine.shutdown : Act Engine Empty Unit) engine.newCall).2
  | takeChanges {engine : Engine} :
      Happens engine ((Engine.takeChanges : Act Engine Empty Unit) engine.newCall).2
  | applyChange {engine : Engine} (change : Change) :
      Happens engine ((Engine.applyChange change : Act Engine Empty Bool) engine.newCall).2
  | share {engine : Engine} (commons : Commons)
      (keyed : Keyed { engine with commons := commons }) :
      Happens engine { engine with commons := commons }
  | cache {engine : Engine} (backend : CacheBackend) : Happens engine (engine.withBackend backend)

theorem Happens.keyed {engine after : Engine} (happens : Happens engine after)
    (keyed : engine.Keyed) : after.Keyed := by
  have admits := admits_keyed (fun _ => True)
  have follows := follows_keyed
  have calls : engine.newCall.Keyed := keyed
  cases happens with
  | call command =>
    have every : command.For fun _ => True := by
      cases command <;> simp [Command.For]
    cases asks : command.decides with
    | true => exact admits.toAdmitsDecisions.perform asks every calls
    | false =>
      apply admits.toAdmits.perform admits.toAdmits (fun _ keyed => keyed) ?_ asks every calls
      exact fun _ rule _ keyed => keyed_insert keyed rule
  | listen => exact follows.listen _ calls
  | shutdown => exact follows.shutdown _ calls
  | takeChanges => exact follows.takeChanges _ calls
  | applyChange change => exact follows.applyChange change _ calls
  | share commons keyed => exact keyed
  | cache backend => exact keyed

theorem keyed_of_run {first : Engine} (run : Relation.ReflTransGen Happens first engine)
    (keyed : first.Keyed) : engine.Keyed := by
  induction run with
  | refl => exact keyed
  | tail _ step ih => exact step.keyed ih

/-- A call that writes one rule writes it and announces it once, or it fails and leaves the rows, the
counter, the evaluators, the cache and the bus as they were. -/
structure Atomic (engine : Engine) (tenant : TenantId) (submission : Submission) : Prop where
  refused : ∀ fault, (submission.submit tenant engine).1 = .error fault →
    Idle engine (submission.submit tenant engine).2
  committed : ∀ rule, (submission.submit tenant engine).1 = .ok rule →
    ∃ write, Commit tenant submission.replaced? rule engine.commons write ∧
      (submission.submit tenant engine).2.commons = { engine.commons.write write with
        bus := engine.commons.bus.publish ⟨engine.own.id, some tenant, submission.reason⟩ }

theorem atomic_submit (keyed : engine.Keyed) (up : engine.commons.busDown = false)
    (tenant : TenantId) (submission : Submission) : engine.Atomic tenant submission := by
  have leads := leadsToCommit_submit (paced_pressed engine.timing) tenant submission
  rw [LeadsToCommit, Leads] at leads
  generalize result : submission.submit tenant engine = ends at leads
  obtain ⟨outcome, after⟩ := ends
  constructor
  · intro fault failed
    rw [result] at failed ⊢
    cases failed
    exact leads
  · intro rule stored
    rw [result] at stored ⊢
    cases stored
    obtain ⟨write, writes, shares⟩ := leads
    have unsilenced : ¬ (engine.commons.write write).busDown = true := by
      simp [Commons.write, up]
    rw [Commons.tell, if_neg unsilenced] at shares
    exact ⟨write, keyed.commit writes, shares.commons⟩

/-- In every state of a run a call that writes one rule is atomic, and every operation that ends
announces the tenants of the rows that it writes, and no others. -/
theorem atomic_and_announced_of_run {first : Engine} (keyed : first.Keyed)
    (run : Relation.ReflTransGen Happens first engine) (up : engine.commons.busDown = false) :
    (∀ tenant submission, engine.newCall.Atomic tenant submission) ∧
      ∀ command : Command, Completes command engine.newCall →
        Accounted engine.newCall (command.perform engine.newCall) := by
  have kept : engine.Keyed := keyed_of_run run keyed
  have calls : engine.newCall.Keyed := kept
  exact ⟨atomic_submit calls up, fun command completes => accounted_perform completes calls up⟩

section Sweeps

/-- Ann may read until one second after the epoch. -/
def annReadsAtFirst : Rule :=
  { annReads with
    isTemporary := true
    effectiveTo := some ⟨1, 0, by decide, Instant.epoch.nano_lt, by decide⟩ }

def listening : Engine :=
  ((Engine.listen : Act Engine Empty Unit) started.newCall).2

def granted : Engine :=
  (Command.create ⟨1⟩ annReadsAtFirst).perform listening.newCall

def afterwards : Instant :=
  ⟨2, 0, by decide, Instant.epoch.nano_lt, by decide⟩

/-- The rule has lapsed. -/
def lapsed : Engine :=
  granted.setClock afterwards

theorem run_granted : Relation.ReflTransGen Happens started granted :=
  (Relation.ReflTransGen.single .listen).tail (.call (.create ⟨1⟩ annReadsAtFirst))

theorem atomic_and_announced_lapsed : started.Keyed ∧
    Relation.ReflTransGen Happens started lapsed ∧ lapsed.commons.busDown = false ∧
    Completes .expire lapsed.newCall ∧
    lapsed.newCall.Atomic ⟨1⟩ (.update { annReads with id := ⟨1⟩ }) ∧
    Accounted lapsed.newCall (Command.expire.perform lapsed.newCall) := by
  have keyed : started.Keyed := fun _ _ impossible => nomatch impossible
  have kept : granted.Keyed := keyed_of_run run_granted keyed
  have run : Relation.ReflTransGen Happens started lapsed := run_granted.tail (.share _ kept)
  have up : lapsed.commons.busDown = false := rfl
  have swept : (expire lapsed.newCall).1 = .ok ⟨[⟨1⟩], [⟨1⟩]⟩ := rfl
  have completes : Completes .expire lapsed.newCall := by
    intro _ halt halted
    rw [swept] at halted
    cases halted
  obtain ⟨atomic, announced⟩ := atomic_and_announced_of_run keyed run up
  exact ⟨keyed, run, up, completes, atomic _ _, announced .expire completes⟩

/-- Tenant 2 has such a rule as well, and is asked about. -/
def bothGranted : Engine :=
  (Command.checkPermission ⟨2⟩ ⟨"clerk", []⟩ mayAnnRead).perform
    ((Command.create ⟨2⟩ { annReadsAtFirst with tenant := ⟨2⟩ }).perform granted.newCall).newCall

/-- Another rule of tenant 2, which was stored by another engine, ends with the calendar. -/
def overrun : Engine :=
  let endless : Rule := { annReads with
    tenant := ⟨2⟩
    effectiveTo := some ⟨Calendar.lastSecond, 999999999, by decide, by decide, by decide⟩ }
  (bothGranted.withStore (bothGranted.commons.store.insert endless).2).setClock afterwards

/-- The sweep disables the lapsed rules of both tenants, announces tenant 1, and halts at tenant 2. -/
theorem half_announced : Relation.ReflTransGen Happens started overrun ∧
    overrun.commons.busDown = false ∧
    (overrun.commons.store.rows.get? ⟨2⟩).map (fun rule => (rule.tenant, rule.status)) =
      some (⟨2⟩, .enabled) ∧
    ((Command.expire.perform overrun.newCall).commons.store.rows.get? ⟨2⟩).map
      (fun rule => (rule.tenant, rule.status)) = some (⟨2⟩, .disabled) ∧
    (Command.expire.perform overrun.newCall).commons.bus.waiting 0 =
      overrun.commons.bus.waiting 0 ++ [⟨overrun.own.id, some ⟨1⟩, .rulesExpired⟩] := by
  have keyed : started.Keyed := fun _ _ impossible => nomatch impossible
  have created := run_granted.tail
    (.call (.create ⟨2⟩ { annReadsAtFirst with tenant := ⟨2⟩ }))
  have both : Relation.ReflTransGen Happens started bothGranted :=
    created.tail (.call (.checkPermission ⟨2⟩ ⟨"clerk", []⟩ mayAnnRead))
  have kept : bothGranted.Keyed := keyed_of_run both keyed
  refine ⟨both.tail (.share _ ?_), ?_, ?_, ?_, ?_⟩
  · exact keyed_insert kept _
  · decide +kernel
  · decide +kernel
  · decide +kernel
  · decide +kernel

end Sweeps


end Runs

end Engine

end AccessPolicy
