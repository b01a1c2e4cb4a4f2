import AccessPolicy.Proofs.Act.Preserves
import AccessPolicy.Proofs.CacheKey.Tenancy
import AccessPolicy.Proofs.Engine.Run

/-!
The footprint of an operation: the steps that it can make, all of them for its own tenants. What is
preserved by the steps is preserved by the operation, on every path through it and wherever it stops.
-/
namespace AccessPolicy

namespace Engine

open Act hiding pure bind state

variable {ε α : Type} {kept keptAfter : Engine → Prop} {mine : TenantId → Prop}
variable {tenant : TenantId} {rule previous : Rule}

section Building

variable (timing : ∀ engine timing, kept engine → kept (engine.withTiming timing))
include timing

theorem preserves_waitUntil (moment : Nat) : Preserves kept (waitUntil moment : Act Engine ε Unit) :=
  fun engine holds => timing engine _ holds

theorem preserves_find (filter : RuleFilter) : Preserves kept (find filter) :=
  preserves_read fun _ _ => (preserves_waitUntil timing _).bind fun _ => preserves_ofExcept _

/-- What is found is stored. -/
theorem leads_find (filter : RuleFilter) {engine : Engine} (holds : kept engine) :
    Leads (find filter) engine
      (fun rules after => kept after ∧ ∀ rule ∈ rules, rule ∈ engine.commons.store.rows.values)
      (fun _ => kept) kept := by
  apply leads_read
  apply Leads.bind ((preserves_waitUntil timing _).leads holds)
  · intro _ middle holds
    apply leads_ofExcept
    · intro rules found
      refine ⟨holds, fun rule member => ?_⟩
      unfold RuleStore.find at found
      split at found
      · cases found
      · cases found
        exact (List.mem_filter.mp member).1
    · exact fun _ _ => holds
  · exact fun _ _ holds => holds
  · exact fun _ holds => holds

theorem preserves_buildEvaluator (tenant : TenantId) : Preserves kept (buildEvaluator tenant) := by
  apply preserves_read
  intro engine _
  apply ((preserves_find timing _).mapError _).bind
  intro rules
  split
  · exact preserves_pure _
  · exact preserves_halt _

theorem preserves_rebuild (build : ∀ engine evaluator, kept engine →
    kept (engine.withEvaluators (engine.own.evaluators.put tenant evaluator))) :
    Preserves kept (rebuild tenant) := by
  have keeps (evaluator : Evaluator) :
      Preserves kept (setEvaluator tenant evaluator : Act Engine EvaluatorError Unit) :=
    preserves_modify fun engine holds => build engine evaluator holds
  have rebuilds : Preserves kept (buildEvaluator tenant >>= fun evaluator =>
      setEvaluator tenant evaluator >>= fun _ => Pure.pure evaluator) :=
    (preserves_buildEvaluator timing tenant).bind fun evaluator =>
      (keeps evaluator).bind fun _ => preserves_pure _
  exact fun engine holds => timing _ _ (rebuilds engine holds)

end Building

/-- The steps with which operations ask for the evaluators of some tenants preserve a property: those
on the time, building an evaluator from the store or dropping it, and dropping what is cached of the
tenants. -/
structure AdmitsAccess (kept : Engine → Prop) (mine : TenantId → Prop) : Prop where
  timing : ∀ {engine} (timing : Timing), kept engine → kept (engine.withTiming timing)
  rebuild : ∀ {tenant}, mine tenant → Preserves kept (Engine.rebuild tenant)
  drop : ∀ {engine tenant}, mine tenant → kept engine →
    kept (engine.withEvaluators (engine.own.evaluators.erase tenant))
  forget : ∀ {engine tenant keys}, mine tenant → (∀ key ∈ keys, CacheKey.BelongsTo key tenant) →
    kept engine → kept (engine.withCache (engine.own.cache.delete keys).2)

/-- So does every step on an evaluator of the tenants, whatever becomes of it. -/
structure AdmitsReads (kept : Engine → Prop) (mine : TenantId → Prop) : Prop
    extends AdmitsAccess kept mine where
  build : ∀ {engine tenant} (evaluator : Evaluator), mine tenant → kept engine →
    kept (engine.withEvaluators (engine.own.evaluators.put tenant evaluator))
  rebuild := fun owned => preserves_rebuild (fun _ => timing) fun _ evaluator => build evaluator owned

/-- The steps on the bus preserve the property, as those do with which operations ask for evaluators. -/
structure AdmitsNotices (kept : Engine → Prop) (mine : TenantId → Prop) : Prop
    extends AdmitsAccess kept mine where
  publish : ∀ {engine} (bus : Bus Change), kept engine →
    kept { engine with commons := { engine.commons with bus := bus } }

/-- So does every step on an evaluator of the tenants, and taking out their rows. -/
structure AdmitsRemovals (kept : Engine → Prop) (mine : TenantId → Prop) : Prop
    extends AdmitsReads kept mine, AdmitsNotices kept mine where
  deleteRow : ∀ {engine tenant} (id : RuleId), mine tenant → kept engine →
    kept (engine.withStore (engine.commons.store.delete tenant id).2)

/-- So does every step on the rows of the tenants. -/
structure Admits (kept : Engine → Prop) (mine : TenantId → Prop) : Prop
    extends AdmitsRemovals kept mine where
  updateRow : ∀ {engine rule}, mine rule.tenant → kept engine →
    kept (engine.withStore (engine.commons.store.update rule).2)

/-- So do the steps of a check, which counts uses, caches what it finds out, and is audited. -/
structure AdmitsDecisions (kept : Engine → Prop) (mine : TenantId → Prop) : Prop
    extends AdmitsAccess kept mine where
  recordUsage : ∀ {engine tenant} (ids : List RuleId) (now : Instant), mine tenant → kept engine →
    kept (engine.withStore (engine.commons.store.recordUsage tenant ids now).2)
  keep : ∀ {engine tenant key} (now : Instant) (value : Json) (ttl : Nat)
    (validUntil : Option Instant), mine tenant → CacheKey.BelongsTo key tenant →
    ttl = engine.own.cache.decisionTtl ∨ ttl = engine.own.cache.roleTtl → kept engine →
    kept (engine.withCache (engine.own.cache.write now key value ttl validUntil))
  audit : ∀ {engine} (audit : List AuditRecord), kept engine →
    kept { engine with own := { engine.own with audit := audit } }

/-- So do the steps of every operation for some tenants. -/
structure AdmitsChecks (kept : Engine → Prop) (mine : TenantId → Prop) : Prop
    extends Admits kept mine, AdmitsDecisions kept mine

/-- So do the steps with which an engine follows others, which concern every tenant. -/
structure AdmitsFollowing (kept : Engine → Prop) : Prop
    extends AdmitsNotices kept (fun _ => True) where
  dropAll : ∀ {engine}, kept engine → kept (engine.withEvaluators [])
  listener : ∀ {engine} (listener : Option Listener), kept engine →
    kept { engine with own := { engine.own with listener := listener } }
  clear : ∀ {engine} (keys : List String), kept engine →
    kept (engine.withCache (engine.own.cache.delete keys).2)

/-- So do these and the steps on the rows. -/
structure AdmitsSync (kept : Engine → Prop) : Prop
    extends Admits kept (fun _ => True), AdmitsFollowing kept

section Steps

theorem preserves_onStore (step : RuleStore → Except StoreError α × RuleStore)
    (keeps : ∀ engine, kept engine → kept (engine.withStore (step engine.commons.store).2)) :
    Preserves kept (onStore step) :=
  fun engine holds => preserves_ofExcept _ _ (keeps engine holds)

theorem preserves_onCache (step : DecisionCache → α × DecisionCache)
    (keeps : ∀ engine, kept engine → kept (engine.withCache (step engine.own.cache).2)) :
    Preserves kept (onCache step : Act Engine ε α) :=
  keeps

theorem preserves_consultCache (step : DecisionCache → α × DecisionCache)
    (keeps : ∀ engine, kept engine → kept (engine.withCache (step engine.own.cache).2)) :
    Preserves kept (consultCache step : Act Engine ε α) := by
  intro engine holds
  have after := keeps engine holds
  unfold consultCache
  dsimp only
  split
  · exact after
  · exact after

namespace AdmitsAccess

variable (admits : AdmitsAccess kept mine)
include admits

theorem waitUntil (moment : Nat) : Preserves kept (waitUntil moment : Act Engine ε Unit) :=
  preserves_waitUntil (fun _ => admits.timing) moment

theorem find (filter : RuleFilter) : Preserves kept (find filter) :=
  preserves_find (fun _ => admits.timing) filter

theorem evaluator (owned : mine tenant) : Preserves kept (evaluator tenant) := by
  apply Preserves.bind (preserves_read fun _ _ => admits.waitUntil _)
  intro _
  apply preserves_read
  intro engine _
  split
  · exact admits.rebuild owned
  · split
    · apply (admits.rebuild owned).attempt.bind
      intro result
      split <;> exact preserves_pure _
    · exact preserves_pure _

theorem ask (owned : mine tenant) (ask : Evaluator → α) :
    Preserves kept (do Pure.pure (ask (← Engine.evaluator tenant))) :=
  (admits.evaluator owned).bind fun _ => preserves_pure _

theorem reload (owned : mine tenant) : Preserves kept (reload tenant) := by
  apply preserves_read
  intro engine _
  split
  · exact preserves_pure _
  · exact (admits.rebuild owned).bind fun _ => preserves_pure _

/-- What is carried into the evaluators cannot fail any more. -/
theorem yields_carry (owned : mine tenant) {change : Act Engine EvaluatorError Bool}
    (preserves : Preserves kept change) {engine : Engine} (holds : kept engine) :
    Yields kept True (carry tenant change : Act Engine ε Unit) engine (fun _ _ => True) := by
  apply (preserves.yields_attempt holds).bind
  intro result middle holds _
  split
  · exact yields_pure holds trivial
  · exact yields_pure (admits.drop owned holds) trivial

theorem carry (owned : mine tenant) {change : Act Engine EvaluatorError Bool}
    (preserves : Preserves kept change) :
    Preserves kept (carry tenant change : Act Engine ε Unit) :=
  fun _ holds => (admits.yields_carry owned preserves holds).settled

theorem forget_scan {engine : Engine} (owned : mine tenant) {glob : String}
    (within : ∀ {key}, Glob.accepts glob key = true → CacheKey.BelongsTo key tenant)
    (holds : kept engine) {keys : List String}
    (own : ∀ key ∈ keys, CacheKey.BelongsTo key tenant) :
    kept (engine.withCache (engine.own.cache.delete (engine.own.cache.scan glob ++ keys)).2) := by
  apply admits.forget owned _ holds
  intro key member
  rcases List.mem_append.mp member with found | listed
  · exact within (DecisionCache.accepts_of_mem_scan found)
  · exact own key listed

theorem invalidateTenant {engine : Engine} (owned : mine tenant) (holds : kept engine) :
    kept (engine.withCache (engine.own.cache.invalidateTenant tenant).2) :=
  admits.forget_scan owned CacheKey.belongs_of_tenantDecisionsGlob holds fun _ found =>
    CacheKey.belongs_of_tenantRolesGlob (DecisionCache.accepts_of_mem_scan found)

theorem invalidate {engine : Engine} (owned : mine tenant) (service : Option String)
    (holds : kept engine) :
    kept (engine.withCache (engine.own.cache.invalidate tenant service).2) := by
  cases service with
  | none => exact admits.invalidateTenant owned holds
  | some service =>
    apply admits.forget owned _ holds
    exact fun _ found =>
      CacheKey.belongs_of_serviceGlob (DecisionCache.accepts_of_mem_scan found)

theorem invalidateSubjects (owned : mine tenant) (subjects : List String) {engine : Engine}
    (holds : kept engine) :
    kept (engine.withCache (engine.own.cache.invalidateSubjects tenant subjects).2) := by
  induction subjects generalizing engine with
  | nil => exact holds
  | cons subject rest ih =>
    have first : kept (engine.withCache (engine.own.cache.invalidateSubject tenant subject).2) := by
      apply admits.forget_scan owned CacheKey.belongs_of_subjectGlob holds
      intro key listed
      rw [List.mem_singleton.mp listed]
      exact CacheKey.roles_belongs tenant subject
    exact ih first

theorem yields_invalidateFor (owned : mine rule.tenant) {engine : Engine} (holds : kept engine) :
    Yields kept True (invalidateFor rule : Act Engine ε Unit) engine (fun _ _ => True) := by
  have wholly {engine : Engine} (holds : kept engine) : Yields kept True
      (onCache (fun cache => cache.invalidateTenant rule.tenant) >>= fun _ => Pure.pure () :
        Act Engine ε Unit) engine (fun _ _ => True) := by
    exact yields_pure (admits.invalidateTenant owned holds) trivial
  unfold Engine.invalidateFor
  split
  · exact wholly holds
  · apply ((admits.ask owned _).yields_attempt holds).bind
    intro result middle holds _
    split
    · exact yields_pure (admits.invalidateSubjects owned _ holds) trivial
    · exact wholly holds

theorem invalidateFor (owned : mine rule.tenant) :
    Preserves kept (invalidateFor rule : Act Engine ε Unit) :=
  fun _ holds => (admits.yields_invalidateFor owned holds).settled

theorem yields_invalidateEach (rules : List Rule) (owned : ∀ rule ∈ rules, mine rule.tenant)
    {engine : Engine} (holds : kept engine) :
    Yields kept True (invalidateEach rules : Act Engine ε Unit) engine (fun _ _ => True) := by
  induction rules generalizing engine with
  | nil => exact yields_pure holds trivial
  | cons rule rest ih =>
    apply (admits.yields_invalidateFor (owned rule (List.mem_cons_self ..)) holds).bind
    intro _ middle holds _
    exact ih (fun other member => owned other (List.mem_cons_of_mem _ member)) holds

theorem invalidateEach (rules : List Rule) (owned : ∀ rule ∈ rules, mine rule.tenant) :
    Preserves kept (invalidateEach rules : Act Engine ε Unit) :=
  fun _ holds => (admits.yields_invalidateEach rules owned holds).settled

end AdmitsAccess

namespace AdmitsReads

variable (admits : AdmitsReads kept mine)
include admits

theorem setEvaluator (owned : mine tenant) (evaluator : Evaluator) :
    Preserves kept (setEvaluator tenant evaluator : Act Engine ε Unit) :=
  preserves_modify fun _ holds => admits.build evaluator owned holds

theorem stepEvaluator (owned : mine tenant) (step : Except EvaluatorError Bool × Evaluator) :
    Preserves kept (stepEvaluator tenant step) :=
  (admits.setEvaluator owned step.2).bind fun _ => preserves_ofExcept _

omit admits in
theorem tracked (evaluator : Evaluator) (rule : Rule) (now : Instant) :
    Preserves kept (tracked evaluator rule now) := by
  unfold Engine.tracked
  split
  · exact preserves_pure _
  · exact preserves_halt _

theorem addRule (owned : mine rule.tenant) : Preserves kept (addRule rule) := by
  apply preserves_read
  intro engine _
  cases engine.evaluator? rule.tenant with
  | none => exact preserves_pure _
  | some resident =>
    apply Preserves.bind
    · exact tracked resident rule engine.now
    intro evaluator
    apply (admits.setEvaluator owned evaluator).bind
    intro _
    split
    · exact admits.stepEvaluator owned _
    · exact preserves_pure _

theorem removeRule (owned : mine rule.tenant) : Preserves kept (removeRule rule) := by
  apply preserves_read
  intro engine _
  split
  · exact preserves_pure _
  · exact admits.stepEvaluator owned _

theorem replaceRule (previous : Rule) (owned : mine rule.tenant) :
    Preserves kept (replaceRule previous rule) := by
  apply preserves_read
  intro engine _
  cases engine.evaluator? rule.tenant with
  | none => exact preserves_pure _
  | some resident =>
    apply (admits.setEvaluator owned _).bind
    intro _
    apply Preserves.bind
    · exact preserves_ofExcept _
    intro removed
    apply Preserves.bind
    · exact tracked _ rule engine.now
    intro evaluator
    apply (admits.setEvaluator owned evaluator).bind
    intro _
    split
    · exact (admits.stepEvaluator owned _).bind fun _ => preserves_pure _
    · exact preserves_pure _

end AdmitsReads

namespace AdmitsNotices

variable (admits : AdmitsNotices kept mine)
include admits

theorem announce (tenant : Option TenantId) (reason : ChangeReason) :
    Preserves kept (announce tenant reason) := by
  apply preserves_read
  intro engine _
  split
  · exact preserves_fail _
  · exact preserves_modify fun engine holds => admits.publish _ holds

theorem broadcast (tenant : TenantId) (reason : ChangeReason) :
    Preserves kept (broadcast tenant reason : Act Engine ε Unit) :=
  (admits.announce _ reason).attempt.bind fun _ => preserves_pure _

end AdmitsNotices

end Steps

section Writes

namespace AdmitsAccess

variable (admits : AdmitsAccess kept mine)
include admits

theorem validate (tenant : TenantId) (rule : Rule) (conflicts : Bool) :
    Preserves kept (validate tenant rule conflicts) := by
  apply preserves_read
  intro engine _
  split
  · exact ((admits.find _).mapError _).bind fun _ => preserves_pure _
  · exact preserves_pure _

theorem requireValid (tenant : TenantId) (rule : Rule) :
    Preserves kept (requireValid tenant rule) := by
  apply (admits.validate tenant rule true).bind
  intro report
  split
  · exact preserves_pure _
  · exact preserves_fail _

end AdmitsAccess

namespace Admits

variable (admits : Admits kept mine)
include admits

theorem replace (previous : Rule) (reason : ChangeReason) (owned : mine rule.tenant)
    (ownedToo : mine previous.tenant) : Preserves kept (replace previous rule reason) := by
  have commits : Preserves kept (onStore (fun store => store.update rule)) :=
    preserves_onStore _ fun _ => admits.updateRow owned
  apply (commits.mapError _).bind
  intro _
  apply (admits.carry owned (admits.replaceRule previous owned)).bind
  intro _
  apply (admits.broadcast _ reason).bind
  intro _
  apply (admits.invalidateFor ownedToo).bind
  intro _
  exact (admits.invalidateFor owned).bind fun _ => preserves_pure _

theorem update (owned : mine tenant) : Preserves kept (Engine.update tenant rule) := by
  apply preserves_of_leads
  intro engine holds
  apply Leads.bind (leads_requireTenant tenant rule engine)
  · intro _ _ ⟨same, own⟩
    rw [same]
    apply Leads.bind (leads_load tenant rule.id engine)
    · intro previous _ ⟨same, _, ownToo⟩
      rw [same]
      have replaces (now : Instant) : Preserves kept
          (Engine.replace previous (updated previous rule now) .ruleUpdated) :=
        admits.replace previous _ (own ▸ owned) (ownToo ▸ owned)
      have onward : Preserves kept (Engine.requireValid tenant rule >>= fun _ =>
          Act.state >>= fun engine =>
            Engine.replace previous (updated previous rule engine.now) .ruleUpdated) :=
        (admits.requireValid tenant rule).bind fun _ => preserves_read fun _ _ => replaces _
      exact onward.leads holds
    · exact fun _ _ same => same ▸ holds
    · exact fun _ impossible => impossible.elim
  · exact fun _ _ same => same ▸ holds
  · exact fun _ impossible => impossible.elim

theorem decideApproval (owned : mine tenant) (id : RuleId) (approver : Principal)
    (decided : Rule → String → Instant → Rule) (reason : ChangeReason)
    (same : ∀ rule name now, (decided rule name now).tenant = rule.tenant) :
    Preserves kept (decideApproval tenant id approver decided reason) := by
  apply preserves_of_leads
  intro engine holds
  apply Leads.bind (leads_load tenant id engine)
  · intro previous _ ⟨unchanged, _, own⟩
    rw [unchanged]
    split
    · have replaces (now : Instant) : Preserves kept
          (Engine.replace previous (decided previous approver.id now) reason) :=
        admits.replace previous _ ((same ..).symm ▸ own.symm ▸ owned) (own ▸ owned)
      exact (preserves_read fun _ _ => replaces _).leads holds
    · exact leads_fail holds
  · exact fun _ _ same => same ▸ holds
  · exact fun _ impossible => impossible.elim

/-- The store takes a new rule in one step, which may preserve less than the others do. -/
theorem create (after : Admits keptAfter mine) (weaken : ∀ engine, kept engine → keptAfter engine)
    (inserts : ∀ engine rule, mine rule.tenant → kept engine →
      keptAfter (engine.withStore (engine.commons.store.insert rule).2))
    (owned : mine tenant) {engine : Engine} (holds : kept engine) :
    keptAfter (create tenant rule engine).2 := by
  apply Leads.settled
  apply Leads.bind (leads_requireTenant tenant rule engine)
  · intro _ _ ⟨same, own⟩
    rw [same]
    apply Leads.bind ((admits.requireValid tenant rule).leads holds)
    · intro _ middle holds
      apply leads_read
      apply leads_bind
      apply leads_mapError
      have inserted := inserts middle (created rule middle.now) (own ▸ owned) holds
      apply (leads_onStore _ middle).mono
      · intro stored _ ⟨accepted, same⟩
        have named := (RuleStore.insert_eq_ok accepted).1
        have ownStored : mine stored.tenant := by
          rw [named]
          exact own ▸ owned
        have onward : Preserves keptAfter (Engine.carry stored.tenant (Engine.addRule stored) >>=
            fun _ => Engine.broadcast stored.tenant .ruleCreated >>= fun _ =>
              Engine.invalidateFor stored >>= fun _ =>
                (Pure.pure stored : Act Engine ServiceError Rule)) := by
          apply (after.carry ownStored (after.addRule ownStored)).bind
          intro _
          apply (after.broadcast _ _).bind
          intro _
          exact (after.invalidateFor ownStored).bind fun _ => preserves_pure _
        rw [same]
        exact onward.leads inserted
      · intro _ _ ⟨_, same⟩
        rw [same]
        exact inserted
      · exact fun _ impossible => impossible.elim
    · exact fun _ middle holds => weaken middle holds
    · exact fun middle holds => weaken middle holds
  · exact fun _ _ same => same ▸ weaken engine holds
  · exact fun _ impossible => impossible.elim

end Admits

namespace AdmitsRemovals

variable (admits : AdmitsRemovals kept mine)
include admits

/-- What is removed belongs to the tenant. -/
theorem leads_removeEach (owned : mine tenant) (ids : List RuleId) {engine : Engine}
    (holds : kept engine) :
    Leads (removeEach tenant ids : Act Engine ε (List Rule × Option StoreError)) engine
      (fun result after => kept after ∧ ∀ rule ∈ result.1, rule.tenant = tenant)
      (fun _ => kept) kept := by
  induction ids generalizing engine with
  | nil => exact leads_pure ⟨holds, by simp⟩
  | cons id rest ih =>
    apply leads_bind
    apply leads_attempt
    have deleted := admits.deleteRow id owned holds
    apply (leads_onStore _ engine).mono
    · intro found _ ⟨deletes, same⟩
      rw [same]
      cases found with
      | none => exact ih deleted
      | some rule =>
        have own := (RuleStore.delete_eq_some deletes).2.2
        have takes : Preserves kept (Engine.removeRule rule) := admits.removeRule (own ▸ owned)
        have removes := admits.carry (ε := ε) owned takes
        apply Leads.bind (removes.leads deleted)
        · intro _ middle holds
          apply Leads.bind (ih holds)
          · intro result final ⟨holds, others⟩
            apply leads_pure
            refine ⟨holds, ?_⟩
            intro other member
            rcases List.mem_cons.mp member with first | later
            · rw [first]
              exact own
            · exact others other later
          · exact fun _ _ holds => holds
          · exact fun _ holds => holds
        · exact fun _ _ holds => holds
        · exact fun _ holds => holds
    · intro _ _ ⟨_, same⟩
      rw [same]
      exact leads_pure ⟨deleted, by simp⟩
    · exact fun _ impossible => impossible.elim

theorem delete (owned : mine tenant) (ids : List RuleId) :
    Preserves kept (Engine.delete tenant ids) := by
  apply preserves_of_leads
  intro engine holds
  have settles {removed : List Rule} (own : ∀ rule ∈ removed, rule.tenant = tenant)
      {last : Act Engine ServiceError (List RuleId)} (ends : Preserves kept last) :
      Preserves kept (Engine.broadcast tenant .rulesDeleted >>= fun _ =>
        Engine.invalidateEach removed >>= fun _ => last) := by
    apply (admits.broadcast tenant _).bind
    intro _
    apply (admits.invalidateEach removed fun rule member => own rule member ▸ owned).bind
    exact fun _ => ends
  apply Leads.bind (admits.leads_removeEach owned ids holds)
  · intro result middle removes
    obtain ⟨removed, failure⟩ := result
    obtain ⟨holds, own⟩ := removes
    replace own : ∀ rule ∈ removed, rule.tenant = tenant := own
    cases removed with
    | nil =>
      cases failure with
      | some fault => exact (preserves_fail _).leads holds
      | none => exact (preserves_pure _).leads holds
    | cons rule rest =>
      cases failure with
      | some fault => exact (settles own (preserves_fail _)).leads holds
      | none => exact (settles own (preserves_pure _)).leads holds
  · exact fun _ _ holds => holds
  · exact fun _ holds => holds

end AdmitsRemovals

end Writes

section Upkeep

namespace AdmitsAccess

variable (admits : AdmitsAccess kept mine)
include admits

theorem summary (owned : mine tenant) (user : String) (service : Option String)
    (inherited : Bool) : Preserves kept (summary tenant user service inherited) :=
  ((admits.ask owned _).mapError _).bind fun _ => preserves_pure _

theorem refresh (owned : mine tenant) (type : CacheType) (service : Option String) :
    Preserves kept (refresh tenant type service : Act Engine ε RefreshReport) := by
  have forgets : Preserves kept
      (onCache (fun cache => cache.invalidate tenant service) : Act Engine ε Nat) :=
    preserves_onCache _ fun _ => admits.invalidate owned service
  apply preserves_either (preserves_pure _) forgets
  intro cleared
  apply preserves_either (preserves_pure _) (admits.reload owned).attempt
  intro reloaded
  cases reloaded <;> exact preserves_pure _

theorem reloadEach (every : ∀ tenant, mine tenant) (tenants : List TenantId) :
    Preserves kept (reloadEach tenants : Act Engine ε (List TenantId)) := by
  induction tenants with
  | nil => exact preserves_pure _
  | cons tenant rest ih =>
    apply (admits.reload (every tenant)).attempt.bind
    intro reloaded
    split
    · exact ih.bind fun _ => preserves_pure _
    · exact ih

end AdmitsAccess

namespace AdmitsNotices

variable (admits : AdmitsNotices kept mine)
include admits

theorem sync (owned : mine tenant) (service : Option String) (force : Bool) :
    Preserves kept (sync tenant service force) := by
  have forgets : Preserves kept
      (onCache (fun cache => cache.invalidate tenant service) : Act Engine ServiceError Nat) :=
    preserves_onCache _ fun _ => admits.invalidate owned service
  apply preserves_either ((admits.reload owned).mapError _) (preserves_pure _)
  intro reloaded
  apply preserves_when ((admits.evaluator owned).mapError _)
  apply preserves_read
  intro engine _
  apply ((admits.find _).mapError _).bind
  intro active
  apply forgets.bind
  intro _
  exact preserves_when (admits.broadcast tenant _) (preserves_pure _)

theorem settleExpiries (every : ∀ tenant, mine tenant) (tenants : List TenantId) :
    Preserves kept (settleExpiries tenants : Act Engine ε Unit) := by
  induction tenants with
  | nil => exact preserves_pure _
  | cons tenant rest ih =>
    have owned := every tenant
    have settles : Preserves kept (settleExpiry tenant : Act Engine ε Unit) := by
      apply (admits.carry owned (admits.reload owned)).bind
      intro _
      apply (admits.broadcast tenant _).bind
      intro _
      exact (preserves_onCache _ fun _ => admits.invalidateTenant owned).bind fun _ =>
        preserves_pure _
    exact settles.bind fun _ => ih

end AdmitsNotices

theorem preserves_disableEach (now : Instant) (rules : List Rule)
    (disables : ∀ rule ∈ rules,
      Preserves kept (onStore (fun store => store.update (disabled rule now)))) :
    Preserves kept (disableEach now rules : Act Engine ε (List Rule)) := by
  induction rules with
  | nil => exact preserves_pure _
  | cons rule rest ih =>
    apply (disables rule (List.mem_cons_self ..)).attempt.bind
    intro stored
    apply (ih fun other member => disables other (List.mem_cons_of_mem _ member)).bind
    intro others
    split <;> exact preserves_pure _

/-- The sweep disables rows that are stored when it begins. -/
theorem AdmitsNotices.expire (admits : AdmitsNotices kept mine) (every : ∀ tenant, mine tenant)
    {engine : Engine} (holds : kept engine)
    (disables : ∀ rule ∈ engine.commons.store.rows.values,
      Preserves kept (onStore (fun store => store.update (disabled rule engine.now)))) :
    kept (Engine.expire engine).2 := by
  apply Leads.settled
  apply leads_read
  apply leads_bind
  apply leads_mapError
  apply (leads_find (fun _ => admits.timing) _ holds).mono
  · intro candidates middle ⟨holds, stored⟩
    have sweeps : Preserves kept (disableEach engine.now
        (candidates.filter (·.isLapsed engine.now)) : Act Engine ServiceError (List Rule)) :=
      preserves_disableEach _ _ fun rule member =>
        disables rule (stored rule (List.mem_filter.mp member).1)
    have onward := sweeps.bind fun expired =>
      (admits.settleExpiries every (Ascending.ofList (expired.map Rule.tenant))).bind fun _ =>
        preserves_pure (⟨expired.map Rule.id, Ascending.ofList (expired.map Rule.tenant)⟩ :
          ExpiryReport)
    exact onward.leads holds
  · exact fun _ _ holds => holds
  · exact fun _ holds => holds

theorem Admits.expire (admits : Admits kept mine) (every : ∀ tenant, mine tenant) :
    Preserves kept Engine.expire := by
  intro engine holds
  apply admits.toAdmitsNotices.expire every holds
  exact fun _ _ => preserves_onStore _ fun _ => admits.updateRow (every _)

end Upkeep

section Following

namespace AdmitsFollowing

variable (admits : AdmitsFollowing kept)
include admits

theorem listen : Preserves kept (listen : Act Engine ε Unit) := by
  apply preserves_read
  intro engine _
  split
  · exact preserves_modify fun _ holds => admits.listener _ (admits.publish _ holds)
  · exact preserves_pure _

theorem dropEvaluators : Preserves kept (dropEvaluators : Act Engine ε Nat) := by
  apply preserves_read
  intro engine _
  exact (preserves_modify fun _ holds => admits.dropAll holds).bind fun _ => preserves_pure _

theorem shutdown : Preserves kept (shutdown : Act Engine ε Unit) := by
  apply preserves_read
  intro engine _
  cases engine.own.listener with
  | none => exact admits.dropEvaluators.bind fun _ => preserves_pure _
  | some listener =>
    apply Preserves.bind
    · exact preserves_modify fun _ holds => admits.listener none (admits.publish _ holds)
    · exact fun _ => admits.dropEvaluators.bind fun _ => preserves_pure _

theorem applyChange (change : Change) :
    Preserves kept (applyChange change : Act Engine ε Bool) := by
  apply preserves_read
  intro engine _
  split
  · exact preserves_pure _
  · cases change.tenant with
    | some tenant =>
      have forgets : Preserves kept
          (onCache (fun cache => cache.invalidateTenant tenant) : Act Engine ε Nat) :=
        preserves_onCache _ fun _ => admits.invalidateTenant trivial
      have reloads : Preserves kept (reload tenant) := admits.reload trivial
      apply reloads.attempt.bind
      intro _
      exact forgets.bind fun _ => preserves_pure _
    | none =>
      have forgets : Preserves kept
          (onCache (fun cache => cache.invalidateAll none) : Act Engine ε Nat) :=
        preserves_onCache _ fun _ => admits.clear _
      have reloads : Preserves kept (reloadAll : Act Engine ε (List TenantId)) :=
        preserves_read fun _ _ => admits.reloadEach (fun _ => trivial) _
      apply reloads.bind
      intro _
      exact forgets.bind fun _ => preserves_pure _

theorem applyEach (listener : Listener) (changes : List Change) :
    Preserves kept (applyEach listener changes : Act Engine ε Unit) := by
  induction changes with
  | nil => exact preserves_pure _
  | cons change rest ih =>
    intro engine holds
    have applied := admits.applyChange (ε := ε) change engine holds
    unfold Engine.applyEach
    generalize (Engine.applyChange change : Act Engine ε Bool) engine = result at applied ⊢
    obtain ⟨outcome, after⟩ := result
    cases outcome with
    | ok value => exact ih after applied
    | error cause => exact ih after applied
    | halted cause => exact admits.listener _ (admits.publish _ applied)

theorem takeChanges : Preserves kept (takeChanges : Act Engine ε Unit) := by
  apply preserves_read
  intro engine _
  cases engine.own.listener with
  | none => exact preserves_pure _
  | some listener =>
    dsimp only
    split
    · apply Preserves.bind
      · exact preserves_modify fun _ holds => admits.publish _ holds
      · exact fun _ => admits.applyEach listener _
    · exact preserves_pure _

end AdmitsFollowing

end Following

section Checks

namespace AdmitsDecisions

variable (admits : AdmitsDecisions kept mine) {request : CheckRequest}
include admits

theorem recordUse (owned : mine tenant) (ids : List RuleId) :
    Preserves kept (recordUse tenant ids : Act Engine ε Unit) := by
  apply preserves_read
  intro engine _
  have counts : Preserves kept
      (onStore (fun store => store.recordUsage tenant ids engine.now)) :=
    preserves_onStore _ fun _ => admits.recordUsage ids _ owned
  exact counts.attempt.bind fun _ => preserves_pure _

theorem evaluate (owned : mine request.tenant) : Preserves kept (evaluate request) := by
  apply ((admits.ask owned _).mapError _).bind
  intro evaluation
  exact preserves_when (admits.recordUse owned _) (preserves_read fun _ _ => preserves_pure _)

theorem consult {β : Type} {shape : Json.Shape} {decodeValue : Json → Option β} {key : String}
    (owned : mine tenant) (belongs : CacheKey.BelongsTo key tenant) {engine : Engine}
    (now : Instant) (holds : kept engine) :
    kept (engine.withCache (engine.own.cache.read shape decodeValue now key).2) := by
  have forgets : kept (engine.withCache (engine.own.cache.delete [key]).2) := by
    apply admits.forget owned _ holds
    intro other listed
    rw [List.mem_singleton.mp listed]
    exact belongs
  unfold DecisionCache.read
  split
  · split
    · split
      · exact forgets
      · exact holds
    · exact forgets
  · exact holds

theorem lookUp (owned : mine request.tenant) :
    Preserves kept (lookUp request : Act Engine ε (Option Decision)) := by
  apply preserves_read
  intro engine _
  apply preserves_consultCache
  exact fun _ holds => admits.consult owned (CacheKey.decision_belongs request.about) _ holds

theorem remember (owned : mine request.tenant) (decision : Decision) (bound : Option Instant) :
    Preserves kept (remember request decision bound : Act Engine ε Unit) := by
  apply preserves_read
  intro engine _
  apply preserves_consultCache
  exact fun _ holds =>
    admits.keep _ _ _ _ owned (CacheKey.decision_belongs request.about) (Or.inl rfl) holds

theorem decideFresh (owned : mine request.tenant) (useCache : Bool) :
    Preserves kept (decideFresh request useCache) := by
  apply (admits.evaluate owned).bind
  intro answer
  exact preserves_when (admits.remember owned _ _) (preserves_pure _)

theorem decide (owned : mine request.tenant) (useCache : Bool) :
    Preserves kept (decide request useCache) := by
  apply preserves_read
  intro engine _
  split
  · exact preserves_pure _
  · split
    · apply (admits.lookUp owned).bind
      intro found
      split
      · exact preserves_pure _
      · exact admits.decideFresh owned _
    · exact admits.decideFresh owned _

theorem roles (owned : mine tenant) (subject : String) (useCache : Bool) :
    Preserves kept (roles tenant subject useCache) := by
  have belongs := CacheKey.roles_belongs tenant subject
  have consults (now : Instant) : Preserves kept
      (consultCache (fun cache => cache.getRoles now tenant subject) :
        Act Engine CheckError (Option (List String))) :=
    preserves_consultCache _ fun _ => admits.consult owned belongs now
  have keeps (now : Instant) (roles : List String) (bound : Option Instant) : Preserves kept
      (consultCache (fun cache => ((), cache.setRoles now tenant subject roles bound)) :
        Act Engine CheckError Unit) :=
    preserves_consultCache _ fun _ => admits.keep now _ _ _ owned belongs (Or.inr rfl)
  apply preserves_read
  intro engine _
  apply preserves_either (consults engine.now) (preserves_pure _)
  intro found
  cases found with
  | some roles => exact preserves_pure _
  | none =>
    apply ((admits.ask owned _).mapError _).bind
    intro answer
    exact preserves_when (keeps engine.now _ _) (preserves_pure _)

theorem firstAllowed (owned : mine request.tenant) (useCache : Bool) (roles : List String) :
    Preserves kept (firstAllowed request useCache roles) := by
  induction roles with
  | nil => exact preserves_pure _
  | cons role rest ih =>
    have ownedRole : mine (request.asSubject role).tenant := owned
    apply (admits.decide ownedRole useCache).bind
    intro decision
    split
    · exact preserves_pure _
    · exact ih

theorem decideExpanded (owned : mine request.tenant) (useCache : Bool) :
    Preserves kept (decideExpanded request useCache) := by
  apply (admits.decide owned useCache).bind
  intro direct
  split
  · exact preserves_pure _
  · split
    · exact preserves_pure _
    · apply (admits.roles owned _ useCache).bind
      intro roles
      apply (admits.firstAllowed owned useCache roles).bind
      intro found
      split <;> exact preserves_pure _

theorem within {millis : Option Nat} {late : α} {action : Act Engine ε α}
    (preserves : Preserves kept action) : Preserves kept (within millis late action) := by
  intro engine holds
  have after := preserves _ (admits.timing
    { engine.timing with deadline := millis.map (engine.timing.elapsed + ·) } holds)
  unfold Engine.within
  split
  · rename_i final ends
    rw [withDeadline] at ends
    rw [ends] at after
    exact admits.timing _ after
  · rename_i outcome final _ ends
    rw [withDeadline] at ends
    rw [ends] at after
    exact admits.timing _ after

theorem auditDecision (request : CheckRequest) (asked : Bool) (decision : Decision) :
    Preserves kept (Act.modify (auditDecision request asked decision) : Act Engine ε Unit) := by
  apply preserves_modify
  intro engine holds
  unfold Engine.auditDecision
  split
  · exact admits.audit _ holds
  · exact holds

theorem check (owned : mine request.tenant) (options : CheckOptions) (expand : Bool) :
    Preserves kept (check request options expand) := by
  unfold Engine.check
  split
  · exact preserves_fail _
  · apply preserves_read
    intro engine _
    apply Preserves.bind
    · apply admits.within
      split
      · exact admits.decideExpanded owned _
      · exact admits.decide owned _
    · intro decision
      apply (admits.auditDecision request options.audit decision).bind
      exact fun _ => preserves_pure _

theorem checkPermission (owned : mine tenant) (caller : Principal) (query : PermissionQuery) :
    Preserves kept (checkPermission tenant caller query : Act Engine ε Decision) := by
  have ownedRequest : mine (query.toRequest tenant caller).tenant := owned
  apply (admits.check ownedRequest query.options query.expandRoles).attempt.bind
  intro result
  split <;> exact preserves_pure _

theorem batchItem (owned : mine request.tenant) (place start : Nat) (options : CheckOptions)
    {engine : Engine} (holds : kept engine) :
    kept (batchItem place start request options engine).2 :=
  ((admits.waitUntil start).bind fun _ => admits.check owned options false) engine holds

theorem decideEach (options : CheckOptions) (free : List Nat) {requests : List (Nat × CheckRequest)}
    (owned : ∀ item ∈ requests, mine item.2.tenant) {engine : Engine} (holds : kept engine) :
    kept (decideEach options free engine requests).2 := by
  induction requests generalizing free engine with
  | nil => exact holds
  | cons item rest ih =>
    have first := owned item (List.mem_cons_self ..)
    apply ih _ fun other member => owned other (List.mem_cons_of_mem _ member)
    exact admits.batchItem first item.1 _ options holds

theorem decideInOrder (order : List Nat) {requests : List CheckRequest}
    (owned : ∀ request ∈ requests, mine request.tenant) (options : CheckOptions)
    (last : Option Nat) {engine : Engine} (holds : kept engine) :
    kept (decideInOrder order requests options last engine).2 := by
  apply admits.timing
  apply admits.decideEach options _ _ (admits.timing _ holds)
  intro item member
  obtain ⟨place, _, found⟩ := List.mem_filterMap.mp member
  obtain ⟨request, listed, same⟩ := Option.map_eq_some_iff.mp found
  rw [← same]
  exact owned request (List.mem_of_getElem? listed)

theorem batch {requests : List CheckRequest} (owned : ∀ request ∈ requests, mine request.tenant)
    (options : CheckOptions) (failFast : Bool) :
    Preserves kept (batch requests options failFast) := by
  apply preserves_read
  intro engine _
  split
  · exact preserves_halt _
  · intro engine holds
    unfold batchInOrder
    dsimp only
    split
    · split
      · exact admits.decideInOrder _ owned _ _ holds
      · exact admits.decideInOrder _ owned _ _ holds
    · exact admits.decideInOrder _ owned _ _ holds

theorem batchPermission (owned : mine tenant) (caller : Principal) (queries : List PermissionQuery)
    (failFast : Bool) : Preserves kept (batchPermission tenant caller queries failFast) := by
  have requested : ∀ request ∈ queries.map (·.toRequest tenant caller), mine request.tenant := by
    intro request member
    obtain ⟨query, _, same⟩ := List.mem_map.mp member
    rw [← same]
    exact owned
  exact (admits.batch requested _ failFast).bind fun _ => preserves_pure _

end AdmitsDecisions

end Checks

end Engine

namespace Command

/-- The command asks for decisions. -/
def decides : Command → Bool
  | check .. | checkPermission .. | batch .. | batchPermission .. => true
  | _ => false

/-- The command is called for tenants of which something holds. -/
def For (mine : TenantId → Prop) : Command → Prop
  | create tenant _ | update tenant _ | delete tenant _ | approve tenant _ _ | reject tenant _ _
  | sync tenant _ _ | refresh tenant _ _ | validate tenant _ _ | summary tenant _ _ _
  | checkPermission tenant _ _ | batchPermission tenant _ _ _ => mine tenant
  | expire => ∀ tenant, mine tenant
  | check request _ _ => mine request.tenant
  | batch requests _ _ => ∀ request ∈ requests, mine request.tenant

end Command

namespace Engine

variable {kept keptAfter : Engine → Prop} {mine : TenantId → Prop} {command : Command}
variable {engine : Engine}

/-- A command that asks for no decision preserves what its steps preserve. -/
theorem Admits.perform (admits : Admits kept mine) (after : Admits keptAfter mine)
    (weaken : ∀ engine, kept engine → keptAfter engine)
    (inserts : ∀ engine rule, mine rule.tenant → kept engine →
      keptAfter (engine.withStore (engine.commons.store.insert rule).2))
    (plain : command.decides = false) (scope : command.For mine) (holds : kept engine) :
    keptAfter (command.perform engine) := by
  cases command with
  | create tenant rule => exact admits.create after weaken inserts scope holds
  | update tenant rule => exact weaken _ (admits.update scope engine holds)
  | delete tenant ids => exact weaken _ (admits.delete scope ids engine holds)
  | approve tenant id approver =>
    have approves := admits.decideApproval scope id approver Rule.approve .ruleApproved
      fun _ _ _ => rfl
    exact weaken _ (approves engine holds)
  | reject tenant id approver =>
    have rejects := admits.decideApproval scope id approver Rule.reject .ruleRejected
      fun _ _ _ => rfl
    exact weaken _ (rejects engine holds)
  | expire => exact weaken _ (admits.expire scope engine holds)
  | sync tenant service force => exact weaken _ (admits.sync scope service force engine holds)
  | refresh tenant type service => exact weaken _ (admits.refresh scope type service engine holds)
  | validate tenant rule conflicts =>
    exact weaken _ (admits.validate tenant rule conflicts engine holds)
  | summary tenant user service inherited =>
    exact weaken _ (admits.summary scope user service inherited engine holds)
  | check | checkPermission | batch | batchPermission => cases plain

theorem AdmitsDecisions.perform (admits : AdmitsDecisions kept mine) (asks : command.decides = true)
    (scope : command.For mine) (holds : kept engine) : kept (command.perform engine) := by
  cases command with
  | check request options expand => exact admits.check scope options expand engine holds
  | checkPermission tenant caller query =>
    exact admits.checkPermission scope caller query engine holds
  | batch requests options failFast => exact admits.batch scope options failFast engine holds
  | batchPermission tenant caller queries failFast =>
    exact admits.batchPermission scope caller queries failFast engine holds
  | _ => cases asks

end Engine

end AccessPolicy
