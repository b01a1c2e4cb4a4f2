import AccessPolicy.Proofs.Act.Steps
import AccessPolicy.Proofs.Engine.Run

/-!
The steps of a write: what it reads and checks, its commits to the store, the registry call that each
commit owes to the tenant's evaluator, the announcement, and what it drops from the cache. Made one
after the other they are the write. What each kind of step upholds, whatever others do between, is
upheld by every write.
-/
namespace AccessPolicy

/-- The registry call that a commit owes. -/
inductive Owed where
  | add (rule : Rule)
  | replace (previous current : Rule)
  | remove (rule : Rule)

namespace Owed

def id : Owed → RuleId
  | add rule | replace _ rule | remove rule => rule.id

def tenant : Owed → TenantId
  | add rule | replace _ rule | remove rule => rule.tenant

/-- The row that is stored under the id since the commit. -/
def row? : Owed → Option Rule
  | add rule | replace _ rule => some rule
  | remove _ => none

def call : Owed → Act Engine EvaluatorError Bool
  | add rule => Engine.addRule rule
  | replace previous current => Engine.replaceRule previous current
  | remove rule => Engine.removeRule rule

end Owed

/-- What a write has still to make good. -/
structure Debt where
  /-- The row that it is about to replace, as it has read it. -/
  read : Option Rule
  /-- The changed rules for which the cache is still to be invalidated. -/
  left : List Rule
  owed : Option Owed
  /-- All commits are made and carried. -/
  closing : Bool

namespace Debt

def free : Debt := ⟨none, [], none, false⟩

def reading (rule : Rule) : Debt := { free with read := some rule }

def leaving (left : List Rule) : Debt := { free with left := left }

def owing (left : List Rule) (owed : Owed) : Debt := { leaving left with owed := some owed }

def closed (left : List Rule) : Debt := { leaving left with closing := true }

theorem owed_owing_iff (left : List Rule) {owed other : Owed} :
    (owing left owed).owed = some other ↔ (leaving left).owed = some other ∨ other = owed := by
  simp only [owing, leaving, free, Option.some.injEq, reduceCtorEq, false_or]
  exact eq_comm

end Debt

inductive WriteKind where
  | plan
  | insert
  | commit (id : RuleId)
  | carry
  | drop
  | announce
  | invalidate
deriving DecidableEq

/-- What a step of a write is about, and what is to be made good when it is made. -/
structure WriteMark where
  kind : WriteKind
  debt : Debt

/-- What is to be made good before the next step; nothing when no step is due. -/
def Debt.ofDue : Option WriteMark → Debt
  | none => .free
  | some mark => mark.debt

namespace Engine

variable {ε α : Type}

def planned (debt : Debt) (action : Act Engine ε α) : Steps Engine WriteMark ε α :=
  .once ⟨.plan, debt⟩ action

def carrySteps (tenant : TenantId) (left : List Rule) (owed : Owed) :
    Steps Engine WriteMark ε Unit := do
  match ← .once ⟨.carry, .owing left owed⟩ owed.call.attempt with
  | .ok _ => pure ()
  | .error _ => let _ ← Steps.once ⟨.drop, .owing left owed⟩ (dropEvaluator tenant)

def announceSteps (left : List Rule) (tenant : TenantId) (reason : ChangeReason) :
    Steps Engine WriteMark ε Unit :=
  .once ⟨.announce, .leaving left⟩ (broadcast tenant reason)

/-- Invalidates for each of the rules that are left. -/
def invalidateSteps : List Rule → Steps Engine WriteMark ε Unit
  | [] => pure ()
  | rule :: rest => do
    .once ⟨.invalidate, .closed (rule :: rest)⟩ (invalidateFor rule)
    invalidateSteps rest

/-- What follows a commit, when no other is to be made. -/
def followSteps (left : List Rule) (owed : Owed) (reason : ChangeReason) :
    Steps Engine WriteMark ε Unit := do
  carrySteps owed.tenant left owed
  announceSteps left owed.tenant reason
  invalidateSteps left

def createSteps (tenant : TenantId) (rule : Rule) : Steps Engine WriteMark ServiceError Rule := do
  planned .free (requireTenant tenant rule)
  planned .free (requireValid tenant rule)
  let now := (← planned .free Act.state).now
  let stored ← .once ⟨.insert, .free⟩
    ((onStore (fun store => store.insert (created rule now))).mapError ServiceError.store)
  followSteps [stored] (.add stored) .ruleCreated
  pure stored

def replaceSteps (previous current : Rule) (reason : ChangeReason) :
    Steps Engine WriteMark ServiceError Rule := do
  .once ⟨.commit current.id, .reading previous⟩
    ((onStore (fun store => store.update current)).mapError ServiceError.store)
  followSteps [previous, current] (.replace previous current) reason
  pure current

def updateSteps (tenant : TenantId) (rule : Rule) : Steps Engine WriteMark ServiceError Rule := do
  planned .free (requireTenant tenant rule)
  let previous ← planned .free (load tenant rule.id)
  planned (.reading previous) (requireValid tenant rule)
  let now := (← planned (.reading previous) Act.state).now
  replaceSteps previous (updated previous rule now) .ruleUpdated

def decideApprovalSteps (tenant : TenantId) (id : RuleId) (approver : Principal)
    (decided : Rule → String → Instant → Rule) (reason : ChangeReason) :
    Steps Engine WriteMark ServiceError Rule := do
  let previous ← planned .free (load tenant id)
  if previous.requireApproval then
    let now := (← planned (.reading previous) Act.state).now
    replaceSteps previous (decided previous approver.id now) reason
  else planned (.reading previous) (Act.fail (.rule (.approvalNotRequired id)))

/-- Removes rules; `gone` are those that were removed before. -/
def removeSteps (tenant : TenantId) (gone : List Rule) :
    List RuleId → Steps Engine WriteMark ε (List Rule × Option StoreError)
  | [] => pure ([], none)
  | id :: rest => do
    match ← .once ⟨.commit id, .leaving gone⟩
        (onStore (fun store => store.delete tenant id)).attempt with
    | .error fault => pure ([], some fault)
    | .ok none => removeSteps tenant gone rest
    | .ok (some rule) =>
      carrySteps tenant (gone ++ [rule]) (.remove rule)
      let (removed, failure) ← removeSteps tenant (gone ++ [rule]) rest
      pure (rule :: removed, failure)

def reportSteps (removed : List Rule) (failure : Option StoreError) :
    Steps Engine WriteMark ServiceError (List RuleId) :=
  match failure with
  | some fault => planned .free (Act.fail (.store fault))
  | none => pure (removed.map Rule.id)

def deleteSteps (tenant : TenantId) (ids : List RuleId) :
    Steps Engine WriteMark ServiceError (List RuleId) := do
  let (removed, failure) ← removeSteps tenant [] ids
  if !removed.isEmpty then
    announceSteps removed tenant .rulesDeleted
    invalidateSteps removed
  reportSteps removed failure

section Run

open Steps

theorem run_carrySteps (tenant : TenantId) (left : List Rule) (owed : Owed) :
    (carrySteps tenant left owed : Steps Engine WriteMark ε Unit).run = carry tenant owed.call := by
  unfold carrySteps carry
  rw [run_bind, run_once]
  congr 1
  funext result
  cases result <;> rfl

theorem run_invalidateSteps (rules : List Rule) :
    (invalidateSteps rules : Steps Engine WriteMark ε Unit).run = invalidateEach rules := by
  induction rules with
  | nil => rfl
  | cons rule rest ih =>
    unfold invalidateSteps invalidateEach
    simp only [run_bind, run_once, ih]

theorem run_followSteps (left : List Rule) (owed : Owed) (reason : ChangeReason) :
    (followSteps left owed reason : Steps Engine WriteMark ε Unit).run = (do
      carry owed.tenant owed.call
      broadcast owed.tenant reason
      invalidateEach left) := by
  unfold followSteps
  simp only [run_bind, run_carrySteps, announceSteps, run_once, run_invalidateSteps]

theorem run_createSteps (tenant : TenantId) (rule : Rule) :
    (createSteps tenant rule).run = create tenant rule := by
  unfold createSteps create
  simp only [run_bind, planned, run_once, run_followSteps, run_pure, invalidateEach, bind_assoc,
    pure_bind]
  rfl

theorem run_replaceSteps (previous current : Rule) (reason : ChangeReason) :
    (replaceSteps previous current reason).run = replace previous current reason := by
  unfold replaceSteps replace
  simp only [run_bind, run_once, run_followSteps, run_pure, invalidateEach, bind_assoc, pure_bind]
  rfl

theorem run_updateSteps (tenant : TenantId) (rule : Rule) :
    (updateSteps tenant rule).run = update tenant rule := by
  unfold updateSteps update
  simp only [run_bind, planned, run_once, run_replaceSteps]

theorem run_decideApprovalSteps (tenant : TenantId) (id : RuleId) (approver : Principal)
    (decided : Rule → String → Instant → Rule) (reason : ChangeReason) :
    (decideApprovalSteps tenant id approver decided reason).run =
      decideApproval tenant id approver decided reason := by
  unfold decideApprovalSteps decideApproval
  simp only [run_bind, planned, run_once, run_ite, run_replaceSteps]

theorem run_removeSteps (tenant : TenantId) (gone : List Rule) (ids : List RuleId) :
    (removeSteps tenant gone ids : Steps Engine WriteMark ε _).run = removeEach tenant ids := by
  induction ids generalizing gone with
  | nil => rfl
  | cons id rest ih =>
    unfold removeSteps removeEach
    rw [run_bind, run_once]
    congr 1
    funext result
    match result with
    | .error fault => rfl
    | .ok none => exact ih gone
    | .ok (some rule) =>
      simp only [run_bind, run_carrySteps, ih, run_pure]
      rfl

theorem run_deleteSteps (tenant : TenantId) (ids : List RuleId) :
    (deleteSteps tenant ids).run = delete tenant ids := by
  unfold deleteSteps delete
  rw [run_bind, run_removeSteps]
  congr 1
  funext result
  obtain ⟨removed, failure⟩ := result
  cases removed with
  | nil => cases failure <;> rfl
  | cons rule rest =>
    dsimp only
    simp only [List.isEmpty_cons, Bool.not_false, if_true, run_bind, announceSteps, run_once,
      run_invalidateSteps]
    cases failure <;> rfl

end Run

end Engine

/-- The commands that write rules one by one, in steps. -/
inductive Write where
  | create (tenant : TenantId) (rule : Rule)
  | update (tenant : TenantId) (rule : Rule)
  | delete (tenant : TenantId) (ids : List RuleId)
  | approve (tenant : TenantId) (id : RuleId) (approver : Principal)
  | reject (tenant : TenantId) (id : RuleId) (approver : Principal)

namespace Write

def tenant : Write → TenantId
  | create tenant _ | update tenant _ | delete tenant _ | approve tenant _ _
  | reject tenant _ _ => tenant

def command : Write → Command
  | create tenant rule => .create tenant rule
  | update tenant rule => .update tenant rule
  | delete tenant ids => .delete tenant ids
  | approve tenant id approver => .approve tenant id approver
  | reject tenant id approver => .reject tenant id approver

/-- The calendar has an instant after the window of a submitted rule. -/
def Closes : Write → Prop
  | create _ rule | update _ rule => rule.closes
  | _ => True

/-- The steps, whatever is answered in the end. -/
def steps : Write → Steps Engine WriteMark ServiceError Unit
  | create tenant rule => Engine.createSteps tenant rule >>= fun _ => pure ()
  | update tenant rule => Engine.updateSteps tenant rule >>= fun _ => pure ()
  | delete tenant ids => Engine.deleteSteps tenant ids >>= fun _ => pure ()
  | approve tenant id approver =>
    Engine.decideApprovalSteps tenant id approver Rule.approve .ruleApproved >>= fun _ => pure ()
  | reject tenant id approver =>
    Engine.decideApprovalSteps tenant id approver Rule.reject .ruleRejected >>= fun _ => pure ()

theorem forget_apply {σ ε α : Type} (action : Act σ ε α) (state : σ) :
    ((action >>= fun _ => pure () : Act σ ε Unit) state).2 = (action state).2 := by
  rw [Act.bind_apply]
  generalize action state = result
  obtain ⟨outcome, final⟩ := result
  cases outcome <;> rfl

/-- Without others the steps lead where the command leads. -/
theorem run_steps (write : Write) (engine : Engine) :
    (write.steps.run engine).2 = write.command.perform engine := by
  cases write with
  | create tenant rule =>
    unfold steps
    rw [Steps.run_bind, Engine.run_createSteps]
    exact forget_apply _ engine
  | update tenant rule =>
    unfold steps
    rw [Steps.run_bind, Engine.run_updateSteps]
    exact forget_apply _ engine
  | delete tenant ids =>
    unfold steps
    rw [Steps.run_bind, Engine.run_deleteSteps]
    exact forget_apply _ engine
  | approve tenant id approver =>
    unfold steps
    rw [Steps.run_bind, Engine.run_decideApprovalSteps]
    exact forget_apply _ engine
  | reject tenant id approver =>
    unfold steps
    rw [Steps.run_bind, Engine.run_decideApprovalSteps]
    exact forget_apply _ engine

end Write

end AccessPolicy
