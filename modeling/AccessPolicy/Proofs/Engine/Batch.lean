import AccessPolicy.Engine.Batch
import AccessPolicy.Proofs.Engine.Check

/-!
Batches leave the engine as right as it was, however their checks overlap and wherever one of them
is abandoned.
-/
namespace AccessPolicy.Engine

open Act hiding pure bind state

variable {ε : Type} {regime : Regime} {base engine : Engine}

/-- A check leaves the engine right, also when it is refused or halts. -/
theorem leads_check (serves : Serves regime base engine) (request : CheckRequest)
    (options : CheckOptions) (expand : Bool) :
    Leads (check request options expand) engine (fun _ => Serves regime base)
      (fun _ => Serves regime base) (Serves regime base) := by
  cases missing : request.missingField? with
  | some field =>
    rw [check_of_missing missing]
    exact leads_fail serves
  | none =>
    exact Leads.mono (yields_check serves missing options expand) (fun _ _ ends => ends.2)
      (fun _ _ impossible => impossible.elim) (fun _ ends => ends.2)

theorem Serves.batchItem (serves : Serves regime base engine) (place start : Nat)
    (request : CheckRequest) (options : CheckOptions) :
    Serves regime base (batchItem place start request options engine).2 := by
  have waited := serves.lift (yields_waitUntil (ε := CheckError) serves.attends start)
  exact Leads.settled (Leads.bind waited
    (fun _ _ ends => leads_check ends.2 request options false)
    (fun _ _ impossible => impossible.elim) (fun _ ends => ends.2))

theorem Serves.decideEach (serves : Serves regime base engine) (options : CheckOptions)
    (free : List Nat) (requests : List (Nat × CheckRequest)) :
    Serves regime base (decideEach options free engine requests).2 := by
  induction requests generalizing engine free with
  | nil => exact serves
  | cons item rest ih =>
    obtain ⟨place, request⟩ := item
    exact ih (serves.batchItem place _ request options) _

/-- A call may end early in its checks only. -/
theorem Serves.decideInOrder (serves : Serves regime base engine) (order : List Nat)
    (requests : List CheckRequest) (options : CheckOptions) (last : Option Nat) :
    Serves regime base (decideInOrder order requests options last engine).2 := by
  have inside : Serves { regime with timed := regime.timed, brief := True } base
      (engine.withTiming { engine.timing with last := last }) :=
    serves.withTiming ⟨serves.paced.deadline, fun impossible => absurd trivial impossible⟩
  exact (inside.decideEach options _ _).withTiming ⟨serves.paced.deadline, serves.paced.last⟩

theorem Serves.batchInOrder (serves : Serves regime base engine) (order : List Nat)
    (requests : List CheckRequest) (options : CheckOptions) (failFast : Bool) :
    Serves regime base (batchInOrder order requests options failFast engine).2 := by
  unfold Engine.batchInOrder
  dsimp only
  split
  · split
    · exact serves.decideInOrder ..
    · exact serves.decideInOrder ..
  · exact serves.decideInOrder ..

theorem Serves.batch (serves : Serves regime base engine) (requests : List CheckRequest)
    (options : CheckOptions) (failFast : Bool) :
    Serves regime base (batch requests options failFast engine).2 := by
  unfold Engine.batch
  rw [bind_apply, state_apply]
  dsimp only
  split
  · exact serves
  · exact serves.batchInOrder ..

theorem Serves.batchPermission (serves : Serves regime base engine) (tenant : TenantId)
    (caller : Principal) (queries : List PermissionQuery) (failFast : Bool) :
    Serves regime base (batchPermission tenant caller queries failFast engine).2 := by
  have kept := serves.batch (queries.map (·.toRequest tenant caller))
    { useCache := queries.all (·.useCache), audit := queries.any (·.audit) } failFast
  unfold Engine.batchPermission
  rw [bind_apply]
  generalize Engine.batch _ _ failFast engine = result at kept ⊢
  obtain ⟨outcome, after⟩ := result
  cases outcome <;> exact kept

end AccessPolicy.Engine
