import AccessPolicy.Engine.Check

/-!
Deciding many requests. Each is decided by itself, and as many at the same time as the settings
allow; the answers stand in the order of the requests, whatever the order in which they are decided.
-/
namespace AccessPolicy

structure BatchResponse where
  decisions : List Decision
  successCount : Nat
  failedCount : Nat

structure BatchAnswer where
  place : Nat
  /-- When it ended, in milliseconds since the call began. -/
  finish : Nat
  result : Except CheckError Decision

namespace BatchAnswer

/-- An error is a deny that carries it. -/
def decision (answer : BatchAnswer) : Decision :=
  match answer.result with
  | .ok decision => decision
  | .error .task => Decision.deny Reason.taskFailed
  | .error fault => Decision.deny fault.message

/-- The error that came first; of those at one moment, that of the request taken up first. -/
def firstFailure? : List BatchAnswer → Option (Nat × CheckError)
  | [] => none
  | answer :: rest =>
    match answer.result, firstFailure? rest with
    | .ok _, later => later
    | .error fault, none => some (answer.finish, fault)
    | .error fault, some later =>
      if answer.finish ≤ later.1 then some (answer.finish, fault) else some later

/-- The decisions in the order of their places. -/
def inOrder (size : Nat) (answers : List BatchAnswer) : List Decision :=
  (List.range size).map (fun place =>
    ((answers.find? (fun answer => answer.place = place)).map decision).getD
      (Decision.deny Reason.taskFailed))

end BatchAnswer

namespace Engine

/-- Decides one request of a batch, from a moment on. A check that halts fails alone. -/
def batchItem (place start : Nat) (request : CheckRequest) (options : CheckOptions)
    (engine : Engine) : BatchAnswer × Engine :=
  let item : Act Engine CheckError Decision := do
    waitUntil start
    check request options false
  let (outcome, engine) := item engine
  let result := match outcome with
    | .ok decision => .ok decision
    | .error fault => .error fault
    | .halted _ => .error .task
  (⟨place, engine.timing.elapsed, result⟩, engine)

/-- Decides requests, each with its place in the batch. `free` says when those who decide are free
for the next request, which goes to the first of them. -/
def decideEach (options : CheckOptions) (free : List Nat) (engine : Engine) :
    List (Nat × CheckRequest) → List BatchAnswer × Engine
  | [] => ([], engine)
  | (place, request) :: rest =>
    let start := (Ascending.least? free).getD 0
    let (answer, engine) := batchItem place start request options engine
    let (others, engine) := decideEach options (answer.finish :: free.erase start) engine rest
    (answer :: others, engine)

/-- Decides the requests in the given order of places, in a call that may end early. -/
def decideInOrder (order : List Nat) (requests : List CheckRequest) (options : CheckOptions)
    (last : Option Nat) (engine : Engine) : List BatchAnswer × Engine :=
  let width := min engine.own.settings.batchConcurrency requests.length
  let places := order.filterMap (fun place =>
    requests[place]?.map (fun request => (place, request)))
  let (answers, after) := decideEach options (List.replicate width engine.timing.elapsed)
    (engine.withTiming { engine.timing with last := last }) places
  (answers, after.withTiming engine.timing)

/-- Decides the requests in the given order of places. With `failFast` the first error is the
answer, and it ends the call. -/
def batchInOrder (order : List Nat) (requests : List CheckRequest) (options : CheckOptions)
    (failFast : Bool) : Act Engine CheckError (List Decision) := fun engine =>
  let (answers, after) := decideInOrder order requests options none engine
  match BatchAnswer.firstFailure? answers with
  | some (finish, fault) =>
    if failFast then
      (.error fault, (decideInOrder order requests options (some finish) engine).2)
    else (.ok (BatchAnswer.inOrder requests.length answers), after)
  | none => (.ok (BatchAnswer.inOrder requests.length answers), after)

def widest : Nat := UInt64.size / 8 - 1

/-- Decides every request; with `failFast` the first error is the answer. -/
def batch (requests : List CheckRequest) (options : CheckOptions) (failFast : Bool) :
    Act Engine CheckError (List Decision) := do
  let engine ← Act.state
  if widest < engine.own.settings.batchConcurrency then Act.halt .tooWide
  else batchInOrder (List.range requests.length) requests options failFast

/-- Answers many questions. The cache is used if all of them allow it, and all are audited if one
asks for it; roles are not expanded. -/
def batchPermission (tenant : TenantId) (caller : Principal) (queries : List PermissionQuery)
    (failFast : Bool) : Act Engine CheckError BatchResponse := do
  let options : CheckOptions :=
    { useCache := queries.all (·.useCache), audit := queries.any (·.audit) }
  let decisions ← batch (queries.map (·.toRequest tenant caller)) options failFast
  let allowed := (decisions.filter (·.allowed)).length
  pure ⟨decisions, allowed, decisions.length - allowed⟩

end Engine

end AccessPolicy
