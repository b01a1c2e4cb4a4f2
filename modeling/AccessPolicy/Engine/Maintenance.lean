import AccessPolicy.Engine.Write

/-!
Upkeep and overviews: the expiry sweep, synchronising with the store, refreshing what is kept, and
the summary of a user's permissions.
-/
namespace AccessPolicy

structure ExpiryReport where
  expired : List RuleId
  tenants : List TenantId
deriving DecidableEq, Repr

structure SyncReport where
  count : Nat
  services : List String
deriving DecidableEq, Repr

inductive CacheType where
  | rule
  | decision
  | all
deriving DecidableEq, Repr

def CacheType.text : CacheType → String
  | .rule => "rule"
  | .decision => "decision"
  | .all => "all"

def CacheType.ofText? (text : String) : Option CacheType :=
  [CacheType.rule, .decision, .all].find? (fun type => type.text = text)

structure RefreshReport where
  success : Bool
  message : String
  cleared : Nat
deriving DecidableEq, Repr

/-- The actions of one holder on one resource. -/
structure PermissionEntry where
  service : String
  resource : String
  actions : List String
  effect : Effect
  source : String
  ruleId : RuleId
deriving DecidableEq, Repr

namespace PermissionEntry

/-- What the permissions of one entry have in common, in the order of entries. -/
def groupOf (permission : GrantedPermission) : List String :=
  [if permission.source = GrantedPermission.direct then "0" else "1", permission.source,
    permission.service, permission.object, permission.effect.text]

/-- The least assigned id among the first rules of the permissions, or the unassigned one. -/
def leastRule (permissions : List GrantedPermission) : RuleId :=
  (Ascending.least? ((permissions.filterMap (·.ruleIds.head?)).filter (·.isAssigned))).getD
    .unassigned

/-- One entry for permissions of one group. -/
def ofGroup? (permissions : List GrantedPermission) : Option PermissionEntry :=
  permissions.head?.map (fun first =>
    { service := first.service
      resource := first.object
      actions := Ascending.ofList (permissions.map (·.action))
      effect := first.effect
      source := first.source
      ruleId := leastRule permissions })

/-- Permissions merged into one entry for each service, resource, effect and source. -/
def merge (permissions : List GrantedPermission) : List PermissionEntry :=
  (Ascending.ofList (permissions.map groupOf)).filterMap (fun group =>
    ofGroup? (permissions.filter (fun permission => groupOf permission = group)))

end PermissionEntry

namespace Engine

variable {ε : Type}

/-- A lapsed rule as the sweep leaves it. -/
def disabled (rule : Rule) (now : Instant) : Rule :=
  { rule with
    status := .disabled
    updatedAt := now }

/-- Disables rules one after the other and lists those that the store took. -/
def disableEach (now : Instant) : List Rule → Act Engine ε (List Rule)
  | [] => pure []
  | rule :: rest => do
    let stored ← (onStore (fun store => store.update (disabled rule now))).attempt
    let others ← disableEach now rest
    match stored with
    | .ok _ => pure (rule :: others)
    | .error _ => pure others

/-- Lets disabled rules of a tenant take effect. -/
def settleExpiry (tenant : TenantId) : Act Engine ε Unit := do
  carry tenant (reload tenant)
  broadcast tenant .rulesExpired
  let _ ← onCache (fun cache => cache.invalidateTenant tenant)

def settleExpiries : List TenantId → Act Engine ε Unit
  | [] => pure ()
  | tenant :: rest => do
    settleExpiry tenant
    settleExpiries rest

/-- Disables every temporary rule whose window has closed, of any tenant. -/
def expire : Act Engine ServiceError ExpiryReport := do
  let now := (← Act.state).now
  let candidates ← (find { RuleFilter.allTenants with
    temporary := some true
    status := some .enabled }).mapError ServiceError.store
  let expired ← disableEach now (candidates.filter (·.isLapsed now))
  let tenants := Ascending.ofList (expired.map Rule.tenant)
  settleExpiries tenants
  pure ⟨expired.map Rule.id, tenants⟩

/-- Brings the tenant's evaluator in line with the store and drops cached decisions. With `force` it
is built anew and other engines are told to do so. -/
def sync (tenant : TenantId) (service : Option String) (force : Bool) :
    Act Engine ServiceError SyncReport := do
  let reloaded ←
    if force then (reload tenant).mapError ServiceError.evaluator else pure false
  if !reloaded then
    let _ ← (evaluator tenant).mapError ServiceError.evaluator
  let now := (← Act.state).now
  let active ← (find { RuleFilter.ofTenant tenant with
    service := service
    activeAt := some now }).mapError ServiceError.store
  let _ ← onCache (fun cache => cache.invalidate tenant service)
  if force then broadcast tenant .forceSync
  pure ⟨active.length, Ascending.ofList (active.map Rule.service)⟩

def summary (tenant : TenantId) (user : String) (service : Option String) (inherited : Bool) :
    Act Engine ServiceError (List PermissionEntry) := do
  let granted ← (permissionsOf tenant user service inherited).mapError ServiceError.evaluator
  pure (PermissionEntry.merge granted)

/-- Drops cached decisions of the tenant, builds its evaluator anew, or both. A service narrows the
decisions; an evaluator is of the whole tenant. -/
def refresh (tenant : TenantId) (type : CacheType) (service : Option String) :
    Act Engine ε RefreshReport := do
  let cleared ←
    if type = .rule then pure 0 else onCache (fun cache => cache.invalidate tenant service)
  let reloaded : Except EvaluatorError Bool ←
    if type = .decision then pure (.ok false) else (reload tenant).attempt
  match reloaded with
  | .ok reloaded => pure ⟨true, type.text ++ " cache refreshed",
      if reloaded then cleared + 1 else cleared⟩
  | .error fault => pure ⟨false, "evaluator refresh failed: " ++ fault.message, cleared⟩

end Engine

end AccessPolicy
