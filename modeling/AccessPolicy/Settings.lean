import AccessPolicy.Text.Blank
import AccessPolicy.Text.Number

/-!
Settings of an engine and how the environment overrides them.
-/
namespace AccessPolicy

structure Settings where
  /-- Seconds for which a decision is cached. -/
  decisionTtl : Nat
  /-- Seconds for which a role set is cached. -/
  roleTtl : Nat
  /-- Callers with this role are not evaluated. -/
  superadminRole : String
  /-- Milliseconds that a check may take. -/
  checkTimeout : Option Nat
  /-- How many requests of one batch are evaluated at a time. -/
  batchConcurrency : Nat
  syncChannel : String
  redisUrl : Option String
deriving DecidableEq, Repr

inductive SettingsError where
  | notInteger (key : String) (fault : Text.NumberError)
  | notPositive (key : String)
  | blank (key : String)
  /-- A shared transport is asked for, and there are only those inside the process. -/
  | noSharedTransport
deriving DecidableEq, Repr

namespace Settings

def decisionTtlVariable : String := "HALBERD_DECISION_TTL_SECS"

def roleTtlVariable : String := "HALBERD_ROLE_TTL_SECS"

def checkTimeoutVariable : String := "HALBERD_CHECK_TIMEOUT_MS"

def batchConcurrencyVariable : String := "HALBERD_BATCH_CONCURRENCY"

def superadminRoleVariable : String := "HALBERD_SUPERADMIN_ROLE"

def syncChannelVariable : String := "HALBERD_SYNC_CHANNEL"

def redisUrlVariable : String := "HALBERD_REDIS_URL"

end Settings

def SettingsError.message : SettingsError → String
  | .notInteger key fault => key ++ " must be an integer: " ++ fault.message
  | .notPositive key => key ++ " must be positive"
  | .blank key => key ++ " must not be empty"
  | .noSharedTransport =>
    Settings.redisUrlVariable ++ " is set but the `redis` feature is disabled"

namespace Settings

def default : Settings where
  decisionTtl := 300
  roleTtl := 600
  superadminRole := "superadmin"
  checkTimeout := none
  batchConcurrency := 64
  syncChannel := "halberd:policy:changed"
  redisUrl := none

def withBatchConcurrency (settings : Settings) (limit : Nat) : Settings :=
  { settings with batchConcurrency := max limit 1 }

/-- The number that a variable holds, blanks around it aside. -/
def number (lookup : String → Option String) (key : String) :
    Except SettingsError (Option Nat) :=
  match lookup key with
  | none => .ok none
  | some text =>
    match Text.readNumber (Text.trim text) with
    | .ok value => .ok (some value.toNat)
    | .error fault => .error (.notInteger key fault)

/-- The trimmed text that a variable holds, which must not be blank. -/
def name (lookup : String → Option String) (key : String) :
    Except SettingsError (Option String) :=
  match lookup key with
  | none => .ok none
  | some text => if Text.isBlankText text then .error (.blank key) else .ok (some (Text.trim text))

/-- The defaults with the variables of an environment over them; the first bad one, in this order,
is the error. A timeout of zero is none, and so is a blank address. -/
def ofEnvironment (lookup : String → Option String) : Except SettingsError Settings := do
  let decisionTtl ← number lookup decisionTtlVariable
  let roleTtl ← number lookup roleTtlVariable
  let checkTimeout ← number lookup checkTimeoutVariable
  let batchConcurrency ← number lookup batchConcurrencyVariable
  if batchConcurrency = some 0 then
    throw (.notPositive batchConcurrencyVariable)
  let superadminRole ← name lookup superadminRoleVariable
  let syncChannel ← name lookup syncChannelVariable
  pure {
    decisionTtl := decisionTtl.getD default.decisionTtl
    roleTtl := roleTtl.getD default.roleTtl
    checkTimeout := checkTimeout.filter (0 < ·)
    batchConcurrency := batchConcurrency.getD default.batchConcurrency
    superadminRole := superadminRole.getD default.superadminRole
    syncChannel := syncChannel.getD default.syncChannel
    redisUrl := ((lookup redisUrlVariable).map Text.trim).filter (· ≠ "") }

def transport (settings : Settings) : Except SettingsError Unit :=
  if settings.redisUrl.isSome then .error .noSharedTransport else .ok ()

end Settings

end AccessPolicy
