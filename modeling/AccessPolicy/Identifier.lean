import AccessPolicy.Text.Blank
import AccessPolicy.Text.Number

/-!
Identifiers of tenants and of stored rules. Rule 0 is a rule that has not been stored yet.
-/
namespace AccessPolicy

structure TenantId where
  value : UInt64
deriving DecidableEq, Repr

structure RuleId where
  value : UInt64
deriving DecidableEq, Repr

inductive IdentifierKind where
  | tenant
  | rule
deriving DecidableEq, Repr

/-- A text that names no identifier of its kind. -/
structure IdentifierError where
  kind : IdentifierKind
  fault : Text.NumberError
deriving DecidableEq, Repr

def IdentifierError.message (error : IdentifierError) : String :=
  let name := match error.kind with
    | .tenant => "TenantId"
    | .rule => "RuleId"
  "invalid identifier: " ++ name ++ ": " ++ error.fault.message

namespace TenantId

instance : LT TenantId where
  lt one other := one.value < other.value

instance : DecidableLT TenantId := fun one other =>
  inferInstanceAs (Decidable (one.value < other.value))

def text (tenant : TenantId) : String :=
  String.ofList (Text.decimal tenant.value.toNat)

/-- Reads an identifier; blanks around the number do not count. -/
def ofText (text : String) : Except IdentifierError TenantId :=
  match Text.readNumber (Text.trim text) with
  | .ok value => .ok ⟨value⟩
  | .error fault => .error ⟨.tenant, fault⟩

end TenantId

namespace RuleId

instance : LT RuleId where
  lt one other := one.value < other.value

instance : DecidableLT RuleId := fun one other =>
  inferInstanceAs (Decidable (one.value < other.value))

def unassigned : RuleId := ⟨0⟩

def isAssigned (id : RuleId) : Bool :=
  id ≠ unassigned

def text (id : RuleId) : String :=
  String.ofList (Text.decimal id.value.toNat)

/-- Reads an identifier; blanks around the number do not count. -/
def ofText (text : String) : Except IdentifierError RuleId :=
  match Text.readNumber (Text.trim text) with
  | .ok value => .ok ⟨value⟩
  | .error fault => .error ⟨.rule, fault⟩

end RuleId

end AccessPolicy
