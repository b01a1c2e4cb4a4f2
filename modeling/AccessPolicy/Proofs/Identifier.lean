import AccessPolicy.Identifier

/-!
Identifiers are ordered by their numbers.
-/
namespace AccessPolicy

namespace RuleId

theorem lt_def (one other : RuleId) : one < other ↔ one.value < other.value := Iff.rfl

instance : Trans (α := RuleId) (· < ·) (· < ·) (· < ·) :=
  ⟨fun one two => UInt64.lt_trans one two⟩

instance : Std.Asymm (α := RuleId) (· < ·) :=
  ⟨fun _ _ before after => UInt64.lt_asymm before after⟩

instance : Std.Trichotomous (α := RuleId) (· < ·) where
  trichotomous one other notBefore notAfter := by
    cases one
    cases other
    rw [lt_def] at notBefore notAfter
    congr
    exact UInt64.le_antisymm (UInt64.not_lt.mp notAfter) (UInt64.not_lt.mp notBefore)

end RuleId

namespace TenantId

instance : Trans (α := TenantId) (· < ·) (· < ·) (· < ·) :=
  ⟨fun one two => UInt64.lt_trans one two⟩

instance : Std.Trichotomous (α := TenantId) (· < ·) where
  trichotomous one other notBefore notAfter := by
    cases one
    cases other
    congr
    exact UInt64.le_antisymm (UInt64.not_lt.mp notAfter) (UInt64.not_lt.mp notBefore)

end TenantId

end AccessPolicy
