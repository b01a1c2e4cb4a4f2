import AccessPolicy.Rule.Gate

/-!
Filters over rules. A field that is not set matches everything.
-/
namespace AccessPolicy

structure RuleFilter where
  tenant : Option TenantId := none
  service : Option String := none
  ptype : Option String := none
  /-- The first positional field: the subject of a permission or the member of a grouping. -/
  subject : Option String := none
  /-- The second positional field. -/
  object : Option String := none
  /-- The third positional field. -/
  action : Option String := none
  status : Option RuleStatus := none
  /-- Only rules that count at this instant. -/
  activeAt : Option Instant := none
  temporary : Option Bool := none

namespace RuleFilter

def ofTenant (tenant : TenantId) : RuleFilter :=
  { tenant := some tenant }

def allTenants : RuleFilter := {}

def allows {α : Type} [DecidableEq α] (expected : Option α) (actual : α) : Bool :=
  expected.all (· = actual)

def accepts (filter : RuleFilter) (rule : Rule) : Bool :=
  allows filter.tenant rule.tenant && allows filter.service rule.service &&
    allows filter.ptype rule.ptype && allows filter.subject rule.v0 &&
    allows filter.object rule.v1 && allows filter.action rule.v2 &&
    allows filter.status rule.status && allows filter.temporary rule.isTemporary &&
    filter.activeAt.all rule.isActive

end RuleFilter

end AccessPolicy
