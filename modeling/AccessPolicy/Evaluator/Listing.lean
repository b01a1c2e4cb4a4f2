import AccessPolicy.Evaluator

/-!
Listing what a subject is granted, directly and through its roles.
-/
namespace AccessPolicy

/-- A grant as a subject holds it. -/
structure GrantedPermission where
  service : String
  object : String
  action : String
  effect : Effect
  /-- `direct`, or the role that the grant is inherited from. -/
  source : String
  ruleIds : List RuleId
deriving DecidableEq, Repr

namespace GrantedPermission

def direct : String := "direct"

/-- Direct grants come first; then the order is by source, service, object, action and effect. -/
def rank (permission : GrantedPermission) : List String :=
  [if permission.source = direct then "0" else "1", permission.source, permission.service,
    permission.object, permission.action, permission.effect.text]

def notAfter (one other : GrantedPermission) : Bool :=
  !decide (other.rank < one.rank)

end GrantedPermission

namespace Evaluator

/-- The rules that make a grant, ascending. -/
def rulesOf (evaluator : Evaluator) (grant : Grant) : List RuleId :=
  Ascending.ofList ((evaluator.grants.filter (·.1 = grant)).map Prod.snd)

/-- The grants of one holder, for a service or for all. -/
def heldBy (evaluator : Evaluator) (holder source : String) (service : Option String) :
    List GrantedPermission :=
  ((evaluator.grants.map Prod.fst).eraseDups.filter (fun grant =>
    grant.subject = holder &&
      service.all (fun name => grant.service = name || grant.service = "*"))).map
    (fun grant => ⟨grant.service, grant.object, grant.action, grant.effect, source,
      evaluator.rulesOf grant⟩)

/-- The permissions of a subject, with those of its roles if `inherited`. -/
def permissionsOf (evaluator : Evaluator) (subject : String) (service : Option String)
    (inherited : Bool) : List GrantedPermission :=
  let roles := if inherited then evaluator.rolesOf subject else []
  (evaluator.heldBy subject GrantedPermission.direct service ++
    roles.flatMap (fun role => evaluator.heldBy role role service)).mergeSort
    GrantedPermission.notAfter

end Evaluator

end AccessPolicy
