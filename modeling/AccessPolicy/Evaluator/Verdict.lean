import AccessPolicy.Evaluator

/-!
Deciding a request: a matching deny forbids whatever is allowed, and without a matching allow
nothing is.
-/
namespace AccessPolicy

/-- The answer to a request, with the rules that decided it. -/
structure Evaluation where
  allowed : Bool
  explicitDeny : Bool
  /-- The denying rules if there are any, else the allowing ones; ascending. -/
  matchedRules : List RuleId
  /-- The first role, by name, that allows when the subject itself does not. -/
  grantedVia : Option String
  /-- When the evaluator may stop being exact. -/
  validUntil : Option Instant
deriving DecidableEq

def Grant.coversService (grant : Grant) (service : String) : Bool :=
  grant.service = service || grant.service = "*"

def Grant.coversAction (grant : Grant) (action : String) : Bool :=
  grant.action = action || grant.action = "*"

/-- The object itself, by name or pattern, or one of the groups it is in. -/
def Grant.coversObject (grant : Grant) (object : String) (groups : List String) : Bool :=
  grant.object = "*" || ObjectPattern.accepts grant.object object || groups.contains grant.object

/-- Whether a grant speaks of a request, for subjects and object groups. -/
def Grant.covers (grant : Grant) (subjects : List String) (service object : String)
    (groups : List String) (action : String) : Bool :=
  subjects.contains grant.subject && grant.coversService service &&
    grant.coversObject object groups && grant.coversAction action

namespace Evaluator

/-- The grants that speak of a request, with their rules. -/
def matching (evaluator : Evaluator) (subject service object action : String) :
    List (Grant × RuleId) :=
  let subjects := subject :: evaluator.rolesOf subject
  let groups := evaluator.groupsOf object
  evaluator.grants.filter (fun entry => entry.1.covers subjects service object groups action)

/-- The grants of one effect among those that speak of a request. -/
def ofEffect (effect : Effect) (entries : List (Grant × RuleId)) : List (Grant × RuleId) :=
  entries.filter (·.1.effect = effect)

def ruleIds (entries : List (Grant × RuleId)) : List RuleId :=
  Ascending.ofList (entries.map Prod.snd)

def enforce (evaluator : Evaluator) (subject service object action : String) : Evaluation :=
  let entries := evaluator.matching subject service object action
  let denies := ofEffect .deny entries
  let allows := ofEffect .allow entries
  if denies ≠ [] then ⟨false, true, ruleIds denies, none, evaluator.nextTransition⟩
  else if allows = [] then ⟨false, false, [], none, evaluator.nextTransition⟩
  else
    let holders := allows.map (·.1.subject)
    let role := if subject ∈ holders then none else Ascending.least? holders
    ⟨true, false, ruleIds allows, role, evaluator.nextTransition⟩

end Evaluator

end AccessPolicy
