import AccessPolicy.Hierarchy
import AccessPolicy.ObjectPattern
import AccessPolicy.Rule.Gate
import AccessPolicy.Rule.Kind
import AccessPolicy.RuleStore
import AccessPolicy.Text.Quoted

/-!
The compiled rules of one tenant: which grants and memberships hold and which rules they come from.
Several rules may compile to one grant or membership; it holds as long as one of them is there.
-/
namespace AccessPolicy

structure Grant where
  subject : String
  service : String
  object : String
  action : String
  effect : Effect
deriving DecidableEq, Repr

/-- The two relations of memberships: subjects in roles, and objects in resource groups. -/
inductive Tree where
  | roles
  | resources
deriving DecidableEq, Repr

structure Membership where
  tree : Tree
  member : String
  group : String
deriving DecidableEq, Repr

inductive Compiled where
  | grant (grant : Grant)
  | membership (membership : Membership)
deriving DecidableEq, Repr

inductive Uncompilable where
  | unreadable (fault : RuleError)
  | objectPattern (problem : PatternProblem)
  | undefinedRelation (name : String)
deriving DecidableEq, Repr

def Uncompilable.message : Uncompilable → String
  | .unreadable fault => fault.message
  | .objectPattern problem => problem.message
  | .undefinedRelation name => "grouping relation \"" ++ name ++ "\" is not defined"

inductive EvaluatorError where
  | invalidRule (id : RuleId) (reason : Uncompilable)
  /-- A membership was taken away whose names are not both known to the role graph. -/
  | unknownNames (member group : String)
  | store (fault : StoreError)
deriving DecidableEq, Repr

def EvaluatorError.message : EvaluatorError → String
  | .invalidRule id reason =>
    "rule " ++ id.text ++ " rejected by evaluator: " ++ reason.message
  | .unknownNames member group =>
    "evaluator backend error: Casbin Role Manager Error: `NotFound(" ++
      Text.quoted (member ++ " OR " ++ group) ++ ")`"
  | .store fault => fault.message

/-- The tree of a relation, by the relation's name. -/
def Relation.tree? (relation : Relation) : Option Tree :=
  if relation.name = "g" then some .roles
  else if relation.name = "g2" then some .resources
  else none

/-- What a rule compiles to. -/
def Rule.compile (rule : Rule) : Except Uncompilable Compiled :=
  match rule.kind with
  | .error fault => .error (.unreadable fault)
  | .ok (.permission held) =>
    match ObjectPattern.problem? held.object with
    | some problem => .error (.objectPattern problem)
    | none => .ok (.grant ⟨held.subject, rule.service, held.object, held.action, held.effect⟩)
  | .ok (.grouping link) =>
    match link.relation.tree? with
    | some tree => .ok (.membership ⟨tree, link.member, link.group⟩)
    | none => .error (.undefinedRelation link.relation.name)

structure Evaluator where
  tenant : TenantId
  /-- Grants with the rules that make them. -/
  grants : List (Grant × RuleId)
  memberships : List (Membership × RuleId)
  /-- The names of every membership between two different names that was ever added. -/
  knownNames : List String
  /-- The first instant at which the evaluator may no longer be exact. -/
  nextTransition : Option Instant
  builtAt : Instant

namespace Evaluator

def contains (evaluator : Evaluator) (id : RuleId) : Bool :=
  evaluator.grants.any (·.2 = id) || evaluator.memberships.any (·.2 = id)

/-- How many different grants and memberships hold. -/
def size (evaluator : Evaluator) : Nat :=
  (evaluator.grants.map Prod.fst).eraseDups.length +
    (evaluator.memberships.map Prod.fst).eraseDups.length

def isStale (evaluator : Evaluator) (now : Instant) : Bool :=
  evaluator.nextTransition.any (· ≤ now)

def addGrant (evaluator : Evaluator) (grant : Grant) (id : RuleId) : Bool × Evaluator :=
  if (grant, id) ∈ evaluator.grants then (false, evaluator)
  else (true, { evaluator with grants := evaluator.grants ++ [(grant, id)] })

/-- The names that are known once a membership is added. -/
def namesWith (names : List String) (membership : Membership) : List String :=
  if membership.member = membership.group then names
  else Ascending.insert membership.group (Ascending.insert membership.member names)

def addMembership (evaluator : Evaluator) (membership : Membership) (id : RuleId) :
    Bool × Evaluator :=
  if (membership, id) ∈ evaluator.memberships then (false, evaluator)
  else (true, { evaluator with
    memberships := evaluator.memberships ++ [(membership, id)]
    knownNames := namesWith evaluator.knownNames membership })

/-- Adds a rule; false when the rule made the same grant or membership already. -/
def insert (evaluator : Evaluator) (rule : Rule) : Except EvaluatorError Bool × Evaluator :=
  match rule.compile with
  | .error reason => (.error (.invalidRule rule.id reason), evaluator)
  | .ok (.grant grant) =>
    let (added, evaluator) := evaluator.addGrant grant rule.id
    (.ok added, evaluator)
  | .ok (.membership membership) =>
    let (added, evaluator) := evaluator.addMembership membership rule.id
    (.ok added, evaluator)

/-- Takes away what a rule made, grants first; false when it made nothing. The last rule of a
membership must leave names that the role graph knows, or the call fails after the removal. -/
def remove (evaluator : Evaluator) (rule : Rule) : Except EvaluatorError Bool × Evaluator :=
  match evaluator.grants.find? (·.2 = rule.id) with
  | some entry => (.ok true, { evaluator with grants := evaluator.grants.erase entry })
  | none =>
    match evaluator.memberships.find? (·.2 = rule.id) with
    | none => (.ok false, evaluator)
    | some entry =>
      let rest := { evaluator with memberships := evaluator.memberships.erase entry }
      let membership := entry.1
      if rest.memberships.any (·.1 = membership) ∨
          (membership.member ∈ rest.knownNames ∧ membership.group ∈ rest.knownNames) then
        (.ok true, rest)
      else (.error (.unknownNames membership.member membership.group), rest)

/-- Takes into account that a rule may start or stop to count later. -/
def track (evaluator : Evaluator) (rule : Rule) (now : Instant) : Except CalendarEnd Evaluator :=
  match rule.transition now with
  | .error stop => .error stop
  | .ok bound =>
    .ok { evaluator with nextTransition := Instant.earlier? evaluator.nextTransition bound }

def bare (tenant : TenantId) (bound : Option Instant) (now : Instant) : Evaluator :=
  ⟨tenant, [], [], [], bound, now⟩

/-- Compiles the rules of a tenant that count now, leaving out those that cannot be compiled. -/
def build (tenant : TenantId) (rules : List Rule) (now : Instant) :
    Except CalendarEnd Evaluator :=
  match AccessPolicy.nextTransition rules now with
  | .error stop => .error stop
  | .ok bound =>
    .ok ((rules.filter (fun rule => rule.tenant = tenant && rule.isActive now)).foldl
      (fun evaluator rule => (evaluator.insert rule).2) (bare tenant bound now))

def edges (evaluator : Evaluator) (tree : Tree) : List Hierarchy.Edge :=
  (evaluator.memberships.filter (·.1.tree = tree)).map
    (fun entry => (entry.1.member, entry.1.group))

/-- Every role that a subject has, over any number of memberships. -/
def rolesOf (evaluator : Evaluator) (subject : String) : List String :=
  Hierarchy.reach (evaluator.edges .roles) subject

/-- Every subject that has a role, over any number of memberships. -/
def dependentsOf (evaluator : Evaluator) (role : String) : List String :=
  Hierarchy.reach (Hierarchy.reverse (evaluator.edges .roles)) role

/-- Every resource group that an object is in. -/
def groupsOf (evaluator : Evaluator) (object : String) : List String :=
  Hierarchy.reach (evaluator.edges .resources) object

end Evaluator

end AccessPolicy
