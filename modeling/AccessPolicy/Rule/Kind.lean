import AccessPolicy.Rule

/-!
The typed reading of a rule: a permission, or the membership of a name in a group.
-/
namespace AccessPolicy

structure Permission where
  subject : String
  object : String
  action : String
  effect : Effect
deriving DecidableEq, Repr

/-- Whose members a grouping speaks of: subjects in roles, or the names of another relation. -/
inductive Relation where
  | role
  | named (name : String)
deriving DecidableEq, Repr

def Relation.name : Relation → String
  | .role => "g"
  | .named name => name

structure Grouping where
  relation : Relation
  member : String
  group : String
deriving DecidableEq, Repr

inductive RuleKind where
  | permission (permission : Permission)
  | grouping (grouping : Grouping)
deriving DecidableEq, Repr

namespace RuleKind

/-- The subject whose decisions change when the rule changes: of a grouping, the member. -/
def affectedSubject : RuleKind → String
  | .permission granted => granted.subject
  | .grouping link => link.member

def isPermission : RuleKind → Bool
  | .permission _ => true
  | .grouping _ => false

end RuleKind

/-- Type names of groupings: `g` or `grouping` for roles, `g` and digits for a named relation. -/
def Relation.ofTypeName? (ptype : String) : Option Relation :=
  if ptype = "g" ∨ ptype = "grouping" then some .role
  else match ptype.toList with
    | 'g' :: digits =>
      if digits ≠ [] ∧ digits.all Text.isDigit then some (.named ptype) else none
    | _ => none

def isPermissionType (ptype : String) : Bool :=
  ptype = "p" || ptype = "permission"

/-- Reads the fields of a rule; a permission without an effect allows. -/
def Rule.kind (rule : Rule) : Except RuleError RuleKind :=
  if isPermissionType rule.ptype then
    match if rule.v3 = "" then .ok .allow else Effect.ofText rule.v3 with
    | .ok effect => .ok (.permission ⟨rule.v0, rule.v1, rule.v2, effect⟩)
    | .error fault => .error fault
  else match Relation.ofTypeName? rule.ptype with
    | some relation => .ok (.grouping ⟨relation, rule.v0, rule.v1⟩)
    | none => .error (.unknownKind rule.ptype)

end AccessPolicy
