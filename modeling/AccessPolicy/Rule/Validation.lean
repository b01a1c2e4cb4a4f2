import AccessPolicy.Ascending
import AccessPolicy.ObjectPattern
import AccessPolicy.Rule.Gate
import AccessPolicy.Rule.Kind

/-!
Checking a rule before it is stored. Errors make a rule invalid; warnings, conflicts with other
rules among them, do not.
-/
namespace AccessPolicy

inductive PermissionField where
  | subject
  | object
  | action
deriving DecidableEq, Repr

inductive ValidationError where
  | emptyService
  | badEffect (text : String)
  | unknownKind (ptype : String)
  | emptyField (field : PermissionField)
  | objectPattern (problem : PatternProblem)
  | undefinedRelation (name : String)
  | emptyGrouping
  | selfMembership
  | emptyWindow
deriving DecidableEq, Repr

inductive ValidationWarning where
  | noApprover
  | alreadyExpired
  | neverExpires
  | duplicate (other : RuleId)
  | opposed (other : RuleId) (mine theirs : Effect)
deriving DecidableEq, Repr

def PermissionField.text : PermissionField → String
  | .subject => "subject"
  | .object => "object"
  | .action => "action"

def ValidationError.message : ValidationError → String
  | .emptyService => "service scope must not be empty"
  | .badEffect text => (RuleError.badEffect text).reason
  | .unknownKind ptype => (RuleError.unknownKind ptype).reason
  | .emptyField field => "permission " ++ field.text ++ " must not be empty"
  | .objectPattern problem => problem.message
  | .undefinedRelation name => "grouping relation \"" ++ name ++ "\" is not defined"
  | .emptyGrouping => "grouping member and group must not be empty"
  | .selfMembership => "a subject cannot be a member of itself"
  | .emptyWindow => "effective_from must be earlier than effective_to"

def ValidationWarning.message : ValidationWarning → String
  | .noApprover => "rule is approved but has no approver"
  | .alreadyExpired => "rule is already expired"
  | .neverExpires => "temporary rule has no effective_to and will never expire"
  | .duplicate other => "duplicates rule " ++ other.text
  | .opposed other mine theirs =>
    "conflicts with rule " ++ other.text ++ " (" ++ mine.text ++ " vs " ++ theirs.text ++ ")"

structure ValidationReport where
  errors : List ValidationError
  warnings : List ValidationWarning
  conflicts : List RuleId
deriving DecidableEq, Repr

def ValidationReport.valid (report : ValidationReport) : Bool :=
  report.errors.isEmpty

def ValidationReport.hasConflicts (report : ValidationReport) : Bool :=
  !report.conflicts.isEmpty

/-- A validator knows the names of the relations that groupings may belong to. -/
structure Validator where
  relations : List String
deriving DecidableEq, Repr

namespace Validator

def standard : Validator := ⟨["g", "g2"]⟩

def serviceErrors (rule : Rule) : List ValidationError :=
  if Text.isBlankText rule.service then [.emptyService] else []

/-- A bad effect is reported as such, any other unreadable rule by its type name. -/
def kindErrors (rule : Rule) : List ValidationError :=
  match rule.kind with
  | .ok _ => []
  | .error (.badEffect text) => [.badEffect text]
  | .error _ => [.unknownKind rule.ptype]

def permissionErrors (permission : Permission) : List ValidationError :=
  [(PermissionField.subject, permission.subject), (.object, permission.object),
    (.action, permission.action)].filterMap
      (fun (field, text) => if Text.isBlankText text then some (.emptyField field) else none) ++
    ((ObjectPattern.problem? permission.object).map ValidationError.objectPattern).toList

def groupingErrors (validator : Validator) (grouping : Grouping) : List ValidationError :=
  (if grouping.relation.name ∈ validator.relations then []
    else [.undefinedRelation grouping.relation.name]) ++
  (if Text.isBlankText grouping.member ∨ Text.isBlankText grouping.group then [.emptyGrouping]
    else if grouping.member = grouping.group then [.selfMembership]
    else [])

def contentErrors (validator : Validator) (rule : Rule) : List ValidationError :=
  match rule.kind with
  | .ok (.permission permission) => permissionErrors permission
  | .ok (.grouping grouping) => validator.groupingErrors grouping
  | .error _ => []

def windowErrors (rule : Rule) : List ValidationError :=
  match rule.effectiveFrom, rule.effectiveTo with
  | some first, some last => if first < last then [] else [.emptyWindow]
  | _, _ => []

def errors (validator : Validator) (rule : Rule) : List ValidationError :=
  serviceErrors rule ++ kindErrors rule ++ validator.contentErrors rule ++ windowErrors rule

def stateWarnings (rule : Rule) (now : Instant) : List ValidationWarning :=
  (if rule.approvalStatus = .approved ∧ rule.approvedBy.isNone then [.noApprover] else []) ++
  (if rule.isAfterWindow now then [.alreadyExpired] else []) ++
  (if rule.isTemporary ∧ rule.effectiveTo.isNone then [.neverExpires] else [])

/-- How another rule of the same content stands against a rule. -/
def conflictOf (kind other : RuleKind) (id : RuleId) : Option ValidationWarning :=
  match kind, other with
  | .permission mine, .permission theirs =>
    if mine.subject = theirs.subject ∧ mine.object = theirs.object ∧
        mine.action = theirs.action then
      if mine.effect = theirs.effect then some (.duplicate id)
      else some (.opposed id mine.effect theirs.effect)
    else none
  | .grouping mine, .grouping theirs => if mine = theirs then some (.duplicate id) else none
  | _, _ => none

/-- Rules that may conflict: those of the same tenant and service that count now, but for the
stored version of the rule itself. -/
def isRival (rule other : Rule) (now : Instant) : Bool :=
  !(rule.id.isAssigned && other.id = rule.id) && other.tenant = rule.tenant &&
    other.service = rule.service && other.isActive now

def conflictWith (rule : Rule) (kind : RuleKind) (now : Instant) (other : Rule) :
    Option (RuleId × ValidationWarning) :=
  if isRival rule other now then
    match other.kind with
    | .ok otherKind => (conflictOf kind otherKind other.id).map (fun warning => (other.id, warning))
    | .error _ => none
  else none

def conflicts (rule : Rule) (existing : Option (List Rule)) (now : Instant) :
    List (RuleId × ValidationWarning) :=
  match rule.kind, existing with
  | .ok kind, some others => others.filterMap (conflictWith rule kind now)
  | _, _ => []

/-- Checks a rule, and against the rules of `existing` when they are given. -/
def validate (validator : Validator) (rule : Rule) (existing : Option (List Rule))
    (now : Instant) : ValidationReport :=
  let found := conflicts rule existing now
  { errors := validator.errors rule
    warnings := stateWarnings rule now ++ found.map Prod.snd
    conflicts := found.map Prod.fst }

end Validator

end AccessPolicy
