import AccessPolicy.Evaluator.Listing
import AccessPolicy.Evaluator.Verdict
import AccessPolicy.Rule.Codec

/-!
What an evaluator answers, as JSON.
-/
namespace AccessPolicy

def Json.ofRuleIds (ids : List RuleId) : Json :=
  .arr (ids.map RuleId.toJson)

def Evaluation.toJson (evaluation : Evaluation) : Json :=
  .obj [
    ("allowed", .bool evaluation.allowed),
    ("explicit_deny", .bool evaluation.explicitDeny),
    ("matched_rules", Json.ofRuleIds evaluation.matchedRules),
    ("granted_via", Json.ofOption .str evaluation.grantedVia),
    ("valid_until", Json.ofOption Instant.toJson evaluation.validUntil)]

def GrantedPermission.toJson (permission : GrantedPermission) : Json :=
  .obj [
    ("service", .str permission.service),
    ("object", .str permission.object),
    ("action", .str permission.action),
    ("effect", .str permission.effect.text),
    ("source", .str permission.source),
    ("rule_ids", Json.ofRuleIds permission.ruleIds)]

end AccessPolicy
