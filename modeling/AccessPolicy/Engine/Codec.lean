import AccessPolicy.Decision.Codec
import AccessPolicy.Engine.Batch
import AccessPolicy.Engine.Maintenance
import AccessPolicy.Evaluator.Codec

/-!
What an engine is asked and what it answers, as JSON.
-/
namespace AccessPolicy

namespace PermissionQuery

def fieldNames : List String :=
  ["service", "subject", "object", "action", "context", "enable_cache", "audit_log",
    "expand_roles"]

def ofJson? (json : Json) : Option PermissionQuery := do
  let record ← Json.Record.ofJson? fieldNames json
  pure {
    service := ← record.required "service" Json.string?
    subject := ← record.required "subject" Json.string?
    object := ← record.required "object" Json.string?
    action := ← record.required "action" Json.string?
    context := ← record.defaulted "context" (Json.table? Json.string?) []
    useCache := ← record.defaulted "enable_cache" Json.bool? true
    audit := ← record.defaulted "audit_log" Json.bool? false
    expandRoles := ← record.defaulted "expand_roles" Json.bool? false }

end PermissionQuery

/-- A decision as an answer to a question: how it came about and how long it took stay out. -/
def Decision.toAnswerJson (decision : Decision) : Json :=
  .obj [
    ("allowed", .bool decision.allowed),
    ("reason", .str decision.reason),
    ("applied_rules", Json.ofStrings decision.appliedRules),
    ("data_filters", .obj decision.dataFilters),
    ("field_masks", Json.ofStrings decision.fieldMasks),
    ("from_cache", .bool decision.fromCache)]

def BatchResponse.toJson (response : BatchResponse) : Json :=
  .obj [
    ("responses", .arr (response.decisions.map Decision.toAnswerJson)),
    ("success_count", Json.ofNat response.successCount),
    ("failed_count", Json.ofNat response.failedCount)]

def ValidationReport.toJson (report : ValidationReport) : Json :=
  .obj [
    ("valid", .bool report.valid),
    ("errors", Json.ofStrings (report.errors.map ValidationError.message)),
    ("warnings", Json.ofStrings (report.warnings.map ValidationWarning.message)),
    ("conflicting_rule_ids", Json.ofRuleIds report.conflicts)]

def ExpiryReport.toJson (report : ExpiryReport) : Json :=
  .obj [
    ("expired_rule_ids", Json.ofRuleIds report.expired),
    ("tenants", .arr (report.tenants.map TenantId.toJson))]

def SyncReport.toJson (report : SyncReport) : Json :=
  .obj [
    ("synced_count", Json.ofNat report.count),
    ("synced_services", Json.ofStrings report.services)]

def CacheType.ofJson? (json : Json) : Option CacheType :=
  (Json.caseName? json).bind CacheType.ofText?

def RefreshReport.toJson (report : RefreshReport) : Json :=
  .obj [
    ("success", .bool report.success),
    ("message", .str report.message),
    ("cleared_entries", Json.ofNat report.cleared)]

def PermissionEntry.toJson (entry : PermissionEntry) : Json :=
  .obj [
    ("service", .str entry.service),
    ("resource", .str entry.resource),
    ("actions", Json.ofStrings entry.actions),
    ("effect", .str entry.effect.text),
    ("source", .str entry.source),
    ("rule_id", entry.ruleId.toJson)]

/-- The summary of a user's permissions. -/
def PermissionEntry.summaryJson (entries : List PermissionEntry) : Json :=
  .obj [
    ("permissions", .arr (entries.map toJson)),
    ("total_count", Json.ofNat entries.length)]

end AccessPolicy
