import AccessPolicy.Decision
import AccessPolicy.Instant.Codec
import AccessPolicy.Json.Embedded
import AccessPolicy.Json.Record
import AccessPolicy.Json.Tree
import AccessPolicy.Rule.Codec

/-!
Requests, decisions and audit records as JSON.
-/
namespace AccessPolicy

namespace CheckRequest

def fieldNames : List String :=
  ["tenant_id", "service", "subject", "object", "action", "caller_roles", "context"]

def ofJson? (json : Json) : Option CheckRequest := do
  let record ← Json.Record.ofJson? fieldNames json
  pure {
    tenant := ← record.required "tenant_id" TenantId.ofJson?
    service := ← record.required "service" Json.string?
    subject := ← record.required "subject" Json.string?
    object := ← record.required "object" Json.string?
    action := ← record.required "action" Json.string?
    callerRoles := ← record.defaulted "caller_roles" (Json.list? Json.string?) []
    context := ← record.defaulted "context" (Json.table? Json.string?) [] }

end CheckRequest

namespace Decision

def fieldNames : List String :=
  ["allowed", "reason", "applied_rules", "data_filters", "field_masks", "duration_ms",
    "from_cache", "explicit_deny", "granted_via"]

/-- What is read of a decision. -/
def shape : Json.Shape :=
  .record (fieldNames.map (fun name => (name, .whole)))

def toJson (decision : Decision) : Json :=
  .obj [
    ("allowed", .bool decision.allowed),
    ("reason", .str decision.reason),
    ("applied_rules", Json.ofStrings decision.appliedRules),
    ("data_filters", .obj decision.dataFilters),
    ("field_masks", Json.ofStrings decision.fieldMasks),
    ("duration_ms", Json.ofWord decision.durationMs),
    ("from_cache", .bool decision.fromCache),
    ("explicit_deny", .bool decision.explicitDeny),
    ("granted_via", Json.ofOption .str decision.grantedVia)]

def ofJson? (json : Json) : Option Decision := do
  let record ← Json.Record.ofJson? fieldNames json
  pure {
    allowed := ← record.required "allowed" Json.bool?
    reason := ← record.required "reason" Json.string?
    appliedRules := ← record.required "applied_rules" (Json.list? Json.string?)
    dataFilters := ← record.required "data_filters" (Json.table? Json.free?)
    fieldMasks := ← record.required "field_masks" (Json.list? Json.string?)
    durationMs := ← record.required "duration_ms" Json.word?
    fromCache := ← record.required "from_cache" Json.bool?
    explicitDeny := ← record.defaulted "explicit_deny" Json.bool? false
    grantedVia := ← record.defaulted "granted_via" (Json.option? Json.string?) none }

end Decision

def AuditRecord.toJson (record : AuditRecord) : Json :=
  .obj [
    ("action", .str record.action),
    ("allowed", .bool record.allowed),
    ("applied_rules", Json.ofStrings record.appliedRules),
    ("at", record.recordedAt.toJson),
    ("from_cache", .bool record.fromCache),
    ("object", .str record.object),
    ("reason", .str record.reason),
    ("service", .str record.service),
    ("subject", .str record.subject),
    ("tenant_id", record.tenant.toJson)]

end AccessPolicy
