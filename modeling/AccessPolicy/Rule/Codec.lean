import AccessPolicy.Json.Embedded
import AccessPolicy.Json.Record
import AccessPolicy.Instant.Codec
import AccessPolicy.Rule.Gate
import AccessPolicy.Rule.Kind

/-!
Rules and their parts as JSON.
-/
namespace AccessPolicy

def TenantId.toJson (tenant : TenantId) : Json :=
  Json.ofWord tenant.value

def TenantId.ofJson? (json : Json) : Option TenantId :=
  (Json.word? json).map TenantId.mk

def RuleId.toJson (id : RuleId) : Json :=
  Json.ofWord id.value

def RuleId.ofJson? (json : Json) : Option RuleId :=
  (Json.word? json).map RuleId.mk

def Effect.ofJson? (json : Json) : Option Effect :=
  (Json.caseName? json).bind (fun name => (Effect.ofText name).toOption)

def RuleStatus.ofJson? (json : Json) : Option RuleStatus :=
  (Json.caseName? json).bind (fun name => (RuleStatus.ofText name).toOption)

def ApprovalStatus.ofJson? (json : Json) : Option ApprovalStatus :=
  (Json.caseName? json).bind (fun name => (ApprovalStatus.ofText name).toOption)

def Relation.toJson : Relation → Json
  | .role => .str "Role"
  | .named name => .obj [("Named", .str name)]

def RuleKind.toJson : RuleKind → Json
  | .permission granted => .obj [("Permission", .obj [
      ("subject", .str granted.subject), ("object", .str granted.object),
      ("action", .str granted.action), ("effect", .str granted.effect.text)])]
  | .grouping link => .obj [("Grouping", .obj [
      ("relation", link.relation.toJson), ("member", .str link.member),
      ("group", .str link.group)])]

namespace Rule

def fieldNames : List String :=
  ["id", "tenant_id", "service_name", "ptype", "v0", "v1", "v2", "v3", "v4", "v5", "status",
    "category", "description", "tags", "metadata", "usage_count", "last_used_at",
    "require_approval", "approval_status", "approved_by", "approved_at", "effective_from",
    "effective_to", "is_temporary", "created_at", "updated_at"]

def toJson (rule : Rule) : Json :=
  .obj [
    ("id", rule.id.toJson),
    ("tenant_id", rule.tenant.toJson),
    ("service_name", .str rule.service),
    ("ptype", .str rule.ptype),
    ("v0", .str rule.v0),
    ("v1", .str rule.v1),
    ("v2", .str rule.v2),
    ("v3", .str rule.v3),
    ("v4", .str rule.v4),
    ("v5", .str rule.v5),
    ("status", .str rule.status.text),
    ("category", Json.ofOption .str rule.category),
    ("description", Json.ofOption .str rule.description),
    ("tags", Json.ofStrings rule.tags),
    ("metadata", rule.metadata),
    ("usage_count", Json.ofWord rule.usageCount),
    ("last_used_at", Json.ofOption Instant.toJson rule.lastUsedAt),
    ("require_approval", .bool rule.requireApproval),
    ("approval_status", .str rule.approvalStatus.text),
    ("approved_by", Json.ofOption .str rule.approvedBy),
    ("approved_at", Json.ofOption Instant.toJson rule.approvedAt),
    ("effective_from", Json.ofOption Instant.toJson rule.effectiveFrom),
    ("effective_to", Json.ofOption Instant.toJson rule.effectiveTo),
    ("is_temporary", .bool rule.isTemporary),
    ("created_at", rule.createdAt.toJson),
    ("updated_at", rule.updatedAt.toJson)]

def ofJson? (json : Json) : Option Rule := do
  let record ← Json.Record.ofJson? fieldNames json
  pure {
    id := ← record.required "id" RuleId.ofJson?
    tenant := ← record.required "tenant_id" TenantId.ofJson?
    service := ← record.required "service_name" Json.string?
    ptype := ← record.required "ptype" Json.string?
    v0 := ← record.required "v0" Json.string?
    v1 := ← record.required "v1" Json.string?
    v2 := ← record.required "v2" Json.string?
    v3 := ← record.required "v3" Json.string?
    v4 := ← record.required "v4" Json.string?
    v5 := ← record.required "v5" Json.string?
    status := ← record.required "status" RuleStatus.ofJson?
    category := ← record.nullable "category" Json.string?
    description := ← record.nullable "description" Json.string?
    tags := ← record.required "tags" (Json.list? Json.string?)
    metadata := ← record.required "metadata" Json.free?
    usageCount := ← record.required "usage_count" Json.word?
    lastUsedAt := ← record.nullable "last_used_at" Instant.ofJson?
    requireApproval := ← record.required "require_approval" Json.bool?
    approvalStatus := ← record.required "approval_status" ApprovalStatus.ofJson?
    approvedBy := ← record.nullable "approved_by" Json.string?
    approvedAt := ← record.nullable "approved_at" Instant.ofJson?
    effectiveFrom := ← record.nullable "effective_from" Instant.ofJson?
    effectiveTo := ← record.nullable "effective_to" Instant.ofJson?
    isTemporary := ← record.required "is_temporary" Json.bool?
    createdAt := ← record.required "created_at" Instant.ofJson?
    updatedAt := ← record.required "updated_at" Instant.ofJson? }

end Rule

end AccessPolicy
