import AccessPolicy.Change
import AccessPolicy.Instant.Codec
import AccessPolicy.Json.Record
import AccessPolicy.Rule.Codec

/-!
Changes as JSON. A reason is an object of its name and, where it has one, its detail; it may also be
read from the array of the two.
-/
namespace AccessPolicy

def Uuid.toJson (uuid : Uuid) : Json :=
  .str uuid.text

def Uuid.ofJson? : Json → Option Uuid
  | .str text => ofText? text
  | _ => none

namespace ChangeReason

def toJson : ChangeReason → Json
  | .other detail => .obj [("kind", .str "other"), ("detail", .str detail)]
  | reason => .obj [("kind", .str reason.name)]

/-- A reason without detail may be written with a null one. -/
def isNoDetail : Json → Bool
  | .null => true
  | _ => false

def ofParts? (name : String) (detail : Option Json) : Option ChangeReason :=
  if name = "other" then
    match detail with
    | some (.str text) => some (.other text)
    | _ => none
  else if detail.all isNoDetail then plain.find? (fun reason => reason.name = name)
  else none

/-- In an array the name is a string. -/
def nameOf? : Json → Json → Option String
  | .arr _ => Json.string?
  | _ => Json.caseName?

def ofJson? (json : Json) : Option ChangeReason := do
  let record ← Json.Record.ofJson? ["kind", "detail"] json
  let name ← record.required "kind" (nameOf? json)
  match record.slot "detail" with
  | .value detail => ofParts? name (some detail)
  | .missing => ofParts? name none
  | .cut => none

end ChangeReason

namespace ChangeEvent

def fieldNames : List String :=
  ["event_id", "origin", "tenant_id", "reason", "occurred_at"]

def toJson (event : ChangeEvent) : Json :=
  .obj [
    ("event_id", event.eventId.toJson),
    ("origin", event.change.origin.toJson),
    ("tenant_id", Json.ofOption TenantId.toJson event.change.tenant),
    ("reason", event.change.reason.toJson),
    ("occurred_at", event.occurredAt.toJson)]

def ofJson? (json : Json) : Option ChangeEvent := do
  let record ← Json.Record.ofJson? fieldNames json
  let eventId ← record.required "event_id" Uuid.ofJson?
  let origin ← record.required "origin" Uuid.ofJson?
  let tenant ← record.nullable "tenant_id" TenantId.ofJson?
  let reason ← record.required "reason" ChangeReason.ofJson?
  let occurredAt ← record.required "occurred_at" Instant.ofJson?
  pure ⟨eventId, ⟨origin, tenant, reason⟩, occurredAt⟩

end ChangeEvent

end AccessPolicy
