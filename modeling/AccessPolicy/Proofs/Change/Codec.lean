import AccessPolicy.Change.Codec
import AccessPolicy.Proofs.Instant.Order
import AccessPolicy.Proofs.Rule.Codec
import AccessPolicy.Proofs.Uuid
import AccessPolicy.Rule.Draft

/-!
Changes as JSON text. A change is read back as it was written, whatever its reason says. With it, what is
carried of rules: all that is free of embedded and of too deeply nested metadata.
-/
namespace AccessPolicy

theorem TenantId.isPlain_toJson (tenant : TenantId) : Json.isPlain tenant.toJson := by
  rw [toJson]
  exact Json.isPlain_ofWord tenant.value

theorem Uuid.ofJson?_toJson (uuid : Uuid) : ofJson? uuid.toJson = some uuid :=
  ofText?_text uuid

namespace ChangeReason

theorem ofJson?_toJson (reason : ChangeReason) : ofJson? reason.toJson = some reason := by
  cases reason with
  | other detail =>
    simp [ofJson?, toJson, Json.Record.ofJson?, Json.Record.named?, Json.Record.slotOf?,
      Json.Record.required, Json.Record.slot, nameOf?, Json.caseName?, ofParts?]
  | ruleCreated | ruleUpdated | rulesDeleted | ruleApproved | ruleRejected | rulesExpired | forceSync =>
    rfl

/-- What is read of a reason's text. -/
def shape : Json.Shape :=
  .record (["kind", "detail"].map fun name => (name, .whole))

theorem isPlain_toJson (reason : ChangeReason) : Json.isPlain reason.toJson := by
  cases reason <;> rfl

theorem read?_toJson (reason : ChangeReason) (depth : Nat) :
    (Json.tree reason.toJson).read? (depth + 1) shape = some reason.toJson := by
  cases reason <;>
    simp [toJson, shape, Json.tree, Json.memberTrees, Json.Tree.read?, Json.Tree.readMembers?,
      Json.Shape.member?]

end ChangeReason

namespace ChangeEvent

/-- What is read of a change's text. -/
def shape : Json.Shape :=
  .record [("event_id", .whole), ("origin", .whole), ("tenant_id", .whole),
    ("reason", ChangeReason.shape), ("occurred_at", .whole)]

def text (event : ChangeEvent) : String :=
  event.toJson.render

def ofText? (text : String) : Option ChangeEvent :=
  (Json.parseAs? shape text).bind ofJson?

theorem ofJson?_toJson (event : ChangeEvent) : ofJson? event.toJson = some event := by
  have tenants := Json.option?_ofOption TenantId.ofJson?_toJson
    (by simp [TenantId.toJson, Json.ofWord])
  simp [ofJson?, toJson, fieldNames, Json.Record.ofJson?, Json.Record.named?, Json.Record.slotOf?,
    Json.Record.required, Json.Record.nullable_eq, Json.Record.slot, tenants, Uuid.ofJson?_toJson,
    ChangeReason.ofJson?_toJson, Instant.ofJson?_toJson]

theorem isPlain_toJson (event : ChangeEvent) : Json.isPlain event.toJson := by
  have tenant := Json.isPlain_ofOption TenantId.isPlain_toJson event.change.tenant
  simp [toJson, Json.isPlain, Json.havePlain, tenant, ChangeReason.isPlain_toJson, Uuid.toJson,
    Instant.toJson]

theorem parseAs?_text (event : ChangeEvent) : Json.parseAs? shape event.text = some event.toJson := by
  rw [Json.parseAs?, text, Json.ofText?_render (isPlain_toJson event), Option.bind_some, toJson]
  apply Json.Tree.read?_record_of_members
  simp only [List.forall_mem_cons]
  refine ⟨⟨_, rfl, rfl⟩, ⟨_, rfl, rfl⟩, ⟨_, rfl, ?_⟩, ⟨_, rfl, ?_⟩, ⟨_, rfl, rfl⟩, ?_⟩
  · cases event.change.tenant <;> rfl
  · exact ChangeReason.read?_toJson event.change.reason _
  · exact fun _ none_left => absurd none_left List.not_mem_nil

theorem ofText?_text (event : ChangeEvent) : ofText? event.text = some event := by
  rw [ofText?, parseAs?_text, Option.bind_some, ofJson?_toJson]

end ChangeEvent

/-- A rule is read back from JSON exactly if no object of its metadata stands for another value, and from
text if they are also not nested too deep. A change is always read back. No two rules are written alike,
and no two changes. -/
theorem carried_as_json {rule : Rule} (free : rule.metadata.FreeForm) (event : ChangeEvent) :
    (Rule.ofJson? rule.toJson = some rule ↔ rule.metadata.Settled) ∧
    (Rule.ofText? rule.text = some rule ↔
      rule.metadata.Settled ∧ rule.metadata.height < Json.depthLimit) ∧
    (∀ other : Rule, other.metadata.FreeForm → other.text = rule.text → other = rule) ∧
    ChangeEvent.ofText? event.text = some event ∧
    ∀ other : ChangeEvent, other.text = event.text → other = event := by
  refine ⟨Rule.ofJson?_toJson_eq_some_iff free.kept, Rule.ofText?_text_eq_some_iff free, ?_,
    ChangeEvent.ofText?_text event, ?_⟩
  · exact fun other free_other same => Rule.text_injective free_other.plain free.plain same
  · intro other same
    have read := ChangeEvent.ofText?_text other
    rw [same, ChangeEvent.ofText?_text, Option.some.injEq] at read
    exact read.symm

section Described

/-- Ann may read documents, with something noted about it. -/
def annMayRead (metadata : Json) : Rule :=
  { Rule.ofPermission ⟨7⟩ "cms" ⟨"ann", "/docs/*", "read", .allow⟩ .epoch with metadata := metadata }

/-- Somebody's shelves. -/
def shelved : Json :=
  .obj [("shelves", .arr [.int (-3), .str "bob", .null])]

/-- A change in the last second of 2016, a leap second. -/
def movedAtMidnight : ChangeEvent :=
  ⟨⟨1⟩, ⟨⟨2⟩, some ⟨7⟩, .other "moved"⟩, ⟨1483228799, 1500000000, by decide, by decide, by decide⟩⟩

theorem carried_as_json_of_shelved :
    shelved.FreeForm ∧ Rule.ofText? (annMayRead shelved).text = some (annMayRead shelved) ∧
      ChangeEvent.ofText? movedAtMidnight.text = some movedAtMidnight := by
  have free : (annMayRead shelved).metadata.FreeForm := ⟨by decide, rfl⟩
  have settled : shelved.Settled := by
    simp [shelved, Json.Settled, Json.SettledMembers, Json.SettledItems, Table.Ordered, Table.keys,
      Json.isEmbedding, Json.embeddedKey]
  obtain ⟨_, carried, _, told, _⟩ := carried_as_json free movedAtMidnight
  exact ⟨free, carried.mpr ⟨settled, by decide⟩, told⟩

/-- Nothing in so many arrays. -/
def boxed : Nat → Json
  | 0 => .null
  | depth + 1 => .arr [boxed depth]

theorem height_boxed (depth : Nat) : (boxed depth).height = depth := by
  induction depth with
  | zero => rfl
  | succ depth ih => simp [boxed, Json.height, Json.tallest, ih]

theorem freeForm_boxed (depth : Nat) : (boxed depth).FreeForm := by
  induction depth with
  | zero => exact ⟨rfl, rfl⟩
  | succ depth ih =>
    refine ⟨?_, ?_⟩
    · simp [boxed, Json.isPlain, Json.arePlain, ih.plain]
    · simp [boxed, Json.canonical, Json.canonicalItems, ih.kept]

/-- An object that stands for another value, but for what follows. -/
def embedding : Json :=
  .obj [(Json.embeddedKey, .str "1"), ("a", .int 0)]

/-- A rule is not read back when an object of its metadata begins with the key of embedded values, or when
they are nested too deep. -/
theorem metadata_not_carried :
    (embedding.FreeForm ∧ Rule.ofText? (annMayRead embedding).text ≠ some (annMayRead embedding)) ∧
      (boxed 127).FreeForm ∧
        Rule.ofText? (annMayRead (boxed 127)).text ≠ some (annMayRead (boxed 127)) := by
  have free : (annMayRead embedding).metadata.FreeForm := ⟨by decide, rfl⟩
  have free_boxed : (annMayRead (boxed 127)).metadata.FreeForm := freeForm_boxed 127
  refine ⟨⟨free, fun read => ?_⟩, free_boxed, fun read => ?_⟩
  · have settled : embedding.Settled := ((Rule.ofText?_text_eq_some_iff free).mp read).1
    rw [embedding, Json.Settled] at settled
    exact absurd settled.1 (by decide)
  · have shallow : (boxed 127).height < Json.depthLimit :=
      ((Rule.ofText?_text_eq_some_iff free_boxed).mp read).2
    rw [height_boxed] at shallow
    exact absurd shallow (by decide)

end Described

end AccessPolicy
