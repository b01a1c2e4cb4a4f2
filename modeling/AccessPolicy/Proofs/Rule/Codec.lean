import AccessPolicy.Json.Printer
import AccessPolicy.Proofs.Instant.RoundTrip
import AccessPolicy.Proofs.Json.FreeForm
import AccessPolicy.Proofs.Json.Record
import AccessPolicy.Rule.Codec

/-!
Rules as JSON text. A rule is read back as it was written exactly if its metadata are; and two rules are
never written alike.
-/
namespace AccessPolicy

theorem RuleStatus.ofJson?_text (status : RuleStatus) : ofJson? (.str status.text) = some status := by
  cases status <;> rfl

theorem ApprovalStatus.ofJson?_text (status : ApprovalStatus) :
    ofJson? (.str status.text) = some status := by
  cases status <;> rfl

theorem TenantId.ofJson?_toJson (tenant : TenantId) : ofJson? tenant.toJson = some tenant := by
  rw [ofJson?, toJson, Json.word?_ofWord, Option.map_some]

theorem RuleId.ofJson?_toJson (id : RuleId) : ofJson? id.toJson = some id := by
  rw [ofJson?, toJson, Json.word?_ofWord, Option.map_some]

theorem Instant.toJson_ne_null (instant : Instant) : instant.toJson ≠ .null :=
  fun null => Json.noConfusion null

namespace Rule

/-- What is read of a rule's text. -/
def shape : Json.Shape :=
  .record (fieldNames.map fun name => (name, .whole))

def text (rule : Rule) : String :=
  rule.toJson.render

def ofText? (text : String) : Option Rule :=
  (Json.parseAs? shape text).bind ofJson?

variable {rule other : Rule}

section Value

set_option maxRecDepth 2000 in
theorem nodup_fieldNames : fieldNames.Nodup := by
  decide

theorem exists_toJson (rule : Rule) :
    ∃ members, rule.toJson = .obj members ∧ members.map Prod.fst = fieldNames :=
  ⟨_, rfl, by simp [fieldNames]⟩

/-- Every field but the metadata is read as it was written. -/
theorem ofJson?_toJson (rule : Rule) : ofJson? rule.toJson =
    (Json.free? rule.metadata).map fun metadata => { rule with metadata := metadata } := by
  have texts : ∀ field, Json.option? Json.string? (Json.ofOption .str field) = some field :=
    Json.option?_ofOption (fun _ => rfl) nofun
  have instants := Json.option?_ofOption Instant.ofJson?_toJson Instant.toJson_ne_null
  obtain ⟨members, written, own⟩ := exists_toJson rule
  obtain ⟨record, opened, slots⟩ := Json.Record.exists_ofJson?_obj own nodup_fieldNames
  rw [ofJson?, written, opened]
  rw [toJson, Json.obj.injEq] at written
  subst written
  simp only [List.forall_mem_cons, List.not_mem_nil, false_implies, implies_true, and_true] at slots
  -- Not `Option.bind_some`, whose congruence would go through all the later fields at each field.
  have next {α β : Type} (value : α) (rest : α → Option β) : (some value >>= rest) = rest value := rfl
  simp only [Json.Record.required, Json.Record.nullable_eq, slots, texts, instants, Json.string?,
    Json.bool?, Json.word?_ofWord, Json.list?_ofStrings, RuleId.ofJson?_toJson,
    TenantId.ofJson?_toJson, RuleStatus.ofJson?_text, ApprovalStatus.ofJson?_text,
    Instant.ofJson?_toJson, next]
  cases Json.free? rule.metadata <;> rfl

theorem ofJson?_toJson_eq_some_iff (kept : rule.metadata.canonical = rule.metadata) :
    ofJson? rule.toJson = some rule ↔ rule.metadata.Settled := by
  rw [ofJson?_toJson, ← Json.free?_eq_some_iff kept, Option.map_eq_some_iff]
  constructor
  · rintro ⟨metadata, read, same⟩
    rw [read]
    exact congrArg (fun rule => some rule.metadata) same
  · exact fun read => ⟨_, read, rfl⟩

/-- Metadata are written as they are, and the rest can be read. -/
theorem toJson_injective (same : rule.toJson = other.toJson) : rule = other := by
  simp only [toJson, Json.obj.injEq, List.cons.injEq, Prod.mk.injEq, true_and, and_true] at same
  have metadata : rule.metadata = other.metadata := by simp only [same]
  have blank : { rule with metadata := .null }.toJson = { other with metadata := .null }.toJson := by
    simp only [toJson, same]
  have settled : Json.null.Settled := by simp only [Json.Settled]
  have read := ofJson?_toJson { rule with metadata := .null }
  rw [blank, ofJson?_toJson, Json.free?_of_settled settled] at read
  have rest := Option.some.inj read
  have restored := congrArg (fun bare => { bare with metadata := rule.metadata }) rest
  rw [metadata] at restored
  exact (congrArg (fun metadata => { rule with metadata := metadata }) metadata).trans restored.symm

end Value

section Text

theorem isPlain_toJson (plain : Json.isPlain rule.metadata) : Json.isPlain rule.toJson := by
  have words := Json.isPlain_ofWord
  have texts : ∀ field, Json.isPlain (Json.ofOption .str field) = true :=
    Json.isPlain_ofOption fun _ => rfl
  have instants : ∀ field, Json.isPlain (Json.ofOption Instant.toJson field) = true :=
    Json.isPlain_ofOption fun _ => rfl
  simp [toJson, Json.isPlain, Json.havePlain, plain, texts, instants, words, Json.isPlain_ofStrings,
    RuleId.toJson, TenantId.toJson, Instant.toJson]

theorem height_toJson (rule : Rule) : rule.toJson.height ≤ max rule.metadata.height 1 + 1 := by
  have texts : ∀ field, Json.height (Json.ofOption .str field) = 0 :=
    Json.height_ofOption fun _ => by simp only [Json.height]
  have instants : ∀ field, Json.height (Json.ofOption Instant.toJson field) = 0 :=
    Json.height_ofOption fun _ => by simp only [Instant.toJson, Json.height]
  have tags := Json.height_ofStrings rule.tags
  simp [toJson, Json.height, Json.tallestMember, texts, instants, RuleId.toJson, TenantId.toJson,
    Json.ofWord, Instant.toJson]
  omega

/-- The text is read unless the metadata are nested too deep. -/
theorem parseAs?_text (plain : Json.isPlain rule.metadata) : Json.parseAs? shape rule.text =
    if rule.metadata.height < Json.depthLimit then some rule.toJson else none := by
  obtain ⟨members, written, own⟩ := exists_toJson rule
  rw [Json.parseAs?, text, Json.ofText?_render (isPlain_toJson plain), Option.bind_some]
  split
  · next shallow =>
    have room : rule.toJson.height ≤ Json.depthLimit := by
      have short := height_toJson rule
      simp only [Json.depthLimit] at shallow ⊢
      omega
    rw [written] at room ⊢
    refine Json.Tree.read?_record (fun member present => ?_) room
    apply Json.Tree.member?_of_mem
    rw [← own]
    exact List.mem_map_of_mem present
  · next deep =>
    have unread := Json.Tree.read?_deep rule.metadata (Json.depthLimit - 1) (by
      simp only [Json.depthLimit] at deep ⊢
      omega)
    have present : ("metadata", rule.metadata) ∈ members := by
      rw [toJson, Json.obj.injEq] at written
      subst written
      exact List.mem_of_getElem? (i := 14) rfl
    rw [written]
    exact Json.Tree.read?_eq_none present (Json.Tree.member?_of_mem (by simp [fieldNames])) unread

theorem ofText?_text_eq_some_iff (free : rule.metadata.FreeForm) :
    ofText? rule.text = some rule ↔
      rule.metadata.Settled ∧ rule.metadata.height < Json.depthLimit := by
  rw [ofText?, parseAs?_text free.plain]
  split
  · next shallow =>
    rw [Option.bind_some, ofJson?_toJson_eq_some_iff free.kept]
    exact (and_iff_left shallow).symm
  · next deep => exact iff_of_false (Option.some_ne_none _).symm fun both => deep both.2

theorem text_injective (plain : Json.isPlain rule.metadata) (plain_other : Json.isPlain other.metadata)
    (same : rule.text = other.text) : rule = other :=
  toJson_injective (Json.render_injective (isPlain_toJson plain) (isPlain_toJson plain_other) same)

end Text

end Rule

end AccessPolicy
