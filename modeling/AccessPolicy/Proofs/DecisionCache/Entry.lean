import AccessPolicy.DecisionCache
import AccessPolicy.Proofs.Instant.RoundTrip
import AccessPolicy.Proofs.Json.Settled

/-!
What is kept in an entry of the cache is read back as it was: the value and the instant from which
it is not served.
-/
namespace AccessPolicy

namespace Decision

/-- The row filters can be carried as JSON: reading leaves them as they are, their numbers are whole,
and inside an entry they are not nested too deep. -/
structure Portable (decision : Decision) : Prop where
  ordered : Table.Ordered decision.dataFilters
  settled : Json.SettledMembers decision.dataFilters
  plain : Json.havePlain decision.dataFilters
  shallow : Json.tallestMember decision.dataFilters + 3 ≤ Json.depthLimit

theorem portable_of_unfiltered {decision : Decision} (unfiltered : decision.dataFilters = []) :
    decision.Portable := by
  constructor <;> rw [unfiltered]
  · exact List.Pairwise.nil
  · trivial
  · rfl
  · exact Nat.le_of_ble_eq_true rfl

/-- So can they be with any mark of where the decision came from. -/
theorem Portable.marked {decision : Decision} (portable : decision.Portable) (fromCache : Bool) :
    { decision with fromCache := fromCache }.Portable :=
  ⟨portable.ordered, portable.settled, portable.plain, portable.shallow⟩

variable {decision : Decision} (portable : decision.Portable)
include portable

/-- A decision is read back from JSON. -/
theorem ofJson?_toJson : ofJson? decision.toJson = some decision := by
  have filters := Json.table?_free? portable.ordered portable.settled
  obtain ⟨allowed, reason, appliedRules, dataFilters, fieldMasks, durationMs, fromCache,
    explicitDeny, grantedVia⟩ := decision
  cases grantedVia <;>
    simp [ofJson?, toJson, fieldNames, Json.Record.ofJson?, Json.Record.named?,
      Json.Record.slotOf?, Json.Record.required, Json.Record.defaulted, Json.Record.slot,
      Json.bool?, Json.string?, Json.list?_ofStrings, filters, Json.word?_ofWord, Json.option?,
      Json.ofOption]

omit portable in
theorem isPlain_toJson (filters : Json.havePlain decision.dataFilters) :
    Json.isPlain decision.toJson := by
  have rules := Json.isPlain_ofStrings decision.appliedRules
  have masks := Json.isPlain_ofStrings decision.fieldMasks
  have duration := Json.isPlain_ofWord decision.durationMs
  cases via : decision.grantedVia <;>
    simp [toJson, via, Json.ofOption, Json.isPlain, Json.havePlain, rules, masks, duration, filters]

omit portable in
theorem height_toJson (filters : Json.tallestMember decision.dataFilters + 3 ≤ Json.depthLimit) :
    Json.height decision.toJson ≤ Json.depthLimit - 1 := by
  have rules := Json.height_ofStrings decision.appliedRules
  have masks := Json.height_ofStrings decision.fieldMasks
  have duration : Json.height (Json.ofWord decision.durationMs) = 0 := rfl
  have via : Json.height (Json.ofOption .str decision.grantedVia) = 0 := by
    cases decision.grantedVia <;> rfl
  simp only [toJson, Json.height, Json.tallestMember, duration, via, Json.depthLimit] at filters ⊢
  omega

omit portable in
theorem read?_toJson (filters : Json.tallestMember decision.dataFilters + 3 ≤ Json.depthLimit) :
    (Json.tree decision.toJson).read? (Json.depthLimit - 1) shape = some decision.toJson := by
  refine Json.Tree.read?_record ?_ (height_toJson filters)
  intro member present
  simp only [List.mem_cons, List.not_mem_nil, or_false] at present
  rcases present with rfl | rfl | rfl | rfl | rfl | rfl | rfl | rfl | rfl <;> rfl

end Decision

/-- The decision, whether it came from the cache or not. -/
def Decision.unmarked (decision : Decision) : Decision :=
  { decision with fromCache := false }

namespace DecisionCache

/-- An entry is read back as it was written. -/
theorem decode?_encode {α : Type} {shape : Json.Shape} {decodeValue : Json → Option α}
    {json : Json} {value : α} (plain : Json.isPlain json)
    (read : (Json.tree json).read? (Json.depthLimit - 1) shape = some json)
    (decoded : decodeValue json = some value) (validUntil : Option Instant) :
    decode? shape decodeValue (encode json validUntil) = some (value, validUntil) := by
  have bound_plain : Json.isPlain (Json.ofOption Instant.toJson validUntil) := by
    cases validUntil <;> rfl
  have bound_read : (Json.tree (Json.ofOption Instant.toJson validUntil)).read?
      (Json.depthLimit - 1) .whole = some (Json.ofOption Instant.toJson validUntil) := by
    cases validUntil <;> rfl
  have bound_decoded : Json.option? Instant.ofJson? (Json.ofOption Instant.toJson validUntil) =
      some validUntil := by
    cases validUntil with
    | none => rfl
    | some last =>
      change (Instant.ofJson? last.toJson).map some = some (some last)
      rw [Instant.ofJson?_toJson, Option.map_some]
  have parsed : Json.parseAs? (.record [("value", shape), ("valid_until", .whole)])
      (encode json validUntil) = some (.obj [("value", json),
        ("valid_until", Json.ofOption Instant.toJson validUntil)]) := by
    have whole : Json.isPlain (.obj [("value", json),
        ("valid_until", Json.ofOption Instant.toJson validUntil)]) := by
      simp [Json.isPlain, Json.havePlain, plain, bound_plain]
    have deep : Json.depthLimit ≠ 0 := by decide
    rw [encode, Json.parseAs?, Json.ofText?_render whole]
    simp [Json.tree, Json.memberTrees, Json.Tree.read?, Json.Tree.readMembers?,
      Json.Shape.member?, deep, read, bound_read]
  simp [decode?, parsed, Json.Record.ofJson?, Json.Record.named?, Json.Record.slotOf?,
    Json.Record.required, Json.Record.defaulted, Json.Record.slot, decoded, bound_decoded]

theorem decode?_encode_decision {decision : Decision} (portable : decision.Portable)
    (validUntil : Option Instant) :
    decode? Decision.shape Decision.ofJson? (encode decision.toJson validUntil) =
      some (decision, validUntil) :=
  decode?_encode (Decision.isPlain_toJson portable.plain) (Decision.read?_toJson portable.shallow)
    (Decision.ofJson?_toJson portable) validUntil

/-- An entry whose row filters are nested too deep cannot be read back. -/
theorem decode?_encode_deep {decision : Decision} (plain : Json.havePlain decision.dataFilters)
    (deep : Json.depthLimit < Json.tallestMember decision.dataFilters + 3)
    (validUntil : Option Instant) :
    decode? Decision.shape Decision.ofJson? (encode decision.toJson validUntil) = none := by
  have entry_plain : Json.isPlain (.obj [("value", decision.toJson),
      ("valid_until", Json.ofOption Instant.toJson validUntil)]) := by
    have value_plain := Decision.isPlain_toJson plain
    cases validUntil <;>
      simp [Json.isPlain, Json.havePlain, value_plain, Json.ofOption, Instant.toJson]
  have filters : (Json.tree (.obj decision.dataFilters)).read? (Json.depthLimit - 2) .whole =
      none := by
    apply Json.Tree.read?_deep
    rw [Json.height]
    simp only [Json.depthLimit] at deep ⊢
    omega
  have value : (Json.tree decision.toJson).read? (Json.depthLimit - 1) Decision.shape = none :=
    Json.Tree.read?_eq_none (List.mem_of_getElem? (i := 3) rfl) rfl filters
  have unparsed : Json.parseAs? (.record [("value", Decision.shape), ("valid_until", .whole)])
      (encode decision.toJson validUntil) = none := by
    rw [encode, Json.parseAs?, Json.ofText?_render entry_plain]
    exact Json.Tree.read?_eq_none (List.mem_cons_self ..) rfl value
  simp [decode?, unparsed]

/-- An entry with the decision is read back as it was written, if it can be read at all. -/
def Carried (decision : Decision) : Prop :=
  ∀ bound stored, decode? Decision.shape Decision.ofJson? (encode decision.toJson bound) =
    some stored → stored = (decision, bound)

theorem carried_of_portable {decision : Decision} (portable : decision.Portable) :
    Carried decision := by
  intro bound stored decoded
  rw [decode?_encode_decision portable] at decoded
  exact (Option.some.inj decoded).symm

/-- However deep the row filters are nested: if it is too deep, nothing is read back. -/
theorem carried_of_plain {decision : Decision} (ordered : Table.Ordered decision.dataFilters)
    (settled : Json.SettledMembers decision.dataFilters)
    (plain : Json.havePlain decision.dataFilters) : Carried decision := by
  by_cases shallow : Json.tallestMember decision.dataFilters + 3 ≤ Json.depthLimit
  · exact carried_of_portable ⟨ordered, settled, plain, shallow⟩
  · intro bound stored decoded
    rw [decode?_encode_deep plain (Nat.lt_of_not_le shallow)] at decoded
    cases decoded

theorem carried_of_unfiltered {decision : Decision} (unfiltered : decision.dataFilters = []) :
    Carried decision :=
  carried_of_portable (Decision.portable_of_unfiltered unfiltered)

theorem decode?_encode_roles (roles : List String) (validUntil : Option Instant) :
    decode? .whole (Json.list? Json.string?) (encode (Json.ofStrings roles) validUntil) =
      some (roles, validUntil) := by
  have room : Json.height (Json.ofStrings roles) ≤ Json.depthLimit - 1 :=
    Nat.le_trans (Json.height_ofStrings roles) (by decide)
  exact decode?_encode (Json.isPlain_ofStrings roles) (Json.Tree.read?_tree _ _ room)
    (Json.list?_ofStrings roles) validUntil

end DecisionCache

end AccessPolicy
