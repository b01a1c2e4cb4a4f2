import AccessPolicy.Json.Embedded
import AccessPolicy.Json.Record
import AccessPolicy.Proofs.Json.RoundTrip
import AccessPolicy.Proofs.Table

/-!
Free-form values that reading leaves as they are: the keys of every object ascend, and no object
begins as one that stands for another value.
-/
namespace AccessPolicy

namespace Table

variable {κ υ : Type} [DecidableEq κ] [LT κ] [DecidableLT κ] [Std.Asymm (α := κ) (· < ·)]

/-- A value that is put after all others is the last entry. -/
theorem put_of_below {table : Table κ υ} {key : κ} (below : ∀ held ∈ table.keys, held < key)
    (value : υ) : table.put key value = table ++ [(key, value)] := by
  induction table with
  | nil => rfl
  | cons entry rest ih =>
    obtain ⟨held, old⟩ := entry
    have before : held < key := below held (List.mem_cons_self ..)
    have after : ¬ key < held := Std.Asymm.asymm held key before
    have different : held ≠ key := by
      rintro rfl
      exact after before
    have later := ih fun other member => below other (List.mem_cons_of_mem _ member)
    rw [put, if_neg different, if_neg after, later, List.cons_append]

omit [DecidableEq κ] [DecidableLT κ] [Std.Asymm (α := κ) (· < ·)] in
theorem Ordered.below {front : Table κ υ} {entry : κ × υ} {rest : Table κ υ}
    (ordered : Ordered (front ++ entry :: rest)) : ∀ held ∈ front.keys, held < entry.1 := by
  unfold Ordered keys at ordered
  rw [List.map_append, List.pairwise_append] at ordered
  exact fun held member => ordered.2.2 held member entry.1 (List.mem_cons_self ..)

end Table

namespace Json

mutual

/-- Reading leaves the value as it is. -/
def Settled : Json → Prop
  | .arr items => SettledItems items
  | .obj members => isEmbedding members = false ∧ Table.Ordered members ∧ SettledMembers members
  | _ => True

def SettledItems : List Json → Prop
  | [] => True
  | item :: rest => Settled item ∧ SettledItems rest

def SettledMembers : List (String × Json) → Prop
  | [] => True
  | (_, value) :: rest => Settled value ∧ SettledMembers rest

end

mutual

/-- Nothing is embedded in a settled value. -/
theorem expand?_of_settled (read? : String → Option Json) :
    ∀ value : Json, value.Settled → value.expand? read? = some value
  | .null, _ | .bool _, _ | .int _, _ | .real _, _ | .str _, _ => by
    simp only [expand?]
  | .arr items, settled => by
    rw [Settled] at settled
    rw [expand?, expandItems?_of_settled read? items settled, Option.map_some]
  | .obj members, settled => by
    rw [Settled] at settled
    rw [expand?, settled.1, if_neg Bool.false_ne_true,
      expandMembers?_of_settled read? members settled.2.2, Option.map_some]

theorem expandItems?_of_settled (read? : String → Option Json) :
    ∀ items : List Json, SettledItems items → expandItems? read? items = some items
  | [], _ => by rw [expandItems?]
  | item :: rest, settled => by
    rw [SettledItems] at settled
    rw [expandItems?, expand?_of_settled read? item settled.1,
      expandItems?_of_settled read? rest settled.2]

theorem expandMembers?_of_settled (read? : String → Option Json) :
    ∀ members : List (String × Json), SettledMembers members →
      expandMembers? read? members = some members
  | [], _ => by rw [expandMembers?]
  | (key, value) :: rest, settled => by
    rw [SettledMembers] at settled
    rw [expandMembers?, expand?_of_settled read? value settled.1,
      expandMembers?_of_settled read? rest settled.2]

end

mutual

theorem canonical_of_settled : ∀ value : Json, value.Settled → value.canonical = value
  | .null, _ | .bool _, _ | .int _, _ | .real _, _ | .str _, _ => by
    simp only [canonical]
  | .arr items, settled => by
    rw [Settled] at settled
    rw [canonical, canonicalItems_of_settled items settled]
  | .obj members, settled => by
    rw [Settled] at settled
    have members_same := canonicalMembers_of_settled members settled.2.2 [] settled.2.1
    rw [canonical, members_same, List.nil_append]

theorem canonicalItems_of_settled :
    ∀ items : List Json, SettledItems items → canonicalItems items = items
  | [], _ => by rw [canonicalItems]
  | item :: rest, settled => by
    rw [SettledItems] at settled
    rw [canonicalItems, canonical_of_settled item settled.1,
      canonicalItems_of_settled rest settled.2]

theorem canonicalMembers_of_settled : ∀ members : List (String × Json), SettledMembers members →
    ∀ front : Table String Json, Table.Ordered (front ++ members) →
      canonicalMembers front members = front ++ members
  | [], _, front, _ => by rw [canonicalMembers, List.append_nil]
  | (key, value) :: rest, settled, front, ordered => by
    rw [SettledMembers] at settled
    have last := Table.put_of_below (Table.Ordered.below ordered) value
    rw [canonicalMembers, canonical_of_settled value settled.1, last,
      canonicalMembers_of_settled rest settled.2 _ (by simpa using ordered)]
    simp

end

/-- A settled value is its own free-form reading. -/
theorem free?_of_settled {value : Json} (settled : value.Settled) : free? value = some value := by
  rw [free?, expand?_of_settled _ value settled, Option.map_some, canonical_of_settled value settled]

/-- A table of settled values is read back as it is. -/
theorem table?_free? {table : Table String Json} (ordered : table.Ordered)
    (settled : SettledMembers table) : table? free? (.obj table) = some table := by
  have each : ∀ rest front : Table String Json, Table.Ordered (front ++ rest) → SettledMembers rest →
      rest.foldlM (fun table entry => (free? entry.2).map (table.put entry.1)) front =
        some (front ++ rest) := by
    intro rest
    induction rest with
    | nil => exact fun front _ _ => by simp
    | cons entry rest ih =>
      obtain ⟨key, value⟩ := entry
      intro front ordered settled
      rw [SettledMembers] at settled
      have last := Table.put_of_below (Table.Ordered.below ordered) value
      rw [List.foldlM_cons, free?_of_settled settled.1, Option.map_some, last]
      exact (ih _ (by simpa using ordered) settled.2).trans (by simp)
  exact each table [] ordered settled

end Json

end AccessPolicy
