import AccessPolicy.Json.Record

/-!
Opening an object as a record whose fields are its members: each field holds what the member holds.
-/
namespace AccessPolicy.Json

namespace Record

variable {members : List (String × Json)} {name : String} {value : Json}

theorem slotOf?_of_mem (distinct : (members.map Prod.fst).Nodup) (present : (name, value) ∈ members) :
    slotOf? members name = some (.value value) := by
  have only : members.filter (fun entry => entry.1 = name) = [(name, value)] := by
    induction members with
    | nil => cases present
    | cons first rest ih =>
      obtain ⟨fresh, others⟩ := List.nodup_cons.mp distinct
      rcases List.mem_cons.mp present with rfl | later
      · have none_left : rest.filter (fun entry => entry.1 = name) = [] := by
          rw [List.filter_eq_nil_iff]
          intro entry member same
          exact fresh (List.mem_map.mpr ⟨entry, member, of_decide_eq_true same⟩)
        rw [List.filter_cons_of_pos (by simp), none_left]
      · have different : first.1 ≠ name := fun same =>
          fresh (List.mem_map.mpr ⟨_, later, same.symm⟩)
        rw [List.filter_cons_of_neg (by simpa using different), ih others later]
  rw [slotOf?, only]

theorem named?_map_fst (distinct : (members.map Prod.fst).Nodup) {part : List (String × Json)}
    (within : part ⊆ members) :
    named? members (part.map Prod.fst) = some (part.map fun member => (member.1, .value member.2)) := by
  induction part with
  | nil => rfl
  | cons member rest ih =>
    have here := slotOf?_of_mem distinct (within (List.mem_cons_self ..))
    rw [List.map_cons, named?, here, ih (List.subset_of_cons_subset within)]
    rfl

theorem slot_of_mem (distinct : (members.map Prod.fst).Nodup) {member : String × Json}
    (present : member ∈ members) :
    slot ⟨members.map fun member => (member.1, .value member.2)⟩ member.1 = .value member.2 := by
  have found : (members.map fun member => (member.1, Slot.value member.2)).find?
      (fun entry => entry.1 = member.1) = some (member.1, .value member.2) := by
    induction members with
    | nil => cases present
    | cons first rest ih =>
      obtain ⟨fresh, others⟩ := List.nodup_cons.mp distinct
      rcases List.mem_cons.mp present with rfl | later
      · simp
      · have different : first.1 ≠ member.1 := fun same =>
          fresh (List.mem_map.mpr ⟨_, later, same.symm⟩)
        rw [List.map_cons, List.find?_cons_of_neg (by simpa using different), ih others later]
  rw [slot, found]

theorem exists_ofJson?_obj {names : List String} (own : members.map Prod.fst = names)
    (distinct : names.Nodup) : ∃ record, ofJson? names (.obj members) = some record ∧
      ∀ member ∈ members, record.slot member.1 = .value member.2 := by
  subst own
  refine ⟨_, ?_, fun member present => slot_of_mem distinct present⟩
  rw [ofJson?, named?_map_fst distinct (List.Subset.refl members), Option.map_some]

theorem nullable_eq {α : Type} (record : Record) (name : String) (decode : Json → Option α) :
    record.nullable name decode = match record.slot name with
      | .value value => option? decode value
      | .missing => some none
      | .cut => none := by
  unfold nullable option?
  cases record.slot name with
  | value value => cases value <;> rfl
  | missing => rfl
  | cut => rfl

end Record

theorem option?_ofOption {α : Type} {encode : α → Json} {decode : Json → Option α}
    (reads : ∀ content, decode (encode content) = some content)
    (filled : ∀ content, encode content ≠ .null) (field : Option α) :
    option? decode (ofOption encode field) = some field := by
  cases field with
  | none => rfl
  | some content =>
    rw [ofOption, option?, reads, Option.map_some]
    exact filled content

end AccessPolicy.Json
