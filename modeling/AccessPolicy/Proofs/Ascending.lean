import AccessPolicy.Ascending

/-!
Ascending lists as sets: which members they have, and that the members determine the list.
-/
namespace AccessPolicy.Ascending

variable {α : Type} [LT α] [DecidableLT α]

section Members

variable [Std.Trichotomous (α := α) (· < ·)]

theorem mem_insert_iff {value member : α} {members : List α} :
    member ∈ insert value members ↔ member = value ∨ member ∈ members := by
  constructor
  · exact mem_of_mem_insert
  · rintro (rfl | present)
    · exact mem_insert_self member members
    · exact mem_insert_of_mem present

theorem mem_ofList_iff {member : α} {values : List α} :
    member ∈ ofList values ↔ member ∈ values := by
  induction values with
  | nil => rfl
  | cons head tail ih =>
    change member ∈ insert head (ofList tail) ↔ member ∈ head :: tail
    rw [mem_insert_iff, ih, List.mem_cons]

theorem exists_least? {values : List α} (nonempty : values ≠ []) :
    ∃ least, least? values = some least := by
  obtain ⟨value, member⟩ := List.exists_mem_of_ne_nil _ nonempty
  have present : value ∈ ofList values := mem_ofList_iff.mpr member
  cases ordered : ofList values with
  | nil =>
    rw [ordered] at present
    cases present
  | cons head tail => exact ⟨head, by rw [least?, ordered, List.head?_cons]⟩

end Members

theorem nodup_of_pairwise {β : Type} {before : β → β → Prop} [Std.Asymm before] {members : List β}
    (ascending : members.Pairwise before) : members.Nodup := by
  refine ascending.imp ?_
  rintro left right order rfl
  exact Std.Asymm.asymm left left order order

/-- An ascending list is determined by its members. -/
theorem eq_of_mem_iff {β : Type} {before : β → β → Prop} [Std.Asymm before] {one other : List β}
    (ascending : one.Pairwise before) (ascendingOther : other.Pairwise before)
    (same : ∀ member, member ∈ one ↔ member ∈ other) : one = other := by
  have perm : one.Perm other :=
    (List.perm_ext_iff_of_nodup (nodup_of_pairwise ascending)
      (nodup_of_pairwise ascendingOther)).mpr same
  refine List.Perm.eq_of_pairwise ?_ ascending ascendingOther perm
  intro left right _ _ order reverse
  exact absurd reverse (Std.Asymm.asymm left right order)

section Order

variable [Trans (α := α) (· < ·) (· < ·) (· < ·)]

theorem pairwise_insert {value : α} {members : List α} (ascending : members.Pairwise (· < ·)) :
    (insert value members).Pairwise (· < ·) := by
  induction members with
  | nil => exact List.pairwise_singleton _ _
  | cons head tail ih =>
    obtain ⟨below, rest⟩ := List.pairwise_cons.mp ascending
    unfold insert
    split
    · rename_i before
      refine List.pairwise_cons.mpr ⟨?_, ascending⟩
      intro member present
      rcases List.mem_cons.mp present with rfl | later
      · exact before
      · exact Trans.trans before (below member later)
    · split
      · rename_i after
        refine List.pairwise_cons.mpr ⟨?_, ih rest⟩
        intro member present
        rcases mem_of_mem_insert present with rfl | later
        · exact after
        · exact below member later
      · exact ascending

theorem pairwise_ofList (values : List α) : (ofList values).Pairwise (· < ·) := by
  induction values with
  | nil => exact List.Pairwise.nil
  | cons head tail ih => exact pairwise_insert ih

variable [Std.Asymm (α := α) (· < ·)] [Std.Trichotomous (α := α) (· < ·)]

theorem ofList_congr {one other : List α} (same : ∀ member, member ∈ one ↔ member ∈ other) :
    ofList one = ofList other :=
  eq_of_mem_iff (pairwise_ofList one) (pairwise_ofList other)
    (fun member => by rw [mem_ofList_iff, mem_ofList_iff, same member])

theorem least?_congr {one other : List α} (same : ∀ member, member ∈ one ↔ member ∈ other) :
    least? one = least? other := by
  rw [least?, least?, ofList_congr same]

theorem least?_eq_some_iff {least : α} {values : List α} :
    least? values = some least ↔ least ∈ values ∧ ∀ value ∈ values, ¬ value < least := by
  have members (value : α) : value ∈ ofList values ↔ value ∈ values := mem_ofList_iff
  have sorted := pairwise_ofList values
  unfold least?
  generalize ofList values = ordered at members sorted
  cases ordered with
  | nil =>
    have absent (value : α) : value ∉ values := fun present => by
      simpa using (members value).mpr present
    simp [absent]
  | cons head tail =>
    have below := (List.pairwise_cons.mp sorted).1
    have present := (members head).mp (by simp)
    rw [List.head?_cons, Option.some.injEq]
    constructor
    · rintro rfl
      refine ⟨present, ?_⟩
      intro value found before
      rcases List.mem_cons.mp ((members value).mpr found) with rfl | later
      · exact Std.Asymm.asymm value value before before
      · exact Std.Asymm.asymm value head before (below value later)
    · rintro ⟨found, minimal⟩
      rcases List.mem_cons.mp ((members least).mpr found) with rfl | later
      · rfl
      · exact absurd (below least later) (minimal head present)

end Order

end AccessPolicy.Ascending
