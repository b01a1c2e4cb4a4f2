/-!
Finite sets of ordered values, kept as lists in strictly ascending order.
-/
namespace AccessPolicy.Ascending

variable {α : Type} [LT α] [DecidableLT α]

/-- Puts a value at its place; a value that is already there is not repeated. -/
def insert (value : α) : List α → List α
  | [] => [value]
  | head :: tail =>
    if value < head then value :: head :: tail
    else if head < value then head :: insert value tail
    else head :: tail

/-- The distinct members of a list, ascending. -/
def ofList (values : List α) : List α :=
  values.foldr insert []

def least? (values : List α) : Option α :=
  (ofList values).head?

theorem mem_insert_of_mem {value member : α} {members : List α} (present : member ∈ members) :
    member ∈ insert value members := by
  induction members with
  | nil => simp at present
  | cons head tail ih =>
    unfold insert
    split
    · exact List.mem_cons_of_mem _ present
    · split
      · rcases List.mem_cons.mp present with same | later
        · simp [same]
        · exact List.mem_cons_of_mem _ (ih later)
      · exact present

theorem mem_of_mem_insert {value member : α} {members : List α}
    (present : member ∈ insert value members) : member = value ∨ member ∈ members := by
  induction members with
  | nil => simpa [insert] using present
  | cons head tail ih =>
    unfold insert at present
    split at present
    · simpa using present
    · split at present
      · rcases List.mem_cons.mp present with same | later
        · exact Or.inr (by simp [same])
        · exact (ih later).imp id (List.mem_cons_of_mem _)
      · exact Or.inr present

theorem mem_insert_self [Std.Trichotomous (α := α) (· < ·)] (value : α) (members : List α) :
    value ∈ insert value members := by
  induction members with
  | nil => simp [insert]
  | cons head tail ih =>
    unfold insert
    split
    · simp
    · rename_i notBefore
      split
      · exact List.mem_cons_of_mem _ ih
      · rename_i notAfter
        rcases Std.Trichotomous.trichotomous (r := (· < ·)) value head notBefore notAfter with rfl
        simp

end AccessPolicy.Ascending
