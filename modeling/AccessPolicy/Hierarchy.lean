import AccessPolicy.Ascending

/-!
Membership in groups: the groups that a name reaches over one edge or more, where an edge leads from
a member to a group. A name is never listed among its own groups, whatever cycles there are.
-/
namespace AccessPolicy.Hierarchy

/-- A member and a group. -/
abbrev Edge : Type := String × String

/-- The edges whose ends have not been reached yet. -/
def unreached (edges : List Edge) (seen : List String) : List Edge :=
  edges.filter (fun edge => decide (edge.2 ∉ seen))

/-- An edge that leads from the names reached so far to a new one. -/
def isFresh (start : String) (seen : List String) (edge : Edge) : Bool :=
  decide (edge.1 = start ∨ edge.1 ∈ seen) && decide (edge.2 ≠ start) && decide (edge.2 ∉ seen)

theorem length_unreached_insert_lt {edges : List Edge} {seen : List String} {edge : Edge}
    (member : edge ∈ edges) (fresh : edge.2 ∉ seen) :
    (unreached edges (Ascending.insert edge.2 seen)).length < (unreached edges seen).length := by
  simp only [unreached, ← List.countP_eq_length_filter]
  obtain ⟨before, after, rfl⟩ := List.append_of_mem member
  have kept (others : List Edge) :
      others.countP (fun other => decide (other.2 ∉ Ascending.insert edge.2 seen)) ≤
        others.countP (fun other => decide (other.2 ∉ seen)) := by
    apply List.countP_mono_left
    intro other _ absent
    simp only [decide_eq_true_eq] at absent ⊢
    exact fun present => absent (Ascending.mem_insert_of_mem present)
  have front := kept before
  have back := kept after
  have inserted := Ascending.mem_insert_self edge.2 seen
  simp only [List.countP_append, List.countP_cons, inserted, fresh, not_true_eq_false,
    not_false_eq_true, decide_true, decide_false, if_true, Bool.false_eq_true, if_false]
  omega

/-- Adds the ends of fresh edges until there is none. -/
def spread (edges : List Edge) (start : String) (seen : List String) : List String :=
  match _ : edges.find? (isFresh start seen) with
  | none => seen
  | some edge => spread edges start (Ascending.insert edge.2 seen)
termination_by (unreached edges seen).length
decreasing_by
  rename_i found
  have fresh := List.find?_some found
  simp only [isFresh, Bool.and_eq_true, decide_eq_true_eq] at fresh
  exact length_unreached_insert_lt (List.mem_of_find?_eq_some found) fresh.2

/-- The names reached from `start`, ascending and without `start` itself. -/
def reach (edges : List Edge) (start : String) : List String :=
  spread edges start []

def reverse (edges : List Edge) : List Edge :=
  edges.map Prod.swap

end AccessPolicy.Hierarchy
