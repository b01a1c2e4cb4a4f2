import AccessPolicy.Proofs.Evaluator.Holdings
import AccessPolicy.Proofs.Hierarchy.Walk

/-!
The roles and the dependents of a name, and the resource groups of an object, are what the memberships
lead to, whatever cycles they make: a name has a role exactly if it is among the role's dependents.
-/
namespace AccessPolicy

/-- The other names that a relation leads to in one step or more, each once and in ascending order. -/
structure Lists (leads : String → String → Prop) (start : String) (names : List String) : Prop where
  ascending : names.Pairwise (· < ·)
  mem_iff : ∀ name, name ∈ names ↔ name ≠ start ∧ Relation.TransGen leads start name

namespace Hierarchy

theorem lists_reach (edges : List Edge) (start : String) :
    Lists (fun member group => (member, group) ∈ edges) start (reach edges start) where
  ascending := pairwise_reach edges start
  mem_iff := fun name => by
    rw [mem_reach_iff, Reaches, Relation.reflTransGen_iff_eq_or_transGen]
    exact and_congr_right fun away => or_iff_right away

theorem mem_reach_reverse_iff {edges : List Edge} {one other : String} :
    other ∈ reach (reverse edges) one ↔ one ∈ reach edges other := by
  rw [mem_reach_iff, mem_reach_iff, reaches_reverse_iff, ne_comm]

end Hierarchy

namespace Evaluator

/-- A membership of the tree makes the first name a member of the second. -/
def Joins (evaluator : Evaluator) (tree : Tree) (member group : String) : Prop :=
  ∃ id, evaluator.Holds (.membership ⟨tree, member, group⟩) id

/-- The memberships of one tree, in some order. -/
def Orders (evaluator : Evaluator) (tree : Tree) (edges : List Hierarchy.Edge) : Prop :=
  ∀ edge, edge ∈ edges ↔ edge ∈ evaluator.edges tree

variable {evaluator : Evaluator} {tree : Tree} {edges : List Hierarchy.Edge}

theorem lists_of_orders (orders : evaluator.Orders tree edges) (start : String) :
    Lists (evaluator.Joins tree) start (Hierarchy.reach edges start) := by
  have joined : evaluator.Joins tree = fun member group => (member, group) ∈ edges := by
    funext member group
    rw [orders, mem_edges_iff, Joins]
  rw [joined]
  exact Hierarchy.lists_reach edges start

theorem lists_reverse_of_orders (orders : evaluator.Orders tree edges) (start : String) :
    Lists (flip (evaluator.Joins tree)) start (Hierarchy.reach (Hierarchy.reverse edges) start) := by
  have joined : flip (evaluator.Joins tree) =
      fun group member => (group, member) ∈ Hierarchy.reverse edges := by
    funext group member
    rw [Hierarchy.mem_reverse_iff, orders, mem_edges_iff, flip, Joins]
  rw [joined]
  exact Hierarchy.lists_reach _ start

/-- The hierarchies of an evaluator are walked to their ends, in both directions. In whatever order the
memberships of a tree are looked at, the walk takes at most one step for the start and one for each
membership, and finds the names that the start is a member of, or that are members of it. -/
structure Walked (evaluator : Evaluator) : Prop where
  groups : ∀ tree edges, evaluator.Orders tree edges → ∀ start, ∃ names,
    Hierarchy.Walk.found? edges start (edges.length + 2) (.start start) = some names ∧
      Lists (evaluator.Joins tree) start names
  members : ∀ tree edges, evaluator.Orders tree edges → ∀ start, ∃ names,
    Hierarchy.Walk.found? (Hierarchy.reverse edges) start (edges.length + 2) (.start start) =
      some names ∧ Lists (flip (evaluator.Joins tree)) start names
  rolesOf : ∀ subject, Lists (evaluator.Joins .roles) subject (evaluator.rolesOf subject)
  groupsOf : ∀ object, Lists (evaluator.Joins .resources) object (evaluator.groupsOf object)
  dependentsOf : ∀ role, Lists (flip (evaluator.Joins .roles)) role (evaluator.dependentsOf role)
  converse : ∀ subject role,
    role ∈ evaluator.rolesOf subject ↔ subject ∈ evaluator.dependentsOf role

theorem hierarchies_walked (evaluator : Evaluator) : evaluator.Walked where
  groups := fun tree edges orders start =>
    ⟨_, Hierarchy.Walk.found?_start edges start, lists_of_orders orders start⟩
  members := fun tree edges orders start => by
    have found := Hierarchy.Walk.found?_start (Hierarchy.reverse edges) start
    rw [Hierarchy.reverse, List.length_map, ← Hierarchy.reverse] at found
    exact ⟨_, found, lists_reverse_of_orders orders start⟩
  rolesOf := lists_of_orders fun _ => Iff.rfl
  groupsOf := lists_of_orders fun _ => Iff.rfl
  dependentsOf := lists_reverse_of_orders fun _ => Iff.rfl
  converse := fun _ _ => Hierarchy.mem_reach_reverse_iff.symm

end Evaluator

end AccessPolicy
