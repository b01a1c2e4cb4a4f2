import AccessPolicy.Proofs.Evaluator.Verdict

/-!
What an evaluator says of a subject depends only on the names that the subject reaches: evaluators
that agree on what concerns those names, and on all resource groups, give the subject the same
answers.
-/
namespace AccessPolicy

/-- The subject that a grant or a membership in a role is about; a resource group is not about any
one subject. -/
def Compiled.concern : Compiled → Option String
  | .grant granted => some granted.subject
  | .membership ⟨.roles, member, _⟩ => some member
  | .membership ⟨.resources, _, _⟩ => none

/-- It is about one of the names, or about no subject in particular. -/
def Compiled.ConcernsAny (compiled : Compiled) (names : String → Prop) : Prop :=
  ∀ name ∈ compiled.concern, names name

namespace Evaluator

/-- Both hold the same, as far as it concerns the names. -/
def AgreeOn (one other : Evaluator) (names : String → Prop) : Prop :=
  ∀ compiled id, compiled.ConcernsAny names → (one.Holds compiled id ↔ other.Holds compiled id)

variable {one other : Evaluator} {subject service object action : String}

theorem AgreeOn.resources {names : String → Prop} (agree : one.AgreeOn other names)
    (start name : String) :
    one.Reaches .resources start name ↔ other.Reaches .resources start name := by
  have edge (member group : String) :
      (member, group) ∈ one.edges .resources ↔ (member, group) ∈ other.edges .resources := by
    rw [mem_edges_iff, mem_edges_iff]
    exact exists_congr fun id => agree _ id (by simp [Compiled.ConcernsAny, Compiled.concern])
  unfold Reaches Hierarchy.Reaches
  simp only [edge]

theorem AgreeOn.reaches (agree : one.AgreeOn other (one.Reaches .roles subject)) (name : String) :
    one.Reaches .roles subject name ↔ other.Reaches .roles subject name := by
  have edge {member group : String} (reached : one.Reaches .roles subject member) :
      (member, group) ∈ one.edges .roles ↔ (member, group) ∈ other.edges .roles := by
    rw [mem_edges_iff, mem_edges_iff]
    refine exists_congr fun id => agree _ id ?_
    simpa [Compiled.ConcernsAny, Compiled.concern] using reached
  constructor
  · intro reached
    induction reached with
    | refl => exact Hierarchy.Reaches.refl _ _
    | tail before step ih => exact Hierarchy.Reaches.step ih ((edge before).mp step)
  · intro reached
    induction reached with
    | refl => exact Hierarchy.Reaches.refl _ _
    | tail before step ih => exact Hierarchy.Reaches.step ih ((edge ih).mpr step)

/-- Agreement on what the subject reaches does not depend on which of the two it is said of. -/
theorem AgreeOn.comm (agree : one.AgreeOn other (one.Reaches .roles subject)) :
    other.AgreeOn one (other.Reaches .roles subject) := by
  intro compiled id concerned
  refine (agree compiled id fun name about => ?_).symm
  exact (agree.reaches name).mpr (concerned name about)

theorem AgreeOn.rolesOf_eq (agree : one.AgreeOn other (one.Reaches .roles subject)) :
    one.rolesOf subject = other.rolesOf subject :=
  Hierarchy.reach_congr agree.reaches

theorem AgreeOn.enforce_eq (agree : one.AgreeOn other (one.Reaches .roles subject)) :
    one.enforce subject service object action =
      { other.enforce subject service object action with validUntil := one.nextTransition } := by
  apply enforce_congr
  intro grant id
  rw [mem_matching_iff, mem_matching_iff]
  have covered : one.Speaks subject service object action grant ↔
      other.Speaks subject service object action grant := by
    constructor
    · rintro ⟨holder, about, resource, act⟩
      rw [agree.resources] at resource
      exact ⟨(agree.reaches _).mp holder, about, resource, act⟩
    · rintro ⟨holder, about, resource, act⟩
      rw [← agree.resources] at resource
      exact ⟨(agree.reaches _).mpr holder, about, resource, act⟩
  constructor
  · rintro ⟨held, speaks⟩
    refine ⟨(agree _ id ?_).mp held, covered.mp speaks⟩
    simpa [Compiled.ConcernsAny, Compiled.concern] using speaks.holder
  · rintro ⟨held, speaks⟩
    refine ⟨(agree _ id ?_).mpr held, covered.mpr speaks⟩
    simpa [Compiled.ConcernsAny, Compiled.concern] using (agree.reaches _).mpr speaks.holder

/-- An answer about a subject that evaluators share when they agree on what the subject reaches. -/
def LocalTo (subject : String) (answer : Evaluator → Prop) : Prop :=
  ∀ one other : Evaluator, one.AgreeOn other (one.Reaches .roles subject) → answer one →
    answer other

theorem localTo_rolesOf (subject : String) (roles : List String) :
    LocalTo subject (fun evaluator => roles = evaluator.rolesOf subject) := by
  rintro one other agree rfl
  exact agree.rolesOf_eq

end Evaluator

end AccessPolicy
