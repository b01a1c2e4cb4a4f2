import AccessPolicy.Proofs.Ascending
import AccessPolicy.Proofs.Evaluator.Following
import AccessPolicy.Proofs.Rule.Content

/-!
Evaluators of accepted rules. Accepted rules compile, and their memberships are between different names,
which the role graph gets to know; so no rule is refused, and none is left behind when it is taken out.
-/
namespace AccessPolicy

namespace Evaluator

/-- The names of every membership are known. -/
def Linked (evaluator : Evaluator) : Prop :=
  ∀ entry ∈ evaluator.memberships,
    entry.1.member ∈ evaluator.knownNames ∧ entry.1.group ∈ evaluator.knownNames

variable {evaluator : Evaluator} {rule : Rule} {rules : List Rule} {now : Instant}

theorem mem_namesWith {names : List String} {membership : Membership}
    (different : membership.member ≠ membership.group) (name : String) :
    name ∈ namesWith names membership ↔
      name = membership.group ∨ name = membership.member ∨ name ∈ names := by
  rw [namesWith, if_neg different, Ascending.mem_insert_iff, Ascending.mem_insert_iff]

/-- An accepted rule is compiled. -/
theorem exists_insert (evaluator : Evaluator) (accepted : rule.Accepted) :
    ∃ added, (evaluator.insert rule).1 = .ok added := by
  obtain ⟨compiled, compiles, _⟩ := accepted.exists_compile
  unfold insert
  rw [compiles]
  cases compiled <;> exact ⟨_, rfl⟩

theorem Linked.insert (linked : evaluator.Linked) (accepted : rule.Accepted) :
    (evaluator.insert rule).2.Linked := by
  obtain ⟨compiled, compiles, proper⟩ := accepted.exists_compile
  unfold Evaluator.insert
  rw [compiles]
  cases compiled with
  | grant grant =>
    dsimp only [addGrant]
    split
    · exact linked
    · exact linked
  | membership membership =>
    dsimp only [addMembership]
    split
    · exact linked
    · intro entry member
      simp only [mem_namesWith proper]
      rcases List.mem_append.mp member with old | added
      · obtain ⟨first, second⟩ := linked entry old
        exact ⟨Or.inr (Or.inr first), Or.inr (Or.inr second)⟩
      · rw [List.mem_singleton.mp added]
        exact ⟨Or.inr (Or.inl rfl), Or.inl rfl⟩

theorem Linked.foldl_insert (linked : evaluator.Linked) (accepted : ∀ rule ∈ rules, rule.Accepted) :
    (rules.foldl (fun evaluator rule => (evaluator.insert rule).2) evaluator).Linked := by
  induction rules generalizing evaluator with
  | nil => exact linked
  | cons rule rest ih =>
    exact ih (linked.insert (accepted rule (by simp)))
      fun other member => accepted other (List.mem_cons_of_mem _ member)

theorem linked_of_build {tenant : TenantId} (accepted : ∀ rule ∈ rules, rule.Accepted)
    (built : build tenant rules now = .ok evaluator) : evaluator.Linked := by
  unfold build at built
  split at built
  · cases built
  · cases built
    have bare : (bare tenant ‹_› now).Linked := fun _ impossible => nomatch impossible
    exact bare.foldl_insert fun rule member => accepted rule (List.mem_filter.mp member).1

theorem Linked.remove (linked : evaluator.Linked) (rule : Rule) :
    (evaluator.remove rule).2.Linked := by
  rw [remove_eq]
  split
  · exact linked
  · split
    · exact linked
    · exact fun entry member => linked entry (List.mem_of_mem_erase member)

/-- Where the names are known, a rule is taken out without an error. -/
theorem Linked.exists_remove (linked : evaluator.Linked) (rule : Rule) :
    ∃ removed, (evaluator.remove rule).1 = .ok removed := by
  unfold Evaluator.remove
  split
  · exact ⟨_, rfl⟩
  · split
    · exact ⟨_, rfl⟩
    · rename_i entry found
      dsimp only
      rw [if_pos (Or.inr (linked entry (List.mem_of_find?_eq_some found)))]
      exact ⟨_, rfl⟩

theorem Linked.track {tracked : Evaluator} (linked : evaluator.Linked)
    (track : evaluator.track rule now = .ok tracked) : tracked.Linked := by
  obtain ⟨bound, _, rfl⟩ := track_eq_ok track
  exact linked

section Contains

theorem contains_iff {id : RuleId} :
    evaluator.contains id = true ↔ ∃ compiled, evaluator.Holds compiled id := by
  simp only [contains, Bool.or_eq_true, List.any_eq_true, decide_eq_true_eq, Prod.exists]
  constructor
  · rintro (⟨grant, _, present, rfl⟩ | ⟨membership, _, present, rfl⟩)
    · exact ⟨.grant grant, present⟩
    · exact ⟨.membership membership, present⟩
  · rintro ⟨compiled, held⟩
    cases compiled with
    | grant grant => exact Or.inl ⟨grant, id, held, rfl⟩
    | membership membership => exact Or.inr ⟨membership, id, held, rfl⟩

/-- An evaluator that mirrors accepted rules has compiled exactly those that count. -/
theorem Mirrors.contains_iff (mirrors : evaluator.Mirrors rules now)
    (accepted : ∀ rule ∈ rules, rule.Accepted) {id : RuleId} :
    evaluator.contains id = true ↔ ∃ rule ∈ rules, rule.id = id ∧ rule.isActive now = true := by
  rw [Evaluator.contains_iff]
  simp only [mirrors.holds_iff]
  constructor
  · rintro ⟨compiled, rule, member, active, _, same⟩
    exact ⟨rule, member, same, active⟩
  · rintro ⟨rule, member, same, active⟩
    obtain ⟨compiled, compiles, _⟩ := (accepted rule member).exists_compile
    exact ⟨compiled, rule, member, active, compiles, same⟩

end Contains

end Evaluator

end AccessPolicy
