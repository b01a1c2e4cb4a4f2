import AccessPolicy.Evaluator
import AccessPolicy.Proofs.Hierarchy
import AccessPolicy.Proofs.Rule.Activity

/-!
What an evaluator holds: grants and memberships with the rules that they come from. Adding and
removing a rule changes exactly the holdings of that rule, and an evaluator that was built mirrors
the rules that count.
-/
namespace AccessPolicy

/-- What a rule contributes at an instant: what it compiles to, if it counts. -/
def Rule.Makes (rule : Rule) (now : Instant) (compiled : Compiled) (id : RuleId) : Prop :=
  rule.isActive now = true ∧ rule.compile = .ok compiled ∧ rule.id = id

namespace Evaluator

def Holds (evaluator : Evaluator) : Compiled → RuleId → Prop
  | .grant grant, id => (grant, id) ∈ evaluator.grants
  | .membership membership, id => (membership, id) ∈ evaluator.memberships

/-- Nothing is listed twice. -/
structure Distinct (evaluator : Evaluator) : Prop where
  grants : evaluator.grants.Nodup
  memberships : evaluator.memberships.Nodup

/-- The evaluator holds exactly what the rules make now. -/
structure Mirrors (evaluator : Evaluator) (rules : List Rule) (now : Instant) : Prop where
  distinct : evaluator.Distinct
  holds_iff : ∀ compiled id,
    evaluator.Holds compiled id ↔ ∃ rule ∈ rules, rule.Makes now compiled id

section Insert

variable {evaluator : Evaluator} {rule : Rule}

theorem insert_of_error {reason : Uncompilable} (fault : rule.compile = .error reason) :
    evaluator.insert rule = (.error (.invalidRule rule.id reason), evaluator) := by
  simp only [insert, fault]

theorem holds_insert {compiled : Compiled} (compiles : rule.compile = .ok compiled)
    (other : Compiled) (id : RuleId) : (evaluator.insert rule).2.Holds other id ↔
      evaluator.Holds other id ∨ other = compiled ∧ id = rule.id := by
  cases compiled with
  | grant grant =>
    simp only [insert, compiles, addGrant]
    split
    · rename_i present
      refine ⟨Or.inl, ?_⟩
      rintro (held | ⟨rfl, rfl⟩)
      · exact held
      · exact present
    · cases other <;> simp [Holds]
  | membership membership =>
    simp only [insert, compiles, addMembership]
    split
    · rename_i present
      refine ⟨Or.inl, ?_⟩
      rintro (held | ⟨rfl, rfl⟩)
      · exact held
      · exact present
    · cases other <;> simp [Holds]

theorem Distinct.insert (distinct : evaluator.Distinct) (rule : Rule) :
    (evaluator.insert rule).2.Distinct := by
  unfold Evaluator.insert
  split
  · exact distinct
  · rename_i grant _
    simp only [addGrant]
    split
    · exact distinct
    · rename_i absent
      refine ⟨?_, distinct.memberships⟩
      exact List.nodup_append.mpr ⟨distinct.grants, by simp, by
        rintro held present _ same rfl
        exact absent (List.mem_singleton.mp same ▸ present)⟩
  · rename_i membership _
    simp only [addMembership]
    split
    · exact distinct
    · rename_i absent
      refine ⟨distinct.grants, ?_⟩
      exact List.nodup_append.mpr ⟨distinct.memberships, by simp, by
        rintro held present _ same rfl
        exact absent (List.mem_singleton.mp same ▸ present)⟩

@[simp] theorem insert_nextTransition (evaluator : Evaluator) (rule : Rule) :
    (evaluator.insert rule).2.nextTransition = evaluator.nextTransition := by
  unfold insert addGrant addMembership
  split
  · rfl
  · dsimp only
    split <;> rfl
  · dsimp only
    split <;> rfl

end Insert

section Remove

variable {evaluator : Evaluator} {rule : Rule}

@[simp] theorem remove_nextTransition (evaluator : Evaluator) (rule : Rule) :
    (evaluator.remove rule).2.nextTransition = evaluator.nextTransition := by
  unfold remove
  split
  · rfl
  · split
    · rfl
    · dsimp only
      split <;> rfl

/-- The evaluator after a removal, whether the call succeeds or not. -/
theorem remove_eq (evaluator : Evaluator) (rule : Rule) : (evaluator.remove rule).2 =
    match evaluator.grants.find? (·.2 = rule.id) with
    | some entry => { evaluator with grants := evaluator.grants.erase entry }
    | none =>
      match evaluator.memberships.find? (·.2 = rule.id) with
      | none => evaluator
      | some entry => { evaluator with memberships := evaluator.memberships.erase entry } := by
  unfold remove
  cases evaluator.grants.find? (·.2 = rule.id) with
  | some entry => rfl
  | none =>
    cases evaluator.memberships.find? (·.2 = rule.id) with
    | none => rfl
    | some entry =>
      dsimp only
      split <;> rfl

theorem Distinct.remove (distinct : evaluator.Distinct) (rule : Rule) :
    (evaluator.remove rule).2.Distinct := by
  rw [remove_eq]
  split
  · exact ⟨distinct.grants.erase _, distinct.memberships⟩
  · split
    · exact distinct
    · exact ⟨distinct.grants, distinct.memberships.erase _⟩

theorem mem_erase_found_iff {α : Type} [DecidableEq α] {entries : List (α × RuleId)}
    {id : RuleId} {entry : α × RuleId} (found : entries.find? (·.2 = id) = some entry)
    (distinct : entries.Nodup) (single : ∀ value, (value, id) ∈ entries → value = entry.1)
    (value : α) (other : RuleId) :
    (value, other) ∈ entries.erase entry ↔ (value, other) ∈ entries ∧ other ≠ id := by
  have same : entry.2 = id := by simpa using List.find?_some found
  rw [distinct.mem_erase_iff]
  constructor
  · rintro ⟨different, present⟩
    refine ⟨present, ?_⟩
    rintro rfl
    exact different (Prod.ext (single value present) same.symm)
  · rintro ⟨present, different⟩
    refine ⟨?_, present⟩
    rintro rfl
    exact different same

/-- When the rule holds one thing at most, removing it takes away that and nothing else. -/
theorem holds_remove (distinct : evaluator.Distinct)
    (single : ∀ one other, evaluator.Holds one rule.id → evaluator.Holds other rule.id →
      one = other) (compiled : Compiled) (id : RuleId) :
    (evaluator.remove rule).2.Holds compiled id ↔ evaluator.Holds compiled id ∧ id ≠ rule.id := by
  have untouched (other : Compiled) (free : ¬ evaluator.Holds other rule.id) :
      evaluator.Holds other id ↔ evaluator.Holds other id ∧ id ≠ rule.id := by
    refine ⟨fun held => ⟨held, ?_⟩, And.left⟩
    rintro rfl
    exact free held
  rw [remove_eq]
  cases found : evaluator.grants.find? (·.2 = rule.id) with
  | some entry =>
    have same : entry.2 = rule.id := by simpa using List.find?_some found
    have present : evaluator.Holds (.grant entry.1) rule.id := by
      rw [← same]
      exact List.mem_of_find?_eq_some found
    cases compiled with
    | grant grant =>
      refine mem_erase_found_iff found distinct.grants ?_ grant id
      intro value held
      cases single (.grant value) (.grant entry.1) held present
      rfl
    | membership membership =>
      exact untouched (.membership membership) (fun held => by cases single _ _ present held)
  | none =>
    have noGrant (grant : Grant) : ¬ evaluator.Holds (.grant grant) rule.id := fun held => by
      simpa using List.find?_eq_none.mp found _ held
    cases foundMembership : evaluator.memberships.find? (·.2 = rule.id) with
    | none =>
      cases compiled with
      | grant grant => exact untouched (.grant grant) (noGrant grant)
      | membership membership =>
        exact untouched (.membership membership) (fun held => by
          simpa using List.find?_eq_none.mp foundMembership _ held)
    | some entry =>
      have same : entry.2 = rule.id := by simpa using List.find?_some foundMembership
      have present : evaluator.Holds (.membership entry.1) rule.id := by
        rw [← same]
        exact List.mem_of_find?_eq_some foundMembership
      cases compiled with
      | grant grant => exact untouched (.grant grant) (noGrant grant)
      | membership membership =>
        refine mem_erase_found_iff foundMembership distinct.memberships ?_ membership id
        intro value held
        cases single (.membership value) (.membership entry.1) held present
        rfl

end Remove

section Build

theorem holds_foldl_insert (rules : List Rule) (evaluator : Evaluator) (compiled : Compiled)
    (id : RuleId) :
    (rules.foldl (fun evaluator rule => (evaluator.insert rule).2) evaluator).Holds compiled id ↔
      evaluator.Holds compiled id ∨ ∃ rule ∈ rules, rule.compile = .ok compiled ∧ rule.id = id := by
  induction rules generalizing evaluator with
  | nil => simp
  | cons rule rest ih =>
    rw [List.foldl_cons, ih]
    cases compiles : rule.compile with
    | error reason => simp [insert_of_error compiles, compiles]
    | ok made =>
      rw [holds_insert compiles, or_assoc]
      apply or_congr_right
      simp only [List.mem_cons, exists_eq_or_imp, compiles, Except.ok.injEq]
      apply or_congr_left
      constructor
      · rintro ⟨rfl, rfl⟩
        exact ⟨rfl, rfl⟩
      · rintro ⟨rfl, rfl⟩
        exact ⟨rfl, rfl⟩

theorem Distinct.foldl_insert {evaluator : Evaluator} (distinct : evaluator.Distinct)
    (rules : List Rule) :
    (rules.foldl (fun evaluator rule => (evaluator.insert rule).2) evaluator).Distinct := by
  induction rules generalizing evaluator with
  | nil => exact distinct
  | cons rule rest ih => exact ih (distinct.insert rule)

theorem foldl_insert_nextTransition (rules : List Rule) (evaluator : Evaluator) :
    (rules.foldl (fun evaluator rule => (evaluator.insert rule).2) evaluator).nextTransition =
      evaluator.nextTransition := by
  induction rules generalizing evaluator with
  | nil => rfl
  | cons rule rest ih => rw [List.foldl_cons, ih, insert_nextTransition]

variable {tenant : TenantId} {rules : List Rule} {now : Instant} {evaluator : Evaluator}

theorem build_nextTransition (built : build tenant rules now = .ok evaluator) :
    AccessPolicy.nextTransition rules now = .ok evaluator.nextTransition := by
  unfold build at built
  split at built
  · cases built
  · rename_i bound next
    cases built
    rw [next, foldl_insert_nextTransition]
    rfl

theorem mirrors_of_build (built : build tenant rules now = .ok evaluator) :
    evaluator.Mirrors (rules.filter (·.tenant = tenant)) now := by
  unfold build at built
  split at built
  · cases built
  · cases built
    refine ⟨Distinct.foldl_insert ⟨List.nodup_nil, List.nodup_nil⟩ _, ?_⟩
    intro compiled id
    have nothing : ¬ (bare tenant ‹_› now).Holds compiled id := by
      cases compiled <;> simp [bare, Holds]
    rw [holds_foldl_insert, or_iff_right nothing]
    simp only [List.mem_filter, Bool.and_eq_true, decide_eq_true_eq, Rule.Makes]
    constructor
    · rintro ⟨rule, ⟨member, owned, active⟩, made⟩
      exact ⟨rule, ⟨member, owned⟩, active, made⟩
    · rintro ⟨rule, ⟨member, owned⟩, active, made⟩
      exact ⟨rule, ⟨member, owned, active⟩, made⟩

theorem build_of_closes (closing : ∀ rule ∈ rules, rule.closes) (tenant : TenantId)
    (now : Instant) : ∃ evaluator, build tenant rules now = .ok evaluator := by
  obtain ⟨bound, next⟩ := nextTransition_of_closes closing now
  unfold build
  simp only [next]
  exact ⟨_, rfl⟩

end Build

theorem mem_edges_iff {evaluator : Evaluator} {tree : Tree} {member group : String} :
    (member, group) ∈ evaluator.edges tree ↔
      ∃ id, evaluator.Holds (.membership ⟨tree, member, group⟩) id := by
  simp only [edges, List.mem_map, List.mem_filter, decide_eq_true_eq, Holds, Prod.exists,
    Prod.mk.injEq]
  constructor
  · rintro ⟨⟨_, _, _⟩, id, ⟨present, rfl⟩, rfl, rfl⟩
    exact ⟨id, present⟩
  · rintro ⟨id, present⟩
    exact ⟨_, id, ⟨present, rfl⟩, rfl, rfl⟩

/-- The names that a name reaches over the memberships of one tree, itself included. -/
def Reaches (evaluator : Evaluator) (tree : Tree) : String → String → Prop :=
  Hierarchy.Reaches (evaluator.edges tree)

end Evaluator

end AccessPolicy
