import AccessPolicy.Evaluator
import AccessPolicy.Proofs.Instant.Order
import AccessPolicy.Rule.Draft
import AccessPolicy.Rule.Validation

/-!
What an author says of a rule, apart from what is done to it once it is stored. The validator reads
nothing else, and what it accepts can be compiled.
-/
namespace AccessPolicy

namespace Rule

/-- The rule as it would be new: what its author says of it. -/
def content (rule : Rule) : Rule :=
  { rule with
    id := .unassigned
    status := .enabled
    usageCount := 0
    lastUsedAt := none
    approvalStatus := .pending
    approvedBy := none
    approvedAt := none
    createdAt := .epoch
    updatedAt := .epoch }

/-- A rule has the content of another, was approved if the other one was, and is not enabled unless the
other one was: upkeep has changed nothing else. -/
structure Retains (rule previous : Rule) : Prop where
  content : rule.content = previous.content
  approval : rule.approvalStatus = previous.approvalStatus
  enabled : rule.status = .enabled → previous.status = .enabled

variable {rule previous other : Rule}

theorem Retains.refl (rule : Rule) : rule.Retains rule :=
  ⟨rfl, rfl, fun enabled => enabled⟩

theorem Retains.trans (later : other.Retains rule) (earlier : rule.Retains previous) :
    other.Retains previous :=
  ⟨later.content.trans earlier.content, later.approval.trans earlier.approval,
    fun enabled => earlier.enabled (later.enabled enabled)⟩

/-- A rule that counts, and requires approval, has been approved. -/
theorem approved_of_isActive {now : Instant} (active : rule.isActive now = true)
    (required : rule.requireApproval = true) :
    rule.status = .enabled ∧ rule.approvalStatus = .approved := by
  have eligible := ((isActive_iff rule now).mp active).1
  simpa [isEligible, required] using eligible

end Rule

/-- The validator finds no error in the rule. -/
def Rule.Accepted (rule : Rule) : Prop :=
  Validator.standard.errors rule = []

theorem Validator.valid_iff {rule : Rule} {existing : Option (List Rule)} {now : Instant} :
    (standard.validate rule existing now).valid = true ↔ rule.Accepted := by
  simp [validate, ValidationReport.valid, Rule.Accepted]

/-- A membership is between two different names. -/
def Compiled.Proper : Compiled → Prop
  | .grant _ => True
  | .membership link => link.member ≠ link.group

/-- The relations that the validator knows are those that have a tree. -/
theorem Relation.exists_tree {relation : Relation} (known : relation.name ∈ Validator.standard.relations) :
    ∃ tree, relation.tree? = some tree := by
  have named : relation.name = "g" ∨ relation.name = "g2" := by
    simpa [Validator.standard] using known
  unfold Relation.tree?
  split
  · exact ⟨_, rfl⟩
  · rename_i other
    rw [if_pos (named.resolve_left other)]
    exact ⟨_, rfl⟩

namespace Rule.Accepted

variable {rule other : Rule}

theorem of_content_eq (accepted : other.Accepted) (same : rule.content = other.content) :
    rule.Accepted :=
  (congrArg Validator.standard.errors same :).trans accepted

/-- What the validator accepts compiles. -/
theorem exists_compile (accepted : rule.Accepted) :
    ∃ compiled, rule.compile = .ok compiled ∧ compiled.Proper := by
  simp only [Rule.Accepted, Validator.errors, List.append_eq_nil_iff] at accepted
  obtain ⟨⟨⟨_, readable⟩, content⟩, _⟩ := accepted
  unfold Rule.compile
  cases kind : rule.kind with
  | error fault =>
    rw [Validator.kindErrors, kind] at readable
    cases fault <;> cases readable
  | ok read =>
    rw [Validator.contentErrors, kind] at content
    cases read with
    | permission held =>
      dsimp only at content ⊢
      cases problem : ObjectPattern.problem? held.object with
      | none => exact ⟨_, rfl, trivial⟩
      | some problem => simp [Validator.permissionErrors, problem] at content
    | grouping link =>
      simp only [Validator.groupingErrors, List.append_eq_nil_iff] at content
      obtain ⟨known, different⟩ := content
      have defined : link.relation.name ∈ Validator.standard.relations := by
        refine Classical.byContradiction fun unknown => ?_
        simp [unknown] at known
      obtain ⟨tree, found⟩ := Relation.exists_tree defined
      dsimp only
      rw [found]
      refine ⟨_, rfl, fun same => ?_⟩
      rw [if_pos (show link.member = link.group from same)] at different
      split at different <;> cases different

end Rule.Accepted

end AccessPolicy
