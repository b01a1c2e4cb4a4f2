import AccessPolicy.Proofs.Evaluator.Verdict
import AccessPolicy.Rule.Draft

/-!
Deny-overrides, said of stored rules: which of them count and can be compiled, whom a subject's
memberships make it, and what an evaluator built from the rules answers.
-/
namespace AccessPolicy

/-- The rule is one of the tenant's and counts now. -/
structure InForce (tenant : TenantId) (rules : List Rule) (now : Instant) (rule : Rule) : Prop where
  stored : rule ∈ rules
  owned : rule.tenant = tenant
  active : rule.isActive now = true

/-- The rule reads as a permission over an object pattern that is accepted. -/
def Rule.Permits (rule : Rule) (held : Permission) : Prop :=
  rule.kind = .ok (.permission held) ∧ ObjectPattern.problem? held.object = none

/-- The rule reads as a membership in the relation of a name. -/
def Rule.Links (rule : Rule) (name member group : String) : Prop :=
  ∃ relation, rule.kind = .ok (.grouping ⟨relation, member, group⟩) ∧ relation.name = name

/-- The name itself and all that the memberships in force lead to. -/
def Belongs (tenant : TenantId) (rules : List Rule) (now : Instant) (name : String) :
    String → String → Prop :=
  Relation.ReflTransGen (fun member group =>
    ∃ rule, InForce tenant rules now rule ∧ rule.Links name member group)

/-- A permission in force speaks of a request. -/
structure Matches (tenant : TenantId) (rules : List Rule) (now : Instant)
    (subject service object action : String) (rule : Rule) (held : Permission) : Prop where
  inForce : InForce tenant rules now rule
  permits : rule.Permits held
  holder : Belongs tenant rules now "g" subject held.subject
  service : rule.service = service ∨ rule.service = "*"
  object : held.object = "*" ∨ ObjectPattern.accepts held.object object = true ∨
    held.object ≠ object ∧ Belongs tenant rules now "g2" object held.object
  action : held.action = action ∨ held.action = "*"

def Tree.name : Tree → String
  | .roles => "g"
  | .resources => "g2"

namespace Rule

theorem tree?_eq_some_iff {relation : Relation} {tree : Tree} :
    relation.tree? = some tree ↔ relation.name = tree.name := by
  unfold Relation.tree?
  split
  · rename_i roles
    cases tree <;> simp [roles, Tree.name]
  · rename_i not_roles
    split
    · rename_i resources
      cases tree <;> simp [resources, Tree.name]
    · rename_i not_resources
      cases tree
      · simpa [Tree.name] using not_roles
      · simpa [Tree.name] using not_resources

theorem compile_eq_grant_iff {rule : Rule} {grant : Grant} :
    rule.compile = .ok (.grant grant) ↔ ∃ held, rule.Permits held ∧
      grant = ⟨held.subject, rule.service, held.object, held.action, held.effect⟩ := by
  unfold compile Permits
  cases read : rule.kind with
  | error fault => simp
  | ok kind =>
    cases kind with
    | permission held =>
      simp only [Except.ok.injEq, RuleKind.permission.injEq]
      constructor
      · intro compiled
        split at compiled
        · cases compiled
        · rename_i accepted
          cases compiled
          exact ⟨held, ⟨rfl, accepted⟩, rfl⟩
      · rintro ⟨_, ⟨rfl, accepted⟩, rfl⟩
        simp only [accepted]
    | grouping link => cases relation : link.relation.tree? <;> simp [relation]

theorem compile_eq_membership_iff {rule : Rule} {tree : Tree} {member group : String} :
    rule.compile = .ok (.membership ⟨tree, member, group⟩) ↔
      rule.Links tree.name member group := by
  unfold compile Links
  cases read : rule.kind with
  | error fault => simp
  | ok kind =>
    cases kind with
    | permission held => cases problem : ObjectPattern.problem? held.object <;> simp [problem]
    | grouping link =>
      obtain ⟨relation, linkMember, linkGroup⟩ := link
      have named := @tree?_eq_some_iff relation tree
      simp only [Except.ok.injEq, RuleKind.grouping.injEq, Grouping.mk.injEq]
      constructor
      · intro compiled
        split at compiled
        · rename_i found present
          cases compiled
          exact ⟨relation, ⟨rfl, rfl, rfl⟩, named.mp present⟩
        · cases compiled
      · rintro ⟨_, ⟨rfl, rfl, rfl⟩, same⟩
        simp [named.mpr same]

end Rule

namespace Evaluator

variable {evaluator : Evaluator} {tenant : TenantId} {rules : List Rule} {now : Instant}

theorem holds_iff_of_build (built : build tenant rules now = .ok evaluator) {compiled : Compiled}
    {id : RuleId} : evaluator.Holds compiled id ↔
      ∃ rule, InForce tenant rules now rule ∧ rule.compile = .ok compiled ∧ rule.id = id := by
  rw [(mirrors_of_build built).holds_iff]
  simp only [List.mem_filter, decide_eq_true_eq, Rule.Makes]
  constructor
  · rintro ⟨rule, ⟨stored, owned⟩, active, made⟩
    exact ⟨rule, ⟨stored, owned, active⟩, made⟩
  · rintro ⟨rule, ⟨stored, owned, active⟩, made⟩
    exact ⟨rule, ⟨stored, owned⟩, active, made⟩

theorem reaches_iff_belongs (built : build tenant rules now = .ok evaluator) (tree : Tree)
    (start name : String) :
    evaluator.Reaches tree start name ↔ Belongs tenant rules now tree.name start name := by
  have edge (member group : String) : (member, group) ∈ evaluator.edges tree ↔
      ∃ rule, InForce tenant rules now rule ∧ rule.Links tree.name member group := by
    rw [mem_edges_iff]
    simp only [holds_iff_of_build built, Rule.compile_eq_membership_iff]
    constructor
    · rintro ⟨id, rule, counts, linked, _⟩
      exact ⟨rule, counts, linked⟩
    · rintro ⟨rule, counts, linked⟩
      exact ⟨rule.id, rule, counts, linked, rfl⟩
  unfold Reaches Hierarchy.Reaches Belongs
  simp only [edge]

/-- The grants that decide are those of the permissions that match. -/
theorem decides_iff_of_build (built : build tenant rules now = .ok evaluator)
    {subject service object action : String} {id : RuleId} {holder : String} {effect : Effect} :
    evaluator.Decides subject service object action id holder effect ↔
      ∃ rule held, Matches tenant rules now subject service object action rule held ∧
        rule.id = id ∧ held.subject = holder ∧ held.effect = effect := by
  have roles := reaches_iff_belongs built .roles
  have resources := reaches_iff_belongs built .resources
  constructor
  · rintro ⟨grant, held, speaks, rfl, rfl⟩
    obtain ⟨rule, counts, compiled, rfl⟩ := (holds_iff_of_build built).mp held
    obtain ⟨permission, permits, rfl⟩ := Rule.compile_eq_grant_iff.mp compiled
    refine ⟨rule, permission, ⟨counts, permits, ?_, speaks.service, ?_, speaks.action⟩,
      rfl, rfl, rfl⟩
    · exact (roles _ _).mp speaks.holder
    · have covered := speaks.object
      rwa [resources] at covered
  · rintro ⟨rule, permission, matching, rfl, rfl, rfl⟩
    refine ⟨⟨permission.subject, rule.service, permission.object, permission.action,
      permission.effect⟩, ?_, ⟨?_, matching.service, ?_, matching.action⟩, rfl, rfl⟩
    · refine (holds_iff_of_build built).mpr ⟨rule, matching.inForce, ?_, rfl⟩
      exact Rule.compile_eq_grant_iff.mpr ⟨permission, matching.permits, rfl⟩
    · exact (roles _ _).mpr matching.holder
    · rw [resources]
      exact matching.object

/-- An evaluator built from rules allows what a matching rule allows and none denies, and names the
rules that decided. -/
theorem ruling_of_rules (closing : ∀ rule ∈ rules, rule.closes) (tenant : TenantId)
    (now : Instant) (subject service object action : String) :
    ∃ evaluator, build tenant rules now = .ok evaluator ∧
      Ruling (fun id holder effect => ∃ rule held,
        Matches tenant rules now subject service object action rule held ∧
          rule.id = id ∧ held.subject = holder ∧ held.effect = effect) subject
        (evaluator.enforce subject service object action) := by
  obtain ⟨evaluator, built⟩ := build_of_closes closing tenant now
  refine ⟨evaluator, built, ?_⟩
  have ruling := ruling_enforce evaluator subject service object action
  have same : evaluator.Decides subject service object action = fun id holder effect =>
      ∃ rule held, Matches tenant rules now subject service object action rule held ∧
        rule.id = id ∧ held.subject = holder ∧ held.effect = effect := by
    funext id holder effect
    exact propext (decides_iff_of_build built)
  rwa [same] at ruling

/-- Ann is a reader, and readers read orders. -/
def readerRules : List Rule :=
  [{ Rule.ofGrouping ⟨1⟩ "orders" "g" "ann" "reader" .epoch with id := ⟨1⟩ },
    { Rule.ofPermission ⟨1⟩ "orders" ⟨"reader", "*", "read", .allow⟩ .epoch with id := ⟨2⟩ }]

theorem ruling_of_readerRules : (∀ rule ∈ readerRules, rule.closes) ∧ ∃ evaluator,
    build ⟨1⟩ readerRules .epoch = .ok evaluator ∧
      Ruling (fun id holder effect => ∃ rule held,
        Matches ⟨1⟩ readerRules .epoch "ann" "orders" "/orders/7" "read" rule held ∧
          rule.id = id ∧ held.subject = holder ∧ held.effect = effect) "ann"
        (evaluator.enforce "ann" "orders" "/orders/7" "read") :=
  have closing : ∀ rule ∈ readerRules, rule.closes := by decide
  ⟨closing, ruling_of_rules closing ⟨1⟩ .epoch "ann" "orders" "/orders/7" "read"⟩

end Evaluator

end AccessPolicy
