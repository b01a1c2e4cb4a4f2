import AccessPolicy.Proofs.Engine.Check

/-!
Asking again as the roles of a subject. What speaks of a role speaks of everyone who has it, so no role
is allowed what its subject is not, and the only thing that the roles add to a decision is the name of
the role that it was granted through.
-/
namespace AccessPolicy

namespace Evaluator

variable {evaluator : Evaluator} {subject role service object action holder : String} {id : RuleId}
variable {effect : Effect}

theorem Decides.inherited (reaches : evaluator.Reaches .roles subject role)
    (decides : evaluator.Decides role service object action id holder effect) :
    evaluator.Decides subject service object action id holder effect := by
  obtain ⟨grant, held, speaks, named, effective⟩ := decides
  have further : evaluator.Reaches .roles subject grant.subject :=
    Relation.ReflTransGen.trans reaches speaks.holder
  exact ⟨grant, held, ⟨further, speaks.service, speaks.object, speaks.action⟩, named, effective⟩

/-- A role of a subject that nothing is said of is not allowed either. -/
theorem enforce_role_refused (member : role ∈ evaluator.rolesOf subject)
    (refused : (evaluator.enforce subject service object action).allowed = false)
    (undenied : (evaluator.enforce subject service object action).explicitDeny = false) :
    (evaluator.enforce role service object action).allowed = false := by
  have ruling := ruling_enforce evaluator subject service object action
  have reaches : evaluator.Reaches .roles subject role := (Hierarchy.mem_reach_iff.mp member).2
  have no_deny : ¬ ∃ id holder, evaluator.Decides subject service object action id holder .deny := by
    rw [← ruling.explicitDeny_iff, undenied]
    exact Bool.false_ne_true
  have no_allow : ¬ ∃ id holder,
      evaluator.Decides subject service object action id holder .allow := by
    intro some_allow
    have allowed := ruling.allowed_iff.mpr ⟨some_allow, no_deny⟩
    rw [refused] at allowed
    cases allowed
  rw [Bool.eq_false_iff, ne_eq, (ruling_enforce evaluator role service object action).allowed_iff]
  rintro ⟨⟨id, holder, decides⟩, _⟩
  exact no_allow ⟨id, holder, decides.inherited reaches⟩

end Evaluator

namespace Decision

theorem allowed_ofEvaluation (evaluation : Evaluation) :
    (ofEvaluation evaluation).allowed = evaluation.allowed := by
  unfold ofEvaluation
  split
  · rename_i allowed
    exact allowed.symm
  · rename_i refused
    rw [Bool.not_eq_true] at refused
    split <;> exact refused.symm

theorem explicitDeny_ofEvaluation (evaluation : Evaluation) :
    (ofEvaluation evaluation).explicitDeny = evaluation.explicitDeny := by
  unfold ofEvaluation
  split
  · rfl
  · split <;> rfl

theorem grantedVia_ofEvaluation (evaluation : Evaluation) :
    (ofEvaluation evaluation).grantedVia = evaluation.grantedVia := by
  unfold ofEvaluation
  split
  · rfl
  · split <;> rfl

end Decision

namespace Engine

theorem nameRole_of_none {decision : Decision} (alone : decision.grantedVia = none) :
    nameRole decision = decision := by
  unfold nameRole
  rw [alone]

/-- Naming the role changes the applied rules alone. -/
theorem nameRole_of_some {decision : Decision} {role : String}
    (via : decision.grantedVia = some role) : nameRole decision = { decision with
      appliedRules := if role ∈ decision.appliedRules then decision.appliedRules
        else decision.appliedRules ++ [role] } := by
  have named : nameRole decision = if role ∈ decision.appliedRules then decision
      else { decision with appliedRules := decision.appliedRules ++ [role] } := by
    unfold nameRole
    rw [via]
  rw [named]
  split <;> rfl

end Engine

namespace Evaluator

variable {evaluator : Evaluator} {superadmin : String} {request : CheckRequest}

theorem verdict_of_ordinary (ordinary : superadmin ∉ request.callerRoles) :
    evaluator.verdict superadmin request = evaluator.ruled request := by
  have unasked : request.callerRoles.contains superadmin = false := by
    rw [Bool.eq_false_iff, ne_eq, List.contains_iff_mem]
    exact ordinary
  unfold verdict
  rw [unasked]
  exact Decision.unmarked_ofEvaluation _

/-- A grant that the subject holds itself allows the request. -/
def GrantsDirectly (evaluator : Evaluator) (request : CheckRequest) : Prop :=
  ∃ id, evaluator.Decides request.subject request.service request.object request.action id
    request.subject .allow

/-- The first role, by name, of those that hold a grant that allows the request. -/
structure GrantsThrough (evaluator : Evaluator) (request : CheckRequest) (role : String) : Prop where
  member : role ∈ evaluator.rolesOf request.subject
  holds : ∃ id, evaluator.Decides request.subject request.service request.object request.action id
    role .allow
  first : ∀ id holder, evaluator.Decides request.subject request.service request.object
    request.action id holder .allow → ¬ holder < role

theorem grantedVia_ruled_iff {role : String} :
    (evaluator.ruled request).grantedVia = some role ↔ (evaluator.ruled request).allowed = true ∧
      ¬ evaluator.GrantsDirectly request ∧ evaluator.GrantsThrough request role := by
  have ruling := ruling_enforce evaluator request.subject request.service request.object
    request.action
  unfold ruled
  rw [Decision.grantedVia_ofEvaluation, Decision.allowed_ofEvaluation, ruling.grantedVia_iff]
  apply and_congr_right
  intro _
  constructor
  · rintro ⟨⟨id, decides⟩, away⟩
    obtain ⟨grant, held, speaks, named, effective⟩ := decides
    have reached : evaluator.Reaches .roles request.subject role := named ▸ speaks.holder
    have apart := (away id role ⟨grant, held, speaks, named, effective⟩).1
    refine ⟨fun ⟨other, direct⟩ => (away other request.subject direct).1 rfl, ?_, ?_, ?_⟩
    · exact Hierarchy.mem_reach_iff.mpr ⟨apart, reached⟩
    · exact ⟨id, grant, held, speaks, named, effective⟩
    · exact fun other holder decidesToo => (away other holder decidesToo).2
  · rintro ⟨indirect, through⟩
    refine ⟨through.holds, fun id holder decides => ⟨?_, through.first id holder decides⟩⟩
    rintro rfl
    exact indirect ⟨id, decides⟩

/-- What is allowed to a subject that holds no allow itself is granted through a role. -/
theorem exists_grantedVia (allowed : (evaluator.ruled request).allowed = true)
    (indirect : ¬ evaluator.GrantsDirectly request) :
    ∃ role, (evaluator.ruled request).grantedVia = some role := by
  have ruling := ruling_enforce evaluator request.subject request.service request.object
    request.action
  unfold ruled at allowed ⊢
  rw [Decision.allowed_ofEvaluation] at allowed
  rw [Decision.grantedVia_ofEvaluation]
  obtain ⟨⟨id, holder, decides⟩, _⟩ := ruling.allowed_iff.mp allowed
  obtain ⟨role, least⟩ := Ascending.exists_least?
    (List.ne_nil_of_mem (mem_holders_iff.mpr ⟨id, decides⟩))
  rw [Ascending.least?_eq_some_iff, mem_holders_iff] at least
  refine ⟨role, (ruling.grantedVia_iff role).mpr ⟨allowed, least.1, ?_⟩⟩
  intro other holderToo decidesToo
  refine ⟨?_, least.2 holderToo (mem_holders_iff.mpr ⟨other, decidesToo⟩)⟩
  rintro rfl
  exact indirect ⟨other, decidesToo⟩

/-- Asking as the roles never gives an answer of its own. -/
theorem roleVerdict?_eq_none (refused : (evaluator.ruled request).allowed = false)
    (undenied : (evaluator.ruled request).explicitDeny = false) :
    evaluator.roleVerdict? superadmin request (evaluator.rolesOf request.subject) = none := by
  unfold roleVerdict?
  rw [Option.map_eq_none_iff, List.find?_eq_none]
  intro role member
  rw [verdict_of_ordinary List.not_mem_nil, Bool.not_eq_true]
  unfold ruled at refused undenied ⊢
  rw [Decision.allowed_ofEvaluation] at refused ⊢
  rw [Decision.explicitDeny_ofEvaluation] at undenied
  exact enforce_role_refused member refused undenied

/-- The decision by the subject and its roles is the one by the subject, with the role named. -/
theorem expandedVerdict_eq_nameRole (ordinary : superadmin ∉ request.callerRoles) :
    evaluator.expandedVerdict superadmin request = Engine.nameRole (evaluator.ruled request) := by
  unfold expandedVerdict
  dsimp only
  rw [verdict_of_ordinary ordinary]
  have granted := (ruling_enforce evaluator request.subject request.service request.object
    request.action).grantedVia_iff
  -- Without an allow no role is named.
  have unnamed (refused : (evaluator.ruled request).allowed = false) :
      Engine.nameRole (evaluator.ruled request) = evaluator.ruled request := by
    unfold ruled at refused ⊢
    rw [Decision.allowed_ofEvaluation] at refused
    have alone : (Decision.ofEvaluation (evaluator.enforce request.subject request.service
        request.object request.action)).grantedVia = none := by
      rw [Decision.grantedVia_ofEvaluation, Option.eq_none_iff_forall_ne_some]
      intro role via
      have allowed := ((granted role).mp via).1
      rw [refused] at allowed
      cases allowed
    exact Engine.nameRole_of_none alone
  cases allowed : (evaluator.ruled request).allowed with
  | true => rfl
  | false =>
    rw [unnamed allowed]
    cases denied : (evaluator.ruled request).explicitDeny with
    | true => rfl
    | false =>
      rw [roleVerdict?_eq_none allowed denied]
      rfl

end Evaluator

end AccessPolicy
