import AccessPolicy.Evaluator.Verdict
import AccessPolicy.Proofs.Evaluator.Holdings
import AccessPolicy.Proofs.Identifier

/-!
What an evaluator answers, in terms of what it holds. A verdict depends on the grants that speak of
the request alone, as a set, and on nothing else but the evaluator's bound.
-/
namespace AccessPolicy

namespace Evaluator

/-- A grant speaks of a request when its subject is the request's or one of its roles, and its
service, object and action cover the request's. -/
structure Speaks (evaluator : Evaluator) (subject service object action : String)
    (grant : Grant) : Prop where
  holder : evaluator.Reaches .roles subject grant.subject
  service : grant.service = service ∨ grant.service = "*"
  object : grant.object = "*" ∨ ObjectPattern.accepts grant.object object = true ∨
    grant.object ≠ object ∧ evaluator.Reaches .resources object grant.object
  action : grant.action = action ∨ grant.action = "*"

/-- A rule's grant that speaks of a request, by its holder and effect. -/
def Decides (evaluator : Evaluator) (subject service object action : String) (id : RuleId)
    (holder : String) (effect : Effect) : Prop :=
  ∃ grant, evaluator.Holds (.grant grant) id ∧
    evaluator.Speaks subject service object action grant ∧ grant.subject = holder ∧
      grant.effect = effect

end Evaluator

/-- What is ruled when a deny overrides every allow: `matching` says which rules give which holders
which effect. -/
structure Ruling (matching : RuleId → String → Effect → Prop) (subject : String)
    (evaluation : Evaluation) : Prop where
  allowed_iff : evaluation.allowed = true ↔
    (∃ id holder, matching id holder .allow) ∧ ¬ ∃ id holder, matching id holder .deny
  explicitDeny_iff : evaluation.explicitDeny = true ↔ ∃ id holder, matching id holder .deny
  ascending : evaluation.matchedRules.Pairwise (· < ·)
  mem_matchedRules_iff : ∀ id, id ∈ evaluation.matchedRules ↔
    ∃ holder, matching id holder (if evaluation.explicitDeny then .deny else .allow)
  grantedVia_iff : ∀ role, evaluation.grantedVia = some role ↔ evaluation.allowed = true ∧
    (∃ id, matching id role .allow) ∧
      ∀ id holder, matching id holder .allow → holder ≠ subject ∧ ¬ holder < role

namespace Evaluator

variable {evaluator : Evaluator} {subject service object action : String}

theorem covers_iff {grant : Grant} :
    grant.covers (subject :: evaluator.rolesOf subject) service object
        (evaluator.groupsOf object) action = true ↔
      evaluator.Speaks subject service object action grant := by
  have holder : (subject :: evaluator.rolesOf subject).contains grant.subject = true ↔
      evaluator.Reaches .roles subject grant.subject := by
    rw [List.contains_iff_mem]
    exact Hierarchy.mem_cons_reach_iff
  have groups : (evaluator.groupsOf object).contains grant.object = true ↔
      grant.object ≠ object ∧ evaluator.Reaches .resources object grant.object := by
    rw [List.contains_iff_mem]
    exact Hierarchy.mem_reach_iff
  simp only [Grant.covers, Grant.coversService, Grant.coversObject, Grant.coversAction,
    Bool.and_eq_true, Bool.or_eq_true, decide_eq_true_eq, holder, groups]
  constructor
  · rintro ⟨⟨⟨first, second⟩, third⟩, fourth⟩
    exact ⟨first, second, by rwa [or_assoc] at third, fourth⟩
  · rintro ⟨first, second, third, fourth⟩
    exact ⟨⟨⟨first, second⟩, by rwa [or_assoc]⟩, fourth⟩

theorem mem_matching_iff {grant : Grant} {id : RuleId} :
    (grant, id) ∈ evaluator.matching subject service object action ↔
      evaluator.Holds (.grant grant) id ∧
        evaluator.Speaks subject service object action grant := by
  rw [matching, List.mem_filter, covers_iff]
  rfl

theorem mem_ofEffect_iff {effect : Effect} {grant : Grant} {id : RuleId} :
    (grant, id) ∈ ofEffect effect (evaluator.matching subject service object action) ↔
      (evaluator.Holds (.grant grant) id ∧
        evaluator.Speaks subject service object action grant) ∧ grant.effect = effect := by
  rw [ofEffect, List.mem_filter, mem_matching_iff, decide_eq_true_eq]

theorem ofEffect_ne_nil_iff {effect : Effect} :
    ofEffect effect (evaluator.matching subject service object action) ≠ [] ↔
      ∃ id holder, evaluator.Decides subject service object action id holder effect := by
  constructor
  · intro nonempty
    obtain ⟨⟨grant, id⟩, present⟩ := List.exists_mem_of_ne_nil _ nonempty
    obtain ⟨⟨held, speaks⟩, same⟩ := mem_ofEffect_iff.mp present
    exact ⟨id, grant.subject, grant, held, speaks, rfl, same⟩
  · rintro ⟨id, holder, grant, held, speaks, _, same⟩
    exact List.ne_nil_of_mem (mem_ofEffect_iff.mpr ⟨⟨held, speaks⟩, same⟩)

theorem mem_ruleIds_ofEffect_iff {effect : Effect} {id : RuleId} :
    id ∈ ruleIds (ofEffect effect (evaluator.matching subject service object action)) ↔
      ∃ holder, evaluator.Decides subject service object action id holder effect := by
  rw [ruleIds, Ascending.mem_ofList_iff, List.mem_map]
  constructor
  · rintro ⟨⟨grant, _⟩, present, rfl⟩
    obtain ⟨⟨held, speaks⟩, same⟩ := mem_ofEffect_iff.mp present
    exact ⟨grant.subject, grant, held, speaks, rfl, same⟩
  · rintro ⟨holder, grant, held, speaks, _, same⟩
    exact ⟨(grant, id), mem_ofEffect_iff.mpr ⟨⟨held, speaks⟩, same⟩, rfl⟩

theorem mem_holders_iff {effect : Effect} {holder : String} :
    holder ∈ (ofEffect effect (evaluator.matching subject service object action)).map
        (·.1.subject) ↔
      ∃ id, evaluator.Decides subject service object action id holder effect := by
  rw [List.mem_map]
  constructor
  · rintro ⟨⟨grant, id⟩, present, rfl⟩
    obtain ⟨⟨held, speaks⟩, same⟩ := mem_ofEffect_iff.mp present
    exact ⟨id, grant, held, speaks, rfl, same⟩
  · rintro ⟨id, grant, held, speaks, rfl, same⟩
    exact ⟨(grant, id), mem_ofEffect_iff.mpr ⟨⟨held, speaks⟩, same⟩, rfl⟩

/-- Every evaluator rules by deny-overrides over the grants that it holds. -/
theorem ruling_enforce (evaluator : Evaluator) (subject service object action : String) :
    Ruling (evaluator.Decides subject service object action) subject
      (evaluator.enforce subject service object action) := by
  have denied := @ofEffect_ne_nil_iff evaluator subject service object action .deny
  have allowed := @ofEffect_ne_nil_iff evaluator subject service object action .allow
  unfold enforce
  by_cases denies : ofEffect .deny (evaluator.matching subject service object action) ≠ []
  · have some_deny := denied.mp denies
    simp only [denies, ne_eq, not_false_eq_true, if_true]
    refine ⟨?_, ?_, Ascending.pairwise_ofList _, fun id => mem_ruleIds_ofEffect_iff, ?_⟩
    · simp [some_deny]
    · simp [some_deny]
    · simp
  · have no_deny : ¬ ∃ id holder,
        evaluator.Decides subject service object action id holder .deny :=
      fun deny => denies (denied.mpr deny)
    simp only [denies, if_false]
    by_cases allows : ofEffect .allow (evaluator.matching subject service object action) = []
    · have no_allow : ¬ ∃ id holder,
          evaluator.Decides subject service object action id holder .allow :=
        fun allow => allowed.mpr allow allows
      simp only [allows, if_true]
      refine ⟨?_, ?_, List.Pairwise.nil, ?_, ?_⟩
      · simp [no_allow]
      · simp [no_deny]
      · intro id
        simp only [List.not_mem_nil, false_iff, Bool.false_eq_true, if_false]
        rintro ⟨holder, allow⟩
        exact no_allow ⟨id, holder, allow⟩
      · simp
    · have some_allow := allowed.mp allows
      simp only [allows, if_false]
      refine ⟨?_, ?_, Ascending.pairwise_ofList _, fun id => mem_ruleIds_ofEffect_iff, ?_⟩
      · simp [some_allow, no_deny]
      · simp [no_deny]
      · intro role
        have direct := @mem_holders_iff evaluator subject service object action .allow subject
        simp only [true_and]
        split
        · rename_i held
          obtain ⟨id, deciding⟩ := direct.mp held
          simp only [reduceCtorEq, false_iff, not_and]
          intro _ away
          exact (away id subject deciding).1 rfl
        · rename_i not_held
          rw [Ascending.least?_eq_some_iff, mem_holders_iff]
          apply and_congr_right
          intro _
          constructor
          · intro minimal id holder deciding
            have member := mem_holders_iff.mpr ⟨id, deciding⟩
            refine ⟨?_, minimal holder member⟩
            rintro rfl
            exact not_held member
          · intro away holder member
            obtain ⟨id, deciding⟩ := mem_holders_iff.mp member
            exact (away id holder deciding).2

/-- Verdicts agree, bounds aside, when the same grants speak of the request. -/
theorem enforce_congr {one other : Evaluator}
    (same : ∀ grant id, (grant, id) ∈ one.matching subject service object action ↔
      (grant, id) ∈ other.matching subject service object action) :
    one.enforce subject service object action =
      { other.enforce subject service object action with validUntil := one.nextTransition } := by
  have entries (effect : Effect) (entry : Grant × RuleId) :
      entry ∈ ofEffect effect (one.matching subject service object action) ↔
        entry ∈ ofEffect effect (other.matching subject service object action) := by
    simp only [ofEffect, List.mem_filter, same entry.1 entry.2]
  have images {β : Type} (effect : Effect) (view : Grant × RuleId → β) (value : β) :
      value ∈ (ofEffect effect (one.matching subject service object action)).map view ↔
        value ∈ (ofEffect effect (other.matching subject service object action)).map view := by
    simp only [List.mem_map, entries effect]
  have empty (effect : Effect) :
      ofEffect effect (one.matching subject service object action) = [] ↔
        ofEffect effect (other.matching subject service object action) = [] := by
    simp only [List.eq_nil_iff_forall_not_mem, entries effect]
  have ids (effect : Effect) :
      ruleIds (ofEffect effect (one.matching subject service object action)) =
        ruleIds (ofEffect effect (other.matching subject service object action)) :=
    Ascending.ofList_congr (images effect Prod.snd)
  have least := Ascending.least?_congr (images .allow (·.1.subject))
  unfold enforce
  simp only [ne_eq, empty, ids, images .allow (·.1.subject) subject, least]
  split
  · rfl
  · split <;> rfl

end Evaluator

end AccessPolicy
