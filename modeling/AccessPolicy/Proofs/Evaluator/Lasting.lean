import AccessPolicy.Engine.Check
import AccessPolicy.Proofs.Evaluator.Following

/-!
How long an answer about a subject lasts. Up to the bound of the evaluator that gave it, the answer
stays right while time passes and while rules change that do not concern a name which the subject
reaches.
-/
namespace AccessPolicy

namespace Evaluator

/-- Until the bound has come the answer is right, and the rules that concern what the subject
reaches start and stop to count no sooner. -/
def Lasting (rules : List Rule) (now : Instant) (subject : String) (bound : Option Instant)
    (answer : Evaluator → Prop) : Prop :=
  now.Before bound → answer (exact rules now) ∧
    ∀ rule ∈ rules, rule.Concerns ((exact rules now).Reaches .roles subject) →
      rule.Steady now bound

variable {rules others : List Rule} {now later : Instant} {subject : String}
variable {bound : Option Instant} {answer : Evaluator → Prop}

theorem exact_agreeOn_exact {names : String → Prop}
    (forth : ∀ rule ∈ rules, rule.Concerns names → ∀ compiled id, rule.Makes now compiled id →
      ∃ replacement ∈ others, replacement.Makes later compiled id)
    (back : ∀ rule ∈ others, rule.Concerns names → ∀ compiled id, rule.Makes later compiled id →
      ∃ replacement ∈ rules, replacement.Makes now compiled id) :
    (exact rules now).AgreeOn (exact others later) names :=
  (mirrors_exact rules now).agreeOn (mirrors_exact others later) forth back

theorem Lasting.after (lasting : Lasting rules now subject bound answer)
    (shared : LocalTo subject answer) (order : now ≤ later) (ordinary : later.isLeap = false) :
    Lasting rules later subject bound answer := by
  intro before
  obtain ⟨right, steady⟩ := lasting (before.of_le order)
  have unchanged (rule : Rule) (member : rule ∈ rules)
      (concerned : rule.Concerns ((exact rules now).Reaches .roles subject)) :
      rule.isActive later = rule.isActive now :=
    steady rule member concerned later ordinary order before
  have agree : (exact rules now).AgreeOn (exact rules later)
      ((exact rules now).Reaches .roles subject) := by
    apply exact_agreeOn_exact
    · intro rule member concerned compiled id makes
      exact ⟨rule, member, (unchanged rule member concerned).trans makes.1, makes.2⟩
    · intro rule member concerned compiled id makes
      exact ⟨rule, member, (unchanged rule member concerned).symm.trans makes.1, makes.2⟩
  refine ⟨shared _ _ agree right, fun rule member concerned => ?_⟩
  have reached : rule.Concerns ((exact rules now).Reaches .roles subject) :=
    fun name about => (agree.reaches name).mpr (concerned name about)
  exact (steady rule member reached).later order ordinary

theorem Lasting.alike (lasting : Lasting rules now subject bound answer)
    (shared : LocalTo subject answer) (alike : AlikeRules now rules others) :
    Lasting others now subject bound answer := by
  intro before
  obtain ⟨right, steady⟩ := lasting before
  have agree (names : String → Prop) : (exact rules now).AgreeOn (exact others now) names :=
    ((mirrors_exact rules now).alike alike).agree (mirrors_exact others now) names
  refine ⟨shared _ _ (agree _) right, fun other member concerned => ?_⟩
  obtain ⟨rule, present, same⟩ := alike.back other member
  refine same.steady (steady rule present (same.concerns_iff.mpr fun name about => ?_))
  exact ((agree _).reaches name).mpr (concerned name about)

theorem Lasting.imp {weaker : Evaluator → Prop} (lasting : Lasting rules now subject bound answer)
    (implies : ∀ evaluator, answer evaluator → weaker evaluator) :
    Lasting rules now subject bound weaker :=
  fun before => (lasting before).imp_left (implies _)

/-- A change of rules that do not concern what the subject reaches leaves its answers alone. -/
theorem Lasting.untouched (lasting : Lasting rules now subject bound answer)
    (shared : LocalTo subject answer)
    (gone : ∀ rule ∈ rules, rule ∉ others →
      ¬ rule.Concerns ((exact others now).Reaches .roles subject))
    (come : ∀ rule ∈ others, rule ∉ rules →
      ¬ rule.Concerns ((exact others now).Reaches .roles subject)) :
    Lasting others now subject bound answer := by
  intro before
  obtain ⟨right, steady⟩ := lasting before
  have kept {rule : Rule} (member : rule ∈ others)
      (concerned : rule.Concerns ((exact others now).Reaches .roles subject)) : rule ∈ rules :=
    Classical.byContradiction fun absent => come rule member absent concerned
  have agree : (exact others now).AgreeOn (exact rules now)
      ((exact others now).Reaches .roles subject) := by
    apply exact_agreeOn_exact
    · intro rule member concerned compiled id makes
      exact ⟨rule, kept member concerned, makes⟩
    · intro rule member concerned compiled id makes
      refine ⟨rule, Classical.byContradiction fun absent => ?_, makes⟩
      exact gone rule member absent concerned
  refine ⟨shared _ _ agree.comm right, fun rule member concerned => ?_⟩
  refine steady rule (kept member concerned) fun name about => ?_
  exact (agree.reaches name).mp (concerned name about)

/-- What an evaluator that follows the rules answers lasts until its next transition. -/
theorem Follows.lasting {evaluator : Evaluator} (follows : evaluator.Follows rules now)
    (shared : LocalTo subject answer) (right : answer evaluator) :
    Lasting rules now subject evaluator.nextTransition answer := by
  intro before
  have mirrors := follows.mirrors (isStale_eq_false_iff.mpr before)
  have agree := mirrors.agree (mirrors_exact rules now) (evaluator.Reaches .roles subject)
  exact ⟨shared _ _ agree right, fun rule member _ => follows.steady rule member⟩

/-- The decision of a request about a subject, apart from what the cache adds. -/
def Answers (about : DecisionSubject) (decision : Decision) (evaluator : Evaluator) : Prop :=
  decision = Decision.ofEvaluation
    (evaluator.enforce about.subject about.service about.object about.action)

theorem localTo_decision (about : DecisionSubject) (decision : Decision) :
    LocalTo about.subject (Answers about decision) := by
  rintro one other agree rfl
  unfold Answers
  rw [agree.enforce_eq]
  rfl

end Evaluator

end AccessPolicy
