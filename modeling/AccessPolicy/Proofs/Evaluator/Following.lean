import AccessPolicy.Proofs.Rule.Concern

/-!
Following the rules over time. An evaluator that follows a tenant's rules holds what they make now,
unless its next transition has come, and no rule starts or stops to count before that. It goes on
following them when time passes, and when a rule is added or taken out together with the evaluator.
-/
namespace AccessPolicy

namespace Evaluator

/-- Holds what the rules make now, and none of them starts or stops to count before the next
transition. A stale evaluator holds anything, and will be built anew. -/
structure Follows (evaluator : Evaluator) (rules : List Rule) (now : Instant) : Prop where
  steady : ∀ rule ∈ rules, rule.Steady now evaluator.nextTransition
  mirrors : evaluator.isStale now = false → evaluator.Mirrors rules now

variable {evaluator one other : Evaluator} {rules others : List Rule} {now later : Instant}

theorem isStale_eq_false_iff :
    evaluator.isStale now = false ↔ now.Before evaluator.nextTransition :=
  Instant.any_le_eq_false_iff

section Mirrors

/-- Evaluators agree when each rule that concerns the names makes the same for both. -/
theorem Mirrors.agreeOn {one other : Evaluator} {names : String → Prop}
    (mirrors : one.Mirrors rules now) (mirrorsOther : other.Mirrors others later)
    (forth : ∀ rule ∈ rules, rule.Concerns names → ∀ compiled id, rule.Makes now compiled id →
      ∃ replacement ∈ others, replacement.Makes later compiled id)
    (back : ∀ rule ∈ others, rule.Concerns names → ∀ compiled id, rule.Makes later compiled id →
      ∃ replacement ∈ rules, replacement.Makes now compiled id) : one.AgreeOn other names := by
  intro compiled id concerned
  rw [mirrors.holds_iff, mirrorsOther.holds_iff]
  constructor
  · rintro ⟨rule, member, makes⟩
    exact forth rule member (makes.concerns_iff.mp concerned) compiled id makes
  · rintro ⟨rule, member, makes⟩
    exact back rule member (makes.concerns_iff.mp concerned) compiled id makes

theorem Mirrors.agree (mirrors : one.Mirrors rules now) (mirrorsOther : other.Mirrors rules now)
    (names : String → Prop) : one.AgreeOn other names :=
  mirrors.agreeOn mirrorsOther (fun rule member _ _ _ makes => ⟨rule, member, makes⟩)
    (fun rule member _ _ _ makes => ⟨rule, member, makes⟩)

theorem Mirrors.alike (mirrors : evaluator.Mirrors rules now)
    (alike : AlikeRules now rules others) : evaluator.Mirrors others now := by
  refine ⟨mirrors.distinct, fun compiled id => ?_⟩
  rw [mirrors.holds_iff]
  constructor
  · rintro ⟨rule, member, makes⟩
    obtain ⟨other, present, same⟩ := alike.forth rule member
    exact ⟨other, present, same.makes (Instant.le_refl now) makes⟩
  · rintro ⟨other, member, makes⟩
    obtain ⟨rule, present, same⟩ := alike.back other member
    exact ⟨rule, present, same.symm.makes (Instant.le_refl now) makes⟩

theorem Mirrors.after (mirrors : evaluator.Mirrors rules now)
    (unchanged : ∀ rule ∈ rules, rule.isActive later = rule.isActive now) :
    evaluator.Mirrors rules later := by
  refine ⟨mirrors.distinct, fun compiled id => ?_⟩
  rw [mirrors.holds_iff]
  refine exists_congr fun rule => and_congr_right fun member => ?_
  unfold Rule.Makes
  rw [unchanged rule member]

/-- What the rules that count now make, compiled from scratch. -/
def exact (rules : List Rule) (now : Instant) : Evaluator :=
  (rules.filter (·.isActive now)).foldl (fun evaluator rule => (evaluator.insert rule).2)
    (bare ⟨0⟩ none now)

theorem mirrors_exact (rules : List Rule) (now : Instant) : (exact rules now).Mirrors rules now := by
  refine ⟨Distinct.foldl_insert ⟨List.nodup_nil, List.nodup_nil⟩ _, fun compiled id => ?_⟩
  have nothing : ¬ (bare ⟨0⟩ none now).Holds compiled id := by
    cases compiled <;> simp [bare, Holds]
  rw [exact, holds_foldl_insert, or_iff_right nothing]
  simp only [List.mem_filter, Rule.Makes]
  constructor
  · rintro ⟨rule, ⟨member, active⟩, made⟩
    exact ⟨rule, member, active, made⟩
  · rintro ⟨rule, member, active, made⟩
    exact ⟨rule, ⟨member, active⟩, made⟩

theorem Mirrors.enforce_eq (mirrors : one.Mirrors rules now)
    (mirrorsOther : other.Mirrors rules now) (subject service object action : String) :
    one.enforce subject service object action =
      { other.enforce subject service object action with validUntil := one.nextTransition } :=
  (mirrors.agree mirrorsOther _).enforce_eq

theorem Mirrors.rolesOf_eq (mirrors : one.Mirrors rules now)
    (mirrorsOther : other.Mirrors rules now) (subject : String) :
    one.rolesOf subject = other.rolesOf subject :=
  (mirrors.agree mirrorsOther _).rolesOf_eq

end Mirrors

section Follows

theorem follows_of_build {tenant : TenantId} (built : build tenant rules now = .ok evaluator) :
    evaluator.Follows (rules.filter (·.tenant = tenant)) now where
  steady := fun rule member =>
    steady_of_nextTransition (build_nextTransition built) rule (List.mem_filter.mp member).1
  mirrors := fun _ => mirrors_of_build built

/-- An evaluator that has just been built is not stale. -/
theorem isStale_of_build {tenant : TenantId} (built : build tenant rules now = .ok evaluator) :
    evaluator.isStale now = false :=
  isStale_eq_false_iff.mpr (before_nextTransition (build_nextTransition built))

theorem Follows.alike (follows : evaluator.Follows rules now)
    (alike : AlikeRules now rules others) : evaluator.Follows others now where
  steady := fun other member => by
    obtain ⟨rule, present, same⟩ := alike.back other member
    exact same.steady (follows.steady rule present)
  mirrors := fun fresh => (follows.mirrors fresh).alike alike

/-- Time takes an evaluator along up to its next transition. -/
theorem Follows.after (follows : evaluator.Follows rules now) (order : now ≤ later)
    (ordinary : later.isLeap = false) : evaluator.Follows rules later where
  steady := fun rule member => (follows.steady rule member).later order ordinary
  mirrors := fun fresh => by
    have before := isStale_eq_false_iff.mp fresh
    have fresh_now := isStale_eq_false_iff.mpr (before.of_le order)
    refine (follows.mirrors fresh_now).after fun rule member => ?_
    exact follows.steady rule member later ordinary order before

theorem mirrors_insert (mirrors : evaluator.Mirrors rules now) {rule : Rule}
    (added : ∀ other, other ∈ others ↔ other ∈ rules ∨ other = rule)
    (inserted : ∃ flag, (evaluator.insert rule).1 = .ok flag) (active : rule.isActive now = true) :
    (evaluator.insert rule).2.Mirrors others now := by
  refine ⟨mirrors.distinct.insert rule, fun compiled id => ?_⟩
  cases compiles : rule.compile with
  | error reason =>
    obtain ⟨flag, accepted⟩ := inserted
    rw [insert_of_error compiles] at accepted
    cases accepted
  | ok made =>
    rw [holds_insert compiles, mirrors.holds_iff]
    constructor
    · rintro (⟨other, member, makes⟩ | ⟨rfl, rfl⟩)
      · exact ⟨other, (added other).mpr (Or.inl member), makes⟩
      · exact ⟨rule, (added rule).mpr (Or.inr rfl), active, compiles, rfl⟩
    · rintro ⟨other, member, makes⟩
      rcases (added other).mp member with old | rfl
      · exact Or.inl ⟨other, old, makes⟩
      · obtain ⟨_, compiled_as, rfl⟩ := makes
        rw [compiles, Except.ok.injEq] at compiled_as
        exact Or.inr ⟨compiled_as.symm, rfl⟩

theorem mirrors_inactive (mirrors : evaluator.Mirrors rules now) {rule : Rule}
    (added : ∀ other, other ∈ others ↔ other ∈ rules ∨ other = rule)
    (inactive : rule.isActive now = false) : evaluator.Mirrors others now := by
  refine ⟨mirrors.distinct, fun compiled id => ?_⟩
  rw [mirrors.holds_iff]
  constructor
  · rintro ⟨other, member, makes⟩
    exact ⟨other, (added other).mpr (Or.inl member), makes⟩
  · rintro ⟨other, member, makes⟩
    rcases (added other).mp member with old | rfl
    · exact ⟨other, old, makes⟩
    · rw [makes.1] at inactive
      cases inactive

theorem mirrors_remove (mirrors : evaluator.Mirrors rules now) {rule : Rule}
    (single : ∀ one ∈ rules, ∀ other ∈ rules, one.id = other.id → one = other)
    (removed : ∀ other, other ∈ others ↔ other ∈ rules ∧ other.id ≠ rule.id) :
    (evaluator.remove rule).2.Mirrors others now := by
  have once (first second : Compiled) (held : evaluator.Holds first rule.id)
      (heldToo : evaluator.Holds second rule.id) : first = second := by
    obtain ⟨one, member, _, compiles, same⟩ := (mirrors.holds_iff _ _).mp held
    obtain ⟨other, memberToo, _, compilesToo, sameToo⟩ := (mirrors.holds_iff _ _).mp heldToo
    rw [single one member other memberToo (same.trans sameToo.symm), compilesToo] at compiles
    exact (Except.ok.inj compiles).symm
  refine ⟨mirrors.distinct.remove rule, fun compiled id => ?_⟩
  rw [holds_remove mirrors.distinct once, mirrors.holds_iff]
  constructor
  · rintro ⟨⟨other, member, makes⟩, away⟩
    exact ⟨other, (removed other).mpr ⟨member, by rwa [makes.2.2]⟩, makes⟩
  · rintro ⟨other, member, makes⟩
    obtain ⟨old, away⟩ := (removed other).mp member
    exact ⟨⟨other, old, makes⟩, by rwa [makes.2.2] at away⟩

/-- The evaluator, exact up to a bound at most. -/
def boundedBy (evaluator : Evaluator) (bound : Option Instant) : Evaluator :=
  { evaluator with nextTransition := Instant.earlier? evaluator.nextTransition bound }

theorem Mirrors.boundedBy (mirrors : evaluator.Mirrors rules now) (bound : Option Instant) :
    (evaluator.boundedBy bound).Mirrors rules now :=
  ⟨⟨mirrors.distinct.grants, mirrors.distinct.memberships⟩, mirrors.holds_iff⟩

theorem track_eq_ok {rule : Rule} (tracked : evaluator.track rule now = .ok other) :
    ∃ bound, rule.Steady now bound ∧ other = evaluator.boundedBy bound := by
  unfold track at tracked
  split at tracked
  · cases tracked
  · rename_i bound transition
    cases tracked
    exact ⟨bound, Rule.steady_of_transition transition, rfl⟩

theorem track_of_closes {rule : Rule} (closing : rule.closes) (evaluator : Evaluator)
    (now : Instant) : ∃ tracked, evaluator.track rule now = .ok tracked := by
  obtain ⟨bound, transition⟩ := Rule.transition_of_closes closing now
  exact ⟨_, by rw [track, transition]⟩

/-- A rule that is tracked, and held if it counts, is followed beside the others. -/
theorem Follows.add (follows : evaluator.Follows rules now) {rule : Rule} {tracked : Evaluator}
    (track : evaluator.track rule now = .ok tracked)
    (added : ∀ other, other ∈ others ↔ other ∈ rules ∨ other = rule) :
    (rule.isActive now = false → tracked.Follows others now) ∧
      (rule.isActive now = true → (∃ flag, (tracked.insert rule).1 = .ok flag) →
        (tracked.insert rule).2.Follows others now) := by
  obtain ⟨bound, steady, rfl⟩ := track_eq_ok track
  have steady_all : ∀ other ∈ others,
      other.Steady now (Instant.earlier? evaluator.nextTransition bound) := by
    intro other member
    rcases (added other).mp member with old | rfl
    · exact (follows.steady other old).earlier
    · exact steady.earlier'
  have mirrors (fresh : now.Before (Instant.earlier? evaluator.nextTransition bound)) :
      (evaluator.boundedBy bound).Mirrors rules now := by
    have before := (Instant.before_earlier?_iff.mp fresh).1
    exact (follows.mirrors (isStale_eq_false_iff.mpr before)).boundedBy bound
  constructor
  · intro inactive
    exact ⟨steady_all, fun fresh =>
      mirrors_inactive (mirrors (isStale_eq_false_iff.mp fresh)) added inactive⟩
  · intro active inserted
    refine ⟨fun other member => ?_, fun fresh => ?_⟩
    · rw [insert_nextTransition]
      exact steady_all other member
    · rw [isStale_eq_false_iff, insert_nextTransition] at fresh
      exact mirrors_insert (mirrors fresh) added inserted active

theorem Follows.remove (follows : evaluator.Follows rules now) {rule : Rule}
    (single : ∀ one ∈ rules, ∀ other ∈ rules, one.id = other.id → one = other)
    (removed : ∀ other, other ∈ others ↔ other ∈ rules ∧ other.id ≠ rule.id) :
    (evaluator.remove rule).2.Follows others now where
  steady := fun other member => by
    rw [remove_nextTransition]
    exact follows.steady other ((removed other).mp member).1
  mirrors := fun fresh => by
    rw [isStale_eq_false_iff, remove_nextTransition] at fresh
    exact mirrors_remove (follows.mirrors (isStale_eq_false_iff.mpr fresh)) single removed

/-- A rule that makes nothing now only has to be tracked. -/
theorem Follows.add_idle (follows : evaluator.Follows rules now) {rule : Rule} {tracked : Evaluator}
    (track : evaluator.track rule now = .ok tracked)
    (added : ∀ other, other ∈ others ↔ other ∈ rules ∨ other = rule)
    (idle : ∀ compiled id, ¬ rule.Makes now compiled id) : tracked.Follows others now := by
  obtain ⟨bound, steady, rfl⟩ := track_eq_ok track
  constructor
  · intro other member
    rcases (added other).mp member with old | rfl
    · exact (follows.steady other old).earlier
    · exact steady.earlier'
  · intro fresh
    have before := (Instant.before_earlier?_iff.mp (isStale_eq_false_iff.mp fresh)).1
    have mirrors := (follows.mirrors (isStale_eq_false_iff.mpr before)).boundedBy bound
    refine ⟨mirrors.distinct, fun compiled id => ?_⟩
    rw [mirrors.holds_iff]
    constructor
    · rintro ⟨other, member, makes⟩
      exact ⟨other, (added other).mpr (Or.inl member), makes⟩
    · rintro ⟨other, member, makes⟩
      rcases (added other).mp member with old | rfl
      · exact ⟨other, old, makes⟩
      · exact absurd makes (idle compiled id)

/-- A rule in place of those under its id, tracked and inserted if it counts, whether it is accepted
or not. -/
theorem Follows.put (follows : evaluator.Follows rules now) {rule : Rule}
    (fresh : ∀ other ∈ rules, other.id = rule.id → other.Alike now rule) {tracked : Evaluator}
    (track : evaluator.track rule now = .ok tracked) :
    (if rule.isActive now then (tracked.insert rule).2 else tracked).Follows
      (rules.filter (·.id ≠ rule.id) ++ [rule]) now := by
  let present := rules.filter (·.id ≠ rule.id) ++ if rules.any (·.id = rule.id) then [rule] else []
  have added : ∀ other, other ∈ rules.filter (·.id ≠ rule.id) ++ [rule] ↔
      other ∈ present ∨ other = rule := by
    intro other
    simp only [present, List.mem_append, List.mem_singleton]
    split <;> simp
  have start : evaluator.Follows present now := follows.alike (.restated fresh)
  by_cases active : rule.isActive now = true
  · rw [if_pos active]
    cases compiles : rule.compile with
    | ok made =>
      apply (start.add track added).2 active
      unfold insert
      rw [compiles]
      cases made <;> exact ⟨_, rfl⟩
    | error reason =>
      rw [insert_of_error compiles]
      apply start.add_idle track added
      intro compiled id makes
      have made := makes.2.1
      rw [compiles] at made
      cases made
  · rw [if_neg active]
    exact (start.add track added).1 (Bool.eq_false_iff.mpr active)

/-- Whether the names are known or not, nothing of the rule is left. -/
theorem Follows.without (follows : evaluator.Follows rules now)
    (single : ∀ one ∈ rules, ∀ other ∈ rules, one.id = other.id → one = other) (rule : Rule) :
    (evaluator.remove rule).2.Follows (rules.filter (·.id ≠ rule.id)) now :=
  follows.remove single (by simp)

end Follows

end Evaluator

end AccessPolicy
