import AccessPolicy.Engine.Write
import AccessPolicy.Proofs.Evaluator.Holdings
import AccessPolicy.Proofs.Evaluator.Locality

/-!
Whom a rule concerns: the subject whose cached decisions are dropped when the rule changes is the
one that its grant or its membership is about. Rules that are alike from an instant on make the same
and concern the same.
-/
namespace AccessPolicy

namespace Rule

/-- A change of the rule concerns one of the names, or everyone. -/
def Concerns (rule : Rule) (names : String → Prop) : Prop :=
  ∀ subject ∈ Engine.affectedSubject? rule, names subject

theorem relation_eq_role_iff {rule : Rule} {link : Grouping} (read : rule.kind = .ok (.grouping link)) :
    link.relation = .role ↔ link.relation.name = "g" := by
  constructor
  · intro role
    rw [role]
    rfl
  · intro named
    unfold kind at read
    split at read
    · split at read <;> cases read
    · split at read
      · rename_i relation known
        cases read
        unfold Relation.ofTypeName? at known
        split at known
        · cases known
          rfl
        · rename_i other
          split at known
          · split at known
            · cases known
              exact absurd (Or.inl named) other
            · cases known
          · cases known
      · cases read

theorem concern_of_compile {rule : Rule} {compiled : Compiled}
    (compiles : rule.compile = .ok compiled) :
    compiled.concern = Engine.affectedSubject? rule := by
  unfold compile at compiles
  unfold Engine.affectedSubject?
  cases read : rule.kind with
  | error fault => simp [read] at compiles
  | ok kind =>
    cases kind with
    | permission held =>
      simp only [read] at compiles
      split at compiles
      · cases compiles
      · cases compiles
        rfl
    | grouping link =>
      simp only [read, Relation.tree?] at compiles
      have role := relation_eq_role_iff read
      by_cases named : link.relation.name = "g"
      · simp only [named, if_true, Except.ok.injEq] at compiles
        subst compiles
        simp [Compiled.concern, role.mpr named]
      · have other : ¬ link.relation = .role := fun same => named (role.mp same)
        simp only [named, if_false] at compiles
        split at compiles
        · rename_i tree found
          split at found
          · cases found
            cases compiles
            simp [Compiled.concern, other]
          · cases found
        · cases compiles

theorem Makes.concerns_iff {rule : Rule} {now : Instant} {compiled : Compiled} {id : RuleId}
    (makes : rule.Makes now compiled id) {names : String → Prop} :
    compiled.ConcernsAny names ↔ rule.Concerns names := by
  unfold Compiled.ConcernsAny Concerns
  rw [concern_of_compile makes.2.1]

/-- From an instant on the rules count at the same times and say the same. -/
structure Alike (now : Instant) (one other : Rule) : Prop where
  id : one.id = other.id
  tenant : one.tenant = other.tenant
  service : one.service = other.service
  kind : one.kind = other.kind
  active : ∀ later, now ≤ later → one.isActive later = other.isActive later

section Alike

variable {one other third : Rule} {now later : Instant}

theorem Alike.refl (rule : Rule) (now : Instant) : rule.Alike now rule :=
  ⟨rfl, rfl, rfl, rfl, fun _ _ => rfl⟩

theorem Alike.symm (alike : one.Alike now other) : other.Alike now one :=
  ⟨alike.id.symm, alike.tenant.symm, alike.service.symm, alike.kind.symm,
    fun later order => (alike.active later order).symm⟩

theorem Alike.trans (alike : one.Alike now other) (next : other.Alike now third) :
    one.Alike now third :=
  ⟨alike.id.trans next.id, alike.tenant.trans next.tenant, alike.service.trans next.service,
    alike.kind.trans next.kind,
    fun later order => (alike.active later order).trans (next.active later order)⟩

theorem Alike.compile (alike : one.Alike now other) : one.compile = other.compile := by
  unfold Rule.compile
  rw [alike.kind, alike.service]

theorem Alike.concerns_iff (alike : one.Alike now other) {names : String → Prop} :
    one.Concerns names ↔ other.Concerns names := by
  unfold Concerns Engine.affectedSubject?
  rw [alike.kind]

theorem Alike.makes (alike : one.Alike now other) (order : now ≤ later) {compiled : Compiled}
    {id : RuleId} (makes : one.Makes later compiled id) : other.Makes later compiled id :=
  ⟨(alike.active later order).symm.trans makes.1, alike.compile.symm.trans makes.2.1,
    alike.id.symm.trans makes.2.2⟩

theorem Alike.steady (alike : one.Alike now other) {bound : Option Instant}
    (steady : one.Steady now bound) : other.Steady now bound := by
  intro later ordinary order before
  rw [← alike.active later order, ← alike.active now (Instant.le_refl now)]
  exact steady later ordinary order before

end Alike

end Rule

/-- Each rule of the one list is alike one of the other, from an instant on. -/
structure AlikeRules (now : Instant) (rules others : List Rule) : Prop where
  forth : ∀ rule ∈ rules, ∃ other ∈ others, rule.Alike now other
  back : ∀ other ∈ others, ∃ rule ∈ rules, rule.Alike now other

namespace AlikeRules

variable {now : Instant} {rules others last : List Rule}

theorem refl (now : Instant) (rules : List Rule) : AlikeRules now rules rules :=
  ⟨fun rule member => ⟨rule, member, .refl rule now⟩,
    fun rule member => ⟨rule, member, .refl rule now⟩⟩

theorem symm (alike : AlikeRules now rules others) : AlikeRules now others rules where
  forth := fun other member => by
    obtain ⟨rule, present, same⟩ := alike.back other member
    exact ⟨rule, present, same.symm⟩
  back := fun rule member => by
    obtain ⟨other, present, same⟩ := alike.forth rule member
    exact ⟨other, present, same.symm⟩

theorem trans (alike : AlikeRules now rules others) (next : AlikeRules now others last) :
    AlikeRules now rules last where
  forth := fun rule member => by
    obtain ⟨other, present, same⟩ := alike.forth rule member
    obtain ⟨final, last_present, same_next⟩ := next.forth other present
    exact ⟨final, last_present, same.trans same_next⟩
  back := fun final member => by
    obtain ⟨other, present, same_next⟩ := next.back final member
    obtain ⟨rule, first_present, same⟩ := alike.back other present
    exact ⟨rule, first_present, same.trans same_next⟩

theorem filter_id (alike : AlikeRules now rules others) (id : RuleId) :
    AlikeRules now (rules.filter (·.id = id)) (others.filter (·.id = id)) where
  forth := fun rule member => by
    obtain ⟨listed, named⟩ := List.mem_filter.mp member
    obtain ⟨other, present, same⟩ := alike.forth rule listed
    exact ⟨other, List.mem_filter.mpr ⟨present, same.id ▸ named⟩, same⟩
  back := fun other member => by
    obtain ⟨listed, named⟩ := List.mem_filter.mp member
    obtain ⟨rule, present, same⟩ := alike.back other listed
    exact ⟨rule, List.mem_filter.mpr ⟨present, same.id ▸ named⟩, same⟩

/-- The rules under an id, if any, are alike one that is put in their place. -/
theorem restated {rule : Rule}
    (fresh : ∀ other ∈ rules, other.id = rule.id → other.Alike now rule) :
    AlikeRules now rules
      (rules.filter (·.id ≠ rule.id) ++ if rules.any (·.id = rule.id) then [rule] else []) where
  forth := fun other member => by
    by_cases named : other.id = rule.id
    · have found : rules.any (·.id = rule.id) = true :=
        List.any_eq_true.mpr ⟨other, member, by simpa using named⟩
      exact ⟨rule, by simp [found], fresh other member named⟩
    · exact ⟨other, by simp [member, named], .refl other now⟩
  back := fun other member => by
    rcases List.mem_append.mp member with kept | put
    · exact ⟨other, (List.mem_filter.mp kept).1, .refl other now⟩
    · split at put
      · rename_i found
        obtain ⟨first, listed, named⟩ := List.any_eq_true.mp found
        rw [List.mem_singleton.mp put]
        exact ⟨first, listed, fresh first listed (by simpa using named)⟩
      · cases put

end AlikeRules

end AccessPolicy
