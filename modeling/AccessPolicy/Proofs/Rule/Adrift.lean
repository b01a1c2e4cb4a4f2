import AccessPolicy.Proofs.Evaluator.Lasting

/-!
Rules adrift: two lists of rules that are alike but for some excused rules, as those by which an
evaluator decides and those that are stored are while a write is on its way from the one to the other.
-/
namespace AccessPolicy

/-- Rules have distinct ids. -/
def Single (rules : List Rule) : Prop :=
  ∀ one ∈ rules, ∀ other ∈ rules, one.id = other.id → one = other

theorem Single.filter {rules : List Rule} (single : Single rules) (chosen : Rule → Bool) :
    Single (rules.filter chosen) := by
  intro one member other memberToo
  exact single one (List.mem_filter.mp member).1 other (List.mem_filter.mp memberToo).1

/-- Each rule of the one list is alike one of the other, unless it is excused. -/
structure Adrift (excused : Rule → Prop) (now : Instant) (rules others : List Rule) : Prop where
  forth : ∀ rule ∈ rules, ¬ excused rule → ∃ other ∈ others, rule.Alike now other
  back : ∀ other ∈ others, ¬ excused other → ∃ rule ∈ rules, rule.Alike now other

/-- Whether a rule is excused depends on nothing but what is alike. -/
def Fair (excused : Rule → Prop) (now : Instant) : Prop :=
  ∀ one other : Rule, one.Alike now other → excused one → excused other

/-- The rule is alike one of the listed rules. -/
def Named (listed : List Rule) (now : Instant) (rule : Rule) : Prop :=
  ∃ other ∈ listed, other.Alike now rule

namespace Adrift

variable {excused more : Rule → Prop} {now : Instant} {rules others last : List Rule}

theorem refl (excused : Rule → Prop) (now : Instant) (rules : List Rule) :
    Adrift excused now rules rules :=
  ⟨fun rule member _ => ⟨rule, member, .refl rule now⟩,
    fun rule member _ => ⟨rule, member, .refl rule now⟩⟩

theorem of_alike (alike : AlikeRules now rules others) (excused : Rule → Prop) :
    Adrift excused now rules others :=
  ⟨fun rule member _ => alike.forth rule member, fun other member _ => alike.back other member⟩

theorem of_mem_iff (same : ∀ rule, ¬ excused rule → (rule ∈ rules ↔ rule ∈ others)) :
    Adrift excused now rules others :=
  ⟨fun rule member strict => ⟨rule, (same rule strict).mp member, .refl rule now⟩,
    fun rule member strict => ⟨rule, (same rule strict).mpr member, .refl rule now⟩⟩

theorem mono (adrift : Adrift excused now rules others)
    (less : ∀ rule, rule ∈ rules ∨ rule ∈ others → excused rule → more rule) :
    Adrift more now rules others := by
  constructor
  · intro rule member strict
    exact adrift.forth rule member fun pardon => strict (less rule (Or.inl member) pardon)
  · intro other member strict
    exact adrift.back other member fun pardon => strict (less other (Or.inr member) pardon)

theorem alike (adrift : Adrift excused now rules others) (none_excused : ∀ rule, ¬ excused rule) :
    AlikeRules now rules others :=
  ⟨fun rule member => adrift.forth rule member (none_excused rule),
    fun other member => adrift.back other member (none_excused other)⟩

theorem trans (adrift : Adrift excused now rules others) (fair : Fair excused now)
    (next : Adrift excused now others last) : Adrift excused now rules last where
  forth := by
    intro rule member strict
    obtain ⟨other, present, same⟩ := adrift.forth rule member strict
    obtain ⟨final, last_present, same_next⟩ :=
      next.forth other present fun pardon => strict (fair other rule same.symm pardon)
    exact ⟨final, last_present, same.trans same_next⟩
  back := by
    intro final member strict
    obtain ⟨other, present, same_next⟩ := next.back final member strict
    obtain ⟨rule, first_present, same⟩ :=
      adrift.back other present fun pardon => strict (fair other final same_next pardon)
    exact ⟨rule, first_present, same.trans same_next⟩

end Adrift

section Named

variable {listed more : List Rule} {now : Instant}

theorem fair_named (listed : List Rule) (now : Instant) : Fair (Named listed now) now := by
  intro one other same ⟨rule, member, alike⟩
  exact ⟨rule, member, alike.trans same⟩

theorem Named.mono {rule : Rule} (named : Named listed now rule) (less : ∀ rule ∈ listed, rule ∈ more) :
    Named more now rule := by
  obtain ⟨other, member, alike⟩ := named
  exact ⟨other, less other member, alike⟩

theorem not_named_nil (rule : Rule) : ¬ Named [] now rule := by
  intro ⟨_, member, _⟩
  cases member

end Named

namespace Evaluator

variable {rules others : List Rule} {now : Instant} {subject : String}
variable {bound : Option Instant} {answer : Evaluator → Prop} {excused : Rule → Prop}

/-- An answer by rules that are adrift lasts by the others too, if no excused rule concerns it. -/
theorem Lasting.adrift (lasting : Lasting rules now subject bound answer)
    (shared : LocalTo subject answer) (adrift : Adrift excused now rules others)
    (unconcerned : ∀ rule, excused rule →
      ¬ rule.Concerns ((exact others now).Reaches .roles subject)) :
    Lasting others now subject bound answer := by
  intro before
  obtain ⟨right, steady⟩ := lasting before
  have strict {rule : Rule} (concerned : rule.Concerns ((exact others now).Reaches .roles subject)) :
      ¬ excused rule := fun pardon => unconcerned rule pardon concerned
  have order := Instant.le_refl now
  have agree : (exact others now).AgreeOn (exact rules now)
      ((exact others now).Reaches .roles subject) := by
    apply exact_agreeOn_exact
    · intro other member concerned compiled id makes
      obtain ⟨rule, present, same⟩ := adrift.back other member (strict concerned)
      exact ⟨rule, present, same.symm.makes order makes⟩
    · intro rule member concerned compiled id makes
      obtain ⟨other, present, same⟩ := adrift.forth rule member (strict concerned)
      exact ⟨other, present, same.makes order makes⟩
  refine ⟨shared _ _ agree.comm right, ?_⟩
  intro other member concerned
  obtain ⟨rule, present, same⟩ := adrift.back other member (strict concerned)
  have reached : rule.Concerns ((exact rules now).Reaches .roles subject) :=
    same.concerns_iff.mpr fun name about => (agree.reaches name).mp (concerned name about)
  exact same.steady (steady rule present reached)

end Evaluator

end AccessPolicy
