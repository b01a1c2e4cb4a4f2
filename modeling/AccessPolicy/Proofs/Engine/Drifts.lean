import AccessPolicy.Proofs.Engine.WriteSteps
import AccessPolicy.Proofs.Rule.Adrift

/-!
The rules that an evaluator follows while registry calls are owed for its tenant: between the commit of
a write and its registry call they are the stored ones but for those under the id of the write. A call
that is made settles its debt, whatever else is owed; one that fails half-way leaves it.
-/
namespace AccessPolicy

namespace Owed

/-- The calendar has an instant after the window of the row, which replaces one under its id. -/
def Proper : Owed → Prop
  | add rule => rule.closes
  | replace previous current => current.closes ∧ previous.id = current.id
  | remove _ => True

/-- Stored under the id is what the commit has put there. -/
def Committed (owed : Owed) (now : Instant) (stored : List Rule) : Prop :=
  AlikeRules now owed.row?.toList (stored.filter (·.id = owed.id))

/-- The rules with the row in place of those under its id. -/
def settle (owed : Owed) (rules : List Rule) : List Rule :=
  rules.filter (·.id ≠ owed.id) ++ owed.row?.toList

variable {owed : Owed} {rules : List Rule} {row : Rule}

theorem id_of_row (committed : owed.row? = some row) : row.id = owed.id := by
  cases owed <;> cases committed <;> rfl

theorem tenant_of_row (committed : owed.row? = some row) : row.tenant = owed.tenant := by
  cases owed <;> cases committed <;> rfl

theorem mem_settle_iff : row ∈ owed.settle rules ↔
    row ∈ rules ∧ row.id ≠ owed.id ∨ owed.row? = some row := by
  simp [settle]

theorem single_settle (single : Single rules) : Single (owed.settle rules) := by
  intro one member other memberToo same
  rcases mem_settle_iff.mp member with ⟨old, away⟩ | put
  · rcases mem_settle_iff.mp memberToo with ⟨oldToo, _⟩ | putToo
    · exact single one old other oldToo same
    · exact absurd (same.trans (id_of_row putToo)) away
  · rcases mem_settle_iff.mp memberToo with ⟨_, awayToo⟩ | putToo
    · exact absurd (same.symm.trans (id_of_row put)) awayToo
    · rw [put] at putToo
      exact Option.some.inj putToo

end Owed

/-- A call is owed for a rule of the tenant. -/
def Pending (owes : Owed → Prop) (tenant : TenantId) (id : RuleId) : Prop :=
  ∃ owed, owes owed ∧ owed.tenant = tenant ∧ owed.id = id

/-- The rules that a tenant's evaluator follows while calls are owed: the stored ones, but for
excused rules under the ids that the calls are about. -/
structure Drifts (owes : Owed → Prop) (excused : Rule → Prop) (now : Instant) (tenant : TenantId)
    (rules stored : List Rule) : Prop where
  single : Single rules
  owned : ∀ rule ∈ rules, rule.tenant = tenant
  adrift : Adrift (fun rule => Pending owes tenant rule.id ∧ excused rule) now rules stored
  /-- A rule to be added is not there, unless the evaluator was built after the commit. -/
  fresh : ∀ rule, owes (.add rule) → rule.tenant = tenant → ∀ other ∈ rules, other.id = rule.id →
    other.Alike now rule

namespace Drifts

variable {owes fewer : Owed → Prop} {excused : Rule → Prop} {now : Instant} {tenant : TenantId}
variable {rules stored : List Rule} {owed : Owed}

/-- What is committed is stored. -/
def Honest (owes : Owed → Prop) (now : Instant) (tenant : TenantId) (stored : List Rule) : Prop :=
  ∀ owed, owes owed → owed.tenant = tenant → owed.Committed now stored

theorem alike_of_honest (honest : Honest owes now tenant stored) {rule other : Rule}
    (added : owes (.add rule)) (owned : rule.tenant = tenant) (member : other ∈ stored)
    (same : other.id = rule.id) : other.Alike now rule := by
  have listed : other ∈ stored.filter (·.id = rule.id) := by
    simp [member, same]
  obtain ⟨first, present, alike⟩ := (honest (.add rule) added owned).back other listed
  have first_eq : first = rule := List.mem_singleton.mp present
  exact first_eq ▸ alike.symm

theorem refl (honest : Honest owes now tenant stored) (single : Single stored)
    (owned : ∀ rule ∈ stored, rule.tenant = tenant) :
    Drifts owes excused now tenant stored stored :=
  ⟨single, owned, .refl _ now stored, fun _ added owned _ member same =>
    alike_of_honest honest added owned member same⟩

/-- A call that is made takes its debt away. -/
theorem settle (drifts : Drifts owes excused now tenant rules stored)
    (honest : Honest owes now tenant stored) (owned : owed.tenant = tenant) (due : owes owed)
    (less : ∀ other, fewer other → owes other) (rest : ∀ other, owes other → fewer other ∨ other = owed) :
    Drifts fewer excused now tenant (owed.settle rules) stored := by
  have committed := honest owed due owned
  have strict {rule : Rule} (away : rule.id ≠ owed.id)
      (unexcused : ¬ (Pending fewer tenant rule.id ∧ excused rule)) :
      ¬ (Pending owes tenant rule.id ∧ excused rule) := by
    rintro ⟨⟨other, owing, mine, same⟩, pardon⟩
    rcases rest other owing with still | made
    · exact unexcused ⟨⟨other, still, mine, same⟩, pardon⟩
    · rw [made] at same
      exact away same.symm
  refine ⟨Owed.single_settle drifts.single, ?_, ⟨?_, ?_⟩, ?_⟩
  · intro rule member
    rcases Owed.mem_settle_iff.mp member with ⟨old, _⟩ | put
    · exact drifts.owned rule old
    · exact (Owed.tenant_of_row put).trans owned
  · intro rule member unexcused
    rcases Owed.mem_settle_iff.mp member with ⟨old, away⟩ | put
    · exact drifts.adrift.forth rule old (strict away unexcused)
    · obtain ⟨other, present, alike⟩ := committed.forth rule (by simp [put])
      exact ⟨other, (List.mem_filter.mp present).1, alike⟩
  · intro other member unexcused
    by_cases same : other.id = owed.id
    · obtain ⟨row, put, alike⟩ := committed.back other (by simp [member, same])
      exact ⟨row, Owed.mem_settle_iff.mpr (Or.inr (by simpa using put)), alike⟩
    · obtain ⟨rule, old, alike⟩ := drifts.adrift.back other member (strict same unexcused)
      have away : rule.id ≠ owed.id := alike.id ▸ same
      exact ⟨rule, Owed.mem_settle_iff.mpr (Or.inl ⟨old, away⟩), alike⟩
  · intro rule added mine other member same
    rcases Owed.mem_settle_iff.mp member with ⟨old, _⟩ | put
    · exact drifts.fresh rule (less _ added) mine other old same
    · obtain ⟨row, present, alike⟩ := committed.forth other (by simp [put])
      have member := (List.mem_filter.mp present).1
      have row_same : row.id = rule.id := alike.id.symm.trans same
      exact alike.trans (alike_of_honest honest (less _ added) mine member row_same)

/-- A call that has failed half-way keeps its debt. -/
theorem without (drifts : Drifts owes excused now tenant rules stored)
    (honest : Honest owes now tenant stored) (fair : Fair excused now) (owned : owed.tenant = tenant)
    (due : owes owed) (pardoned : ∀ row, owed.row? = some row → excused row) :
    Drifts owes excused now tenant (rules.filter (·.id ≠ owed.id)) stored := by
  refine ⟨drifts.single.filter _, ?_, ⟨?_, ?_⟩, ?_⟩
  · exact fun rule member => drifts.owned rule (List.mem_filter.mp member).1
  · exact fun rule member => drifts.adrift.forth rule (List.mem_filter.mp member).1
  · intro other member unexcused
    obtain ⟨rule, old, alike⟩ := drifts.adrift.back other member unexcused
    have away : rule.id ≠ owed.id := by
      intro same
      obtain ⟨row, put, alike_row⟩ := (honest owed due owned).back other
        (by simp [member, alike.id.symm.trans same])
      have pardon := pardoned row (by simpa using put)
      exact unexcused ⟨⟨owed, due, owned, same.symm.trans alike.id⟩, fair row other alike_row pardon⟩
    exact ⟨rule, by simp [old, away], alike⟩
  · exact fun rule added mine other member =>
      drifts.fresh rule added mine other (List.mem_filter.mp member).1

/-- Calls for other tenants make no difference. -/
theorem elsewhere (drifts : Drifts owes excused now tenant rules stored)
    (less : ∀ other, fewer other → owes other)
    (rest : ∀ other, owes other → other.tenant = tenant → fewer other) :
    Drifts fewer excused now tenant rules stored := by
  refine ⟨drifts.single, drifts.owned, drifts.adrift.mono ?_, ?_⟩
  · rintro rule _ ⟨⟨other, owing, mine, same⟩, pardon⟩
    exact ⟨⟨other, rest other owing mine, mine, same⟩, pardon⟩
  · exact fun rule added => drifts.fresh rule (less _ added)

/-- Uses that are counted meanwhile make no difference. -/
theorem alike {others : List Rule} (drifts : Drifts owes excused now tenant rules stored)
    (fair : Fair excused now) (same : AlikeRules now stored others) :
    Drifts owes excused now tenant rules others := by
  refine ⟨drifts.single, drifts.owned, drifts.adrift.trans ?_ (.of_alike same _), drifts.fresh⟩
  rintro one other alike ⟨⟨owed, owing, mine, named⟩, pardon⟩
  exact ⟨⟨owed, owing, mine, named.trans alike.id⟩, fair one other alike pardon⟩

section Commit

variable {more : Owed → Prop} {wider : Rule → Prop} {others : List Rule}
variable (apart : ∀ other, owes other → other.id ≠ owed.id)
variable (debts : ∀ other, more other ↔ owes other ∨ other = owed)
variable (unchanged : ∀ rule, ¬ (rule.id = owed.id ∧ wider rule ∧ owed.tenant = tenant) →
  (rule ∈ stored ↔ rule ∈ others))
include apart debts unchanged

/-- What was committed before under other ids stays stored. -/
theorem Honest.commit (honest : Honest owes now tenant stored)
    (committed : owed.tenant = tenant → owed.Committed now others) :
    Honest more now tenant others := by
  intro other due owned
  rcases (debts other).mp due with old | rfl
  · have same (rule : Rule) : rule ∈ stored.filter (·.id = other.id) ↔
        rule ∈ others.filter (·.id = other.id) := by
      simp only [List.mem_filter, decide_eq_true_eq]
      apply and_congr_left
      intro identified
      apply unchanged rule
      rintro ⟨clash, _⟩
      exact apart other old (identified.symm.trans clash)
    exact (honest other old owned).trans (.of_mem_iff fun rule => (same rule).symm)
  · exact committed owned

/-- A commit under an id of which no call is owed adds a debt. -/
theorem commit (drifts : Drifts owes excused now tenant rules stored) (fair : Fair wider now)
    (contains : ∀ rule, excused rule → wider rule)
    (room : ∀ rule, owed = .add rule → rule.tenant = tenant → ∀ other ∈ stored,
      other.id ≠ rule.id) : Drifts more wider now tenant rules others := by
  refine ⟨drifts.single, drifts.owned, ?_, ?_⟩
  · have before : Adrift (fun rule => Pending more tenant rule.id ∧ wider rule) now rules stored := by
      apply drifts.adrift.mono
      rintro rule _ ⟨⟨other, old, mine, same⟩, pardon⟩
      exact ⟨⟨other, (debts other).mpr (Or.inl old), mine, same⟩, contains rule pardon⟩
    apply before.trans
    · rintro one other alike ⟨⟨due, present, mine, named⟩, pardon⟩
      exact ⟨⟨due, present, mine, named.trans alike.id⟩, fair one other alike pardon⟩
    · apply Adrift.of_mem_iff
      intro rule unexcused
      apply unchanged rule
      rintro ⟨identified, widely, mine⟩
      exact unexcused ⟨⟨owed, (debts owed).mpr (Or.inr rfl), mine, identified.symm⟩, widely⟩
  · intro rule added mine other member same
    rcases (debts (.add rule)).mp added with old | new
    · exact drifts.fresh rule old mine other member same
    · -- No rule with the new id is stored, and no call under it is owed, so none is followed.
      have strict : ¬ (Pending owes tenant other.id ∧ excused other) := by
        rintro ⟨⟨due, old, _, named⟩, _⟩
        apply apart due old
        rw [named, same, ← new]
        rfl
      obtain ⟨found, present, alike⟩ := drifts.adrift.forth other member strict
      exact absurd (alike.id.symm.trans same) (room rule new.symm mine found present)

end Commit

/-- Where nothing is owed the rules are those that are stored. -/
theorem of_none (drifts : Drifts owes excused now tenant rules stored)
    (nothing : ∀ owed, ¬ owes owed) : AlikeRules now rules stored :=
  drifts.adrift.alike fun _ ⟨⟨owed, owing, _⟩, _⟩ => nothing owed owing

end Drifts

end AccessPolicy
