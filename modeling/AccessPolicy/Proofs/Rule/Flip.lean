import AccessPolicy.Proofs.Rule.Activity
import AccessPolicy.Rule.Draft

/-!
The next transition is a flip. Where windows open before they close, the instant that `nextTransition`
tells is the first one from now on at which some rule starts or stops to count; before it none does.
-/
namespace AccessPolicy

namespace Rule

variable {rule : Rule} {now first last closing flip : Instant}

/-- A window with both ends opens before it closes. -/
def Forward (rule : Rule) : Prop :=
  ∀ first ∈ rule.effectiveFrom, ∀ last ∈ rule.effectiveTo, first < last

/-- A rule starts to count when its window opens. -/
theorem flips_at_opening (eligible : rule.isEligible = true) (forward : rule.Forward)
    (opens : rule.effectiveFrom = some first) (ahead : now < first) :
    rule.isActive first ≠ rule.isActive now := by
  have inactive : ¬ rule.isActive now = true := by
    rw [isActive_iff]
    rintro ⟨_, opened, _⟩
    simp [isBeforeWindow, opens, ahead] at opened
  have active : rule.isActive first = true := by
    rw [isActive_iff]
    refine ⟨eligible, ?_, ?_⟩
    · simp [isBeforeWindow, opens, Instant.not_lt.mpr (Instant.le_refl first)]
    · cases ends : rule.effectiveTo with
      | none => simp [isAfterWindow, ends]
      | some last =>
        have order : ¬ last < first :=
          fun late => Instant.not_le.mpr late (Instant.le_of_lt (forward first opens last ends))
        simp [isAfterWindow, ends, order]
  rw [active]
  exact fun same => inactive same.symm

/-- A rule whose window is open stops to count at the nanosecond after its last instant. -/
theorem flips_at_closing (eligible : rule.isEligible = true) (ordinary : now.isLeap = false)
    (opened : rule.isBeforeWindow now = false) (ends : rule.effectiveTo = some last)
    (next : last.next? = some closing) (ahead : now < closing) :
    rule.isActive closing ≠ rule.isActive now := by
  have active : rule.isActive now = true := by
    have within : ¬ last < now := by
      rw [← Instant.next?_le_iff next ordinary, Instant.not_le]
      exact ahead
    rw [isActive_iff]
    exact ⟨eligible, by simp [opened], by simp [isAfterWindow, ends, within]⟩
  have inactive : ¬ rule.isActive closing = true := by
    rw [isActive_iff]
    rintro ⟨_, _, within⟩
    simp [isAfterWindow, ends, Instant.lt_of_next?_eq_some next] at within
  rw [active]
  exact inactive

/-- A window that is not open yet would open before it closes, and be the first to do so. -/
theorem isBeforeWindow_of_closes_first (forward : rule.Forward) (ends : rule.effectiveTo = some last)
    (next : last.next? = some closing)
    (first_to_come : Instant.earlier? (rule.effectiveFrom.filter (fun first => now < first))
      (some closing) = some closing) : rule.isBeforeWindow now = false := by
  cases opens : rule.effectiveFrom with
  | none => simp [isBeforeWindow, opens]
  | some first =>
    cases ahead : decide (now < first) with
    | false => simp [isBeforeWindow, opens, ahead]
    | true =>
      have sooner : first < closing :=
        Instant.lt_trans (forward first opens last ends) (Instant.lt_of_next?_eq_some next)
      have bounded : first.Before (some closing) := by simpa using sooner
      rw [← first_to_come, Instant.before_earlier?_iff] at bounded
      have self : first < first := by simpa [opens, Option.filter, ahead] using bounded.1
      exact absurd (Instant.le_refl first) (Instant.not_le.mpr self)

/-- A rule flips at its own next transition. -/
theorem flips_of_transition (ordinary : now.isLeap = false) (forward : rule.Forward)
    (transition : rule.transition now = .ok (some flip)) :
    rule.isActive flip ≠ rule.isActive now := by
  cases eligible : rule.isEligible with
  | false => simp [Rule.transition, eligible] at transition
  | true =>
    have opening (comes : rule.effectiveFrom.filter (fun first => now < first) = some flip) :
        rule.isActive flip ≠ rule.isActive now := by
      obtain ⟨opens, ahead⟩ := Option.filter_eq_some_iff.mp comes
      exact flips_at_opening eligible forward opens (by simpa using ahead)
    simp only [Rule.transition, eligible, if_true] at transition
    cases ends : rule.effectiveTo with
    | none =>
      simp only [ends, Except.ok.injEq] at transition
      exact opening transition
    | some last =>
      simp only [ends] at transition
      cases next : last.next? with
      | none => simp [next] at transition
      | some closing =>
        simp only [next, Except.ok.injEq] at transition
        rcases Instant.earlier?_eq_some transition with opens | closes
        · exact opening opens
        · obtain ⟨ahead, rfl⟩ : now < closing ∧ closing = flip := by simpa using closes
          rw [if_pos ahead] at transition
          have opened := isBeforeWindow_of_closes_first forward ends next transition
          exact flips_at_closing eligible ordinary opened ends next ahead

end Rule

section List

variable {rules : List Rule} {now flip : Instant}

/-- The next transition of a list is that of one of its rules. -/
theorem exists_transition_of_nextTransition (next : nextTransition rules now = .ok (some flip)) :
    ∃ rule ∈ rules, rule.transition now = .ok (some flip) := by
  induction rules with
  | nil => cases next
  | cons rule rest ih =>
    simp only [nextTransition] at next
    split at next
    · rename_i one other first others
      rcases Instant.earlier?_eq_some (Except.ok.inj next) with same | same
      · exact ⟨rule, by simp, first.trans (congrArg _ same)⟩
      · obtain ⟨found, member, flips⟩ := ih (others.trans (congrArg _ same))
        exact ⟨found, List.mem_cons_of_mem _ member, flips⟩
    · cases next
    · cases next

/-- Some rule of the list starts or stops to count between two instants. -/
def SomeFlips (rules : List Rule) (now later : Instant) : Prop :=
  ∃ rule ∈ rules, rule.isActive later ≠ rule.isActive now

/-- The next transition can be told unless a window ends with the calendar. No rule flips before it, and
where windows open before they close some rule flips at it, so that it is the earliest flip. -/
theorem nextTransition_exact (rules : List Rule) (ordinary : now.isLeap = false) :
    ((∀ rule ∈ rules, rule.closes) → ∃ bound, nextTransition rules now = .ok bound) ∧
    ∀ bound, nextTransition rules now = .ok bound →
      (∀ later, later.isLeap = false → now ≤ later → later.Before bound →
        ∀ rule ∈ rules, rule.isActive later = rule.isActive now) ∧
      ((∀ rule ∈ rules, rule.Forward) → ∀ flip ∈ bound,
        now < flip ∧ SomeFlips rules now flip ∧
          ∀ later, later.isLeap = false → now ≤ later → SomeFlips rules now later → flip ≤ later) := by
  refine ⟨fun closing => nextTransition_of_closes closing now, fun bound next => ?_⟩
  have steady := steady_of_nextTransition next
  constructor
  · intro later ordinaryLater order before rule member
    exact steady rule member later ordinaryLater order before
  · rintro forward flip rfl
    obtain ⟨found, member, transition⟩ := exists_transition_of_nextTransition next
    refine ⟨by simpa using before_nextTransition next, ⟨found, member, ?_⟩, ?_⟩
    · exact Rule.flips_of_transition ordinary (forward found member) transition
    · intro later ordinaryLater order ⟨rule, present, flips⟩
      rw [← Instant.not_lt]
      intro sooner
      exact flips (steady rule present later ordinaryLater order (by simpa using sooner))

end List

/-- Ann may read orders from the tenth to the twentieth second. -/
def briefGrant : Rule :=
  { Rule.ofPermission ⟨1⟩ "orders" ⟨"ann", "*", "read", .allow⟩ .epoch with
    effectiveFrom := some ⟨10, 0, by decide, Instant.epoch.nano_lt, by decide⟩
    effectiveTo := some ⟨20, 0, by decide, Instant.epoch.nano_lt, by decide⟩ }

theorem forward_briefGrant : briefGrant.Forward := by
  rintro first ⟨⟩ last ⟨⟩
  decide

/-- Before its window the rule is to start to count, and within it to stop. -/
theorem nextTransition_briefGrant :
    (∀ rule ∈ [briefGrant], rule.closes) ∧ Instant.epoch.isLeap = false ∧
      (∀ rule ∈ [briefGrant], rule.Forward) ∧ ∃ opening, nextTransition [briefGrant] .epoch =
        .ok (some opening) ∧ opening.second = 10 ∧ SomeFlips [briefGrant] .epoch opening ∧
          ∃ closing, nextTransition [briefGrant] opening = .ok (some closing) ∧
            closing.nano = 1 ∧ SomeFlips [briefGrant] opening closing := by
  have closing : ∀ rule ∈ [briefGrant], rule.closes := by decide
  have forward : ∀ rule ∈ [briefGrant], rule.Forward := by simp [forward_briefGrant]
  have flips (now : Instant) (ordinary : now.isLeap = false) (flip : Instant)
      (next : nextTransition [briefGrant] now = .ok (some flip)) : SomeFlips [briefGrant] now flip :=
    (((nextTransition_exact [briefGrant] ordinary).2 _ next).2 forward flip rfl).2.1
  exact ⟨closing, rfl, forward, _, rfl, rfl, flips .epoch rfl _ rfl, _, rfl, rfl,
    flips ⟨10, 0, by decide, Instant.epoch.nano_lt, by decide⟩ rfl _ rfl⟩

end AccessPolicy
