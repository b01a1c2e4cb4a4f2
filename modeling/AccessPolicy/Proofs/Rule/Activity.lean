import AccessPolicy.Rule.Gate
import AccessPolicy.Proofs.Instant.Order

/-!
When rules start and stop to count. Up to its next transition a rule stays as it is, at every
ordinary instant; so do all rules of a list up to the first transition among them.
-/
namespace AccessPolicy

namespace Rule

/-- The calendar has an instant after the rule's window. -/
def closes (rule : Rule) : Bool :=
  rule.effectiveTo.all (fun last => last.next?.isSome)

/-- From now on and before a bound, at ordinary instants, the rule counts if it counts now. -/
def Steady (rule : Rule) (now : Instant) (bound : Option Instant) : Prop :=
  ∀ later, later.isLeap = false → now ≤ later → later.Before bound →
    rule.isActive later = rule.isActive now

theorem isActive_congr {rule : Rule} {one other : Instant}
    (opening : rule.isBeforeWindow one = rule.isBeforeWindow other)
    (closing : rule.isAfterWindow one = rule.isAfterWindow other) :
    rule.isActive one = rule.isActive other := by
  simp only [isActive, inactivity, opening, closing]

theorem isActive_of_not_isEligible {rule : Rule} (ineligible : rule.isEligible = false)
    (now : Instant) : rule.isActive now = false := by
  rw [Bool.eq_false_iff, ne_eq, isActive_iff, ineligible]
  simp

theorem isBeforeWindow_of_before {rule : Rule} {now later : Instant} (order : now ≤ later)
    (before : later.Before (rule.effectiveFrom.filter (fun first => now < first))) :
    rule.isBeforeWindow later = rule.isBeforeWindow now := by
  unfold isBeforeWindow
  cases opening : rule.effectiveFrom with
  | none => rfl
  | some first =>
    rw [opening] at before
    by_cases ahead : now < first
    · have stillAhead : later < first := by simpa [Option.filter, ahead] using before
      simp [ahead, stillAhead]
    · have passed : ¬ later < first := fun early => ahead (Instant.lt_of_le_of_lt order early)
      simp [ahead, passed]

theorem isAfterWindow_of_before {rule : Rule} {now later last closing : Instant}
    (window : rule.effectiveTo = some last) (next : last.next? = some closing)
    (ordinary : later.isLeap = false) (order : now ≤ later)
    (before : later.Before (if now < closing then some closing else none)) :
    rule.isAfterWindow later = rule.isAfterWindow now := by
  simp only [isAfterWindow, window, Option.any_some]
  by_cases ahead : now < closing
  · have stillAhead : later < closing := by simpa [ahead] using before
    have open_later : ¬ last < later := by
      rw [← Instant.next?_le_iff next ordinary]
      exact Instant.not_le.mpr stillAhead
    have open_now : ¬ last < now := fun past => open_later (Instant.lt_of_lt_of_le past order)
    simp [open_later, open_now]
  · have past : last < now :=
      Instant.lt_of_lt_of_le (Instant.lt_of_next?_eq_some next) (Instant.not_lt.mp ahead)
    simp [past, Instant.lt_of_lt_of_le past order]

theorem steady_of_transition {rule : Rule} {now : Instant} {bound : Option Instant}
    (transition : rule.transition now = .ok bound) : rule.Steady now bound := by
  intro later ordinary order before
  cases eligible : rule.isEligible with
  | false => rw [isActive_of_not_isEligible eligible, isActive_of_not_isEligible eligible]
  | true =>
    simp only [Rule.transition, eligible, if_true] at transition
    cases window : rule.effectiveTo with
    | none =>
      simp only [window] at transition
      cases transition
      apply isActive_congr (isBeforeWindow_of_before order before)
      simp [isAfterWindow, window]
    | some last =>
      simp only [window] at transition
      cases next : last.next? with
      | none => simp [next] at transition
      | some closing =>
        simp only [next, Except.ok.injEq] at transition
        rw [← transition, Instant.before_earlier?_iff] at before
        exact isActive_congr (isBeforeWindow_of_before order before.1)
          (isAfterWindow_of_before window next ordinary order before.2)

theorem Steady.earlier {rule : Rule} {now : Instant} {one other : Option Instant}
    (steady : rule.Steady now one) : rule.Steady now (Instant.earlier? one other) :=
  fun later ordinary order before =>
    steady later ordinary order (Instant.before_earlier?_iff.mp before).1

theorem Steady.earlier' {rule : Rule} {now : Instant} {one other : Option Instant}
    (steady : rule.Steady now other) : rule.Steady now (Instant.earlier? one other) :=
  fun later ordinary order before =>
    steady later ordinary order (Instant.before_earlier?_iff.mp before).2

theorem Steady.later {rule : Rule} {now later : Instant} {bound : Option Instant}
    (steady : rule.Steady now bound) (order : now ≤ later) (ordinary : later.isLeap = false) :
    rule.Steady later bound := by
  intro last ordinaryLast orderLast before
  rw [steady last ordinaryLast (Instant.le_trans order orderLast) before,
    steady later ordinary order (before.of_le orderLast)]

theorem before_transition {rule : Rule} {now : Instant} {bound : Option Instant}
    (transition : rule.transition now = .ok bound) : now.Before bound := by
  have opens : now.Before (rule.effectiveFrom.filter (fun first => now < first)) := by
    cases rule.effectiveFrom with
    | none => exact Instant.before_none now
    | some first => by_cases ahead : now < first <;> simp [Option.filter, ahead]
  unfold Rule.transition at transition
  split at transition
  · split at transition
    · cases transition
      exact opens
    · split at transition
      · cases transition
      · rename_i closing _
        cases transition
        apply Instant.before_earlier?_iff.mpr
        refine ⟨opens, ?_⟩
        by_cases ahead : now < closing <;> simp [ahead]
  · cases transition
    exact Instant.before_none now

theorem transition_of_closes {rule : Rule} (closing : rule.closes) (now : Instant) :
    ∃ bound, rule.transition now = .ok bound := by
  unfold transition
  split
  · cases window : rule.effectiveTo with
    | none => exact ⟨_, rfl⟩
    | some last =>
      have more : last.next?.isSome := by simpa [closes, window] using closing
      obtain ⟨next, present⟩ := Option.isSome_iff_exists.mp more
      simp only [present]
      exact ⟨_, rfl⟩
  · exact ⟨_, rfl⟩

end Rule

theorem before_nextTransition {rules : List Rule} {now : Instant} {bound : Option Instant}
    (next : nextTransition rules now = .ok bound) : now.Before bound := by
  induction rules generalizing bound with
  | nil =>
    cases next
    exact Instant.before_none now
  | cons rule rest ih =>
    simp only [nextTransition] at next
    split at next
    · rename_i one other first others
      cases next
      exact Instant.before_earlier?_iff.mpr ⟨Rule.before_transition first, ih others⟩
    · cases next
    · cases next

theorem nextTransition_of_closes {rules : List Rule} (closing : ∀ rule ∈ rules, rule.closes)
    (now : Instant) : ∃ bound, nextTransition rules now = .ok bound := by
  induction rules with
  | nil => exact ⟨none, rfl⟩
  | cons rule rest ih =>
    obtain ⟨one, first⟩ := Rule.transition_of_closes (closing rule (by simp)) now
    obtain ⟨other, others⟩ := ih (fun rule member => closing rule (List.mem_cons_of_mem _ member))
    simp only [nextTransition, first, others]
    exact ⟨_, rfl⟩

/-- Up to the next transition of a list every rule of it is steady. -/
theorem steady_of_nextTransition {rules : List Rule} {now : Instant} {bound : Option Instant}
    (next : nextTransition rules now = .ok bound) : ∀ rule ∈ rules, rule.Steady now bound := by
  induction rules generalizing bound with
  | nil => simp
  | cons rule rest ih =>
    simp only [nextTransition] at next
    split at next
    · rename_i one other first others
      cases next
      intro member present
      rcases List.mem_cons.mp present with rfl | later
      · exact (Rule.steady_of_transition first).earlier
      · exact (ih others member later).earlier'
    · cases next
    · cases next

end AccessPolicy
