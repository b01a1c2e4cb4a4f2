import AccessPolicy.Instant.Date
import AccessPolicy.Instant

/-!
Every day of the calendar has one date: the date of a day's number has that number.
-/
namespace AccessPolicy.Calendar

/-- A year ends where the next one begins. -/
theorem totalDays_monthLengths (year : Int) :
    (totalDays (monthLengths (isLeapYear year)) : Int) =
      daysBeforeYear (year + 1) - daysBeforeYear year := by
  cases leap : isLeapYear year with
  | false =>
    simp only [isLeapYear, Bool.and_eq_false_iff, Bool.or_eq_false_iff, beq_eq_false_iff_ne,
      bne_eq_false_iff_eq] at leap
    simp only [monthLengths, daysBeforeYear, totalDays, Bool.false_eq_true, if_false]
    omega
  | true =>
    simp only [isLeapYear, Bool.and_eq_true, Bool.or_eq_true, beq_iff_eq, bne_iff_ne] at leap
    simp only [monthLengths, daysBeforeYear, totalDays, if_true]
    omega

theorem daysBeforeYear_le {one other : Int} (order : one ≤ other) :
    daysBeforeYear one ≤ daysBeforeYear other := by
  simp only [daysBeforeYear]
  omega

theorem yearOf_bounds (number : Int) :
    daysBeforeYear (yearOf number) ≤ number ∧ number < daysBeforeYear (yearOf number + 1) := by
  unfold yearOf
  generalize estimated : (number + 719162) * 400 / 146097 + 1 = estimate
  -- The mean year is 146097 days in 400, and no year's start is a whole year off from that.
  have after : daysBeforeYear (estimate - 1) ≤ number := by
    simp only [daysBeforeYear]
    omega
  have before : number < daysBeforeYear (estimate + 1 + 1) := by
    simp only [daysBeforeYear]
    omega
  dsimp only
  split
  · rename_i early
    exact ⟨after, by rwa [Int.sub_add_cancel]⟩
  · rename_i not_early
    split
    · rename_i late
      exact ⟨late, before⟩
    · rename_i not_late
      exact ⟨Int.not_lt.mp not_early, Int.not_le.mp not_late⟩

theorem splitMonths_eq {lengths : List Nat} {month days : Nat} (room : days < totalDays lengths) :
    ∃ passed left length, splitMonths month days lengths = (month + passed, left) ∧
      lengths[passed]? = some length ∧ left < length ∧
        days = totalDays (lengths.take passed) + left := by
  induction lengths generalizing month days with
  | nil => simp [totalDays] at room
  | cons length lengths ih =>
    by_cases inside : days < length
    · exact ⟨0, days, length, by simp [splitMonths, inside], rfl, inside, by simp [totalDays]⟩
    · rw [totalDays] at room
      have room_rest : days - length < totalDays lengths := by omega
      obtain ⟨passed, left, found, split, present, short, total⟩ :=
        @ih (month + 1) (days - length) room_rest
      refine ⟨passed + 1, left, found, ?_, by simpa using present, short, ?_⟩
      · rw [splitMonths, if_neg inside, split]
        congr 1
        omega
      · rw [List.take_succ_cons, totalDays]
        omega

structure Date.Proper (date : Date) : Prop where
  month_pos : 1 ≤ date.month
  month_le : date.month ≤ 12
  day_pos : 1 ≤ date.day
  day_le : date.day ≤ 31

theorem monthLengths_le {leap : Bool} {length : Nat} (present : length ∈ monthLengths leap) :
    length ≤ 31 := by
  cases leap <;> simp only [monthLengths, List.mem_cons, List.not_mem_nil, or_false] at present <;>
    simp at present <;> omega

/-- The date of a day within the calendar's years has the day's number. -/
theorem number?_ofNumber {number : Int} (first : daysBeforeYear firstYear ≤ number)
    (last : number < daysBeforeYear (lastYear + 1)) :
    (Date.ofNumber number).number? = some number ∧ (Date.ofNumber number).Proper := by
  obtain ⟨after, before⟩ := yearOf_bounds number
  have room : (number - daysBeforeYear (yearOf number)).toNat <
      totalDays (monthLengths (isLeapYear (yearOf number))) := by
    have total := totalDays_monthLengths (yearOf number)
    omega
  obtain ⟨passed, left, length, split, present, short, days⟩ := @splitMonths_eq _ 1 _ room
  have months : passed < 12 := by
    have bound := (List.getElem?_eq_some_iff.mp present).1
    simpa [monthLengths] using bound
  have long := monthLengths_le (List.mem_of_getElem? present)
  have not_early : firstYear ≤ yearOf number := by
    apply Decidable.byContradiction
    intro early
    have ended := @daysBeforeYear_le (yearOf number + 1) firstYear (by omega)
    omega
  have not_late : yearOf number ≤ lastYear := by
    apply Decidable.byContradiction
    intro late
    have begun := @daysBeforeYear_le (lastYear + 1) (yearOf number) (by omega)
    omega
  have date : Date.ofNumber number = ⟨yearOf number, 1 + passed, left + 1⟩ := by
    simp only [Date.ofNumber, split]
  rw [date]
  refine ⟨?_, ?_, ?_, ?_, ?_⟩
  rotate_left
  · exact Nat.le_add_right 1 passed
  · change 1 + passed ≤ 12
    omega
  · exact Nat.le_add_left 1 left
  · change left + 1 ≤ 31
    omega
  have month : 1 + passed - 1 = passed := by omega
  simp only [Date.number?, month, present]
  rw [if_pos ⟨not_early, not_late, by omega, by omega, by omega⟩, Option.some.injEq]
  omega

theorem day_bounds (instant : Instant) : daysBeforeYear firstYear ≤ instant.second / 86400 ∧
    instant.second / 86400 < daysBeforeYear (lastYear + 1) := by
  have bounds := instant.second_in_calendar
  have first : daysBeforeYear firstYear = -96465292 := by decide
  have last : daysBeforeYear (lastYear + 1) = 95026237 := by decide
  unfold firstSecond lastSecond at bounds
  omega

end AccessPolicy.Calendar
