import AccessPolicy.Instant

/-!
The order of instants. `Before now bound` says that a bound has not come yet; an ordinary instant
is past another one exactly when it has reached the nanosecond after it.
-/
namespace AccessPolicy.Instant

/-- 1970-01-01T00:00:00Z. -/
def epoch : Instant :=
  ⟨0, 0, by decide, by decide, by decide⟩

theorem lt_trans {first second third : Instant} (one : first < second) (two : second < third) :
    first < third := by
  rw [lt_def] at one two ⊢
  omega

theorem le_refl (instant : Instant) : instant ≤ instant := by
  rw [le_def]
  omega

theorem le_trans {first second third : Instant} (one : first ≤ second) (two : second ≤ third) :
    first ≤ third := by
  rw [le_def] at one two ⊢
  omega

theorem lt_of_le_of_lt {first second third : Instant} (one : first ≤ second)
    (two : second < third) : first < third := by
  rw [le_def] at one
  rw [lt_def] at two ⊢
  omega

theorem lt_of_lt_of_le {first second third : Instant} (one : first < second)
    (two : second ≤ third) : first < third := by
  rw [lt_def] at one ⊢
  rw [le_def] at two
  omega

theorem le_of_lt {earlier later : Instant} (order : earlier < later) : earlier ≤ later := by
  rw [lt_def] at order
  rw [le_def]
  omega

theorem not_le {earlier later : Instant} : ¬ later ≤ earlier ↔ earlier < later := by
  rw [lt_def, le_def]
  omega

theorem ofParts?_eq_some {second : Int} {nano : Nat} {instant : Instant}
    (parts : ofParts? second nano = some instant) :
    instant.second = second ∧ instant.nano = nano := by
  unfold ofParts? at parts
  split at parts
  · cases parts
    exact ⟨rfl, rfl⟩
  · cases parts

theorem nano_lt_of_not_isLeap {instant : Instant} (ordinary : instant.isLeap = false) :
    instant.nano < nanosPerSecond := by
  simpa [isLeap] using ordinary

/-- Between an instant and the nanosecond after it there is no ordinary instant. -/
theorem next?_le_iff {last closing now : Instant} (next : last.next? = some closing)
    (ordinary : now.isLeap = false) : closing ≤ now ↔ last < now := by
  have bound := nano_lt_of_not_isLeap ordinary
  have lastBound := last.nano_lt
  unfold next? at next
  rw [lt_def, le_def]
  unfold nanosPerSecond at *
  split at next
  · obtain ⟨second, nano⟩ := ofParts?_eq_some next
    omega
  · obtain ⟨second, nano⟩ := ofParts?_eq_some next
    omega

theorem lt_of_next?_eq_some {last closing : Instant} (next : last.next? = some closing) :
    last < closing := by
  unfold next? at next
  rw [lt_def]
  split at next
  · obtain ⟨second, nano⟩ := ofParts?_eq_some next
    omega
  · obtain ⟨second, nano⟩ := ofParts?_eq_some next
    omega

/-- A bound that has not come yet; a missing bound never comes. -/
def Before (now : Instant) (bound : Option Instant) : Prop :=
  ∀ last ∈ bound, now < last

instance (now : Instant) (bound : Option Instant) : Decidable (Before now bound) :=
  match bound with
  | none => .isTrue (by simp [Before])
  | some last => decidable_of_iff (now < last) (by simp [Before])

@[simp] theorem before_none (now : Instant) : Before now none := by
  simp [Before]

@[simp] theorem before_some {now last : Instant} : Before now (some last) ↔ now < last := by
  simp [Before]

theorem Before.of_le {earlier later : Instant} {bound : Option Instant}
    (before : Before later bound) (order : earlier ≤ later) : Before earlier bound :=
  fun last member => lt_of_le_of_lt order (before last member)

theorem before_earlier?_iff {now : Instant} {one other : Option Instant} :
    Before now (earlier? one other) ↔ Before now one ∧ Before now other := by
  cases one with
  | none => simp [earlier?]
  | some one =>
    cases other with
    | none => simp [earlier?]
    | some other =>
      simp only [earlier?, before_some, earlier]
      split
      · rename_i order
        exact ⟨fun before => ⟨before, lt_of_lt_of_le before order⟩, And.left⟩
      · rename_i order
        exact ⟨fun before => ⟨lt_trans before (not_le.mp order), before⟩, And.right⟩

/-- The earlier of two bounds is one of them. -/
theorem earlier?_eq_some {one other : Option Instant} {first : Instant}
    (same : earlier? one other = some first) : one = some first ∨ other = some first := by
  cases one with
  | none => exact Or.inr same
  | some left =>
    cases other with
    | none => exact Or.inl same
    | some right =>
      simp only [earlier?, earlier] at same
      split at same
      · exact Or.inl same
      · exact Or.inr same

theorem any_le_eq_false_iff {now : Instant} {bound : Option Instant} :
    bound.any (· ≤ now) = false ↔ Before now bound := by
  cases bound with
  | none => simp
  | some last => simp [not_le]

end AccessPolicy.Instant
