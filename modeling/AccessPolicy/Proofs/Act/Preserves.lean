import AccessPolicy.Proofs.Act

/-!
What an action does however it ends: a property that it preserves, and a relation between the state
it starts from and the state it ends in, with what is known of its value.
-/
namespace AccessPolicy.Act

variable {σ ε δ α β : Type} {action : Act σ ε α} {next : α → Act σ ε β}

section Preserves

variable {kept : σ → Prop}

/-- A property that holds before holds after, however the action ends. -/
def Preserves (kept : σ → Prop) (action : Act σ ε α) : Prop :=
  ∀ state, kept state → kept (action state).2

theorem Preserves.leads (preserves : Preserves kept action) {state : σ} (holds : kept state) :
    Leads action state (fun _ => kept) (fun _ => kept) kept := by
  have after := preserves state holds
  unfold Leads Ends
  generalize action state = result at after ⊢
  obtain ⟨outcome, final⟩ := result
  cases outcome <;> exact after

theorem Preserves.of_eq (preserves : Preserves kept action) {state final : σ} {outcome : Outcome ε α}
    (holds : kept state) (ends : action state = (outcome, final)) : kept final := by
  have after := preserves state holds
  rw [ends] at after
  exact after

theorem preserves_of_leads (leads : ∀ state, kept state →
    Leads action state (fun _ => kept) (fun _ => kept) kept) : Preserves kept action :=
  fun state holds => (leads state holds).settled

theorem preserves_pure (value : α) : Preserves kept (Pure.pure value : Act σ ε α) :=
  fun _ holds => holds

theorem preserves_fail (cause : ε) : Preserves kept (Act.fail cause : Act σ ε α) :=
  fun _ holds => holds

theorem preserves_halt (cause : Halt) : Preserves kept (Act.halt cause : Act σ ε α) :=
  fun _ holds => holds

theorem preserves_ofExcept (result : Except ε α) :
    Preserves kept (Act.ofExcept result : Act σ ε α) := by
  cases result with
  | ok value => exact preserves_pure value
  | error cause => exact preserves_fail cause

theorem preserves_modify {change : σ → σ} (step : ∀ state, kept state → kept (change state)) :
    Preserves kept (Act.modify change : Act σ ε Unit) :=
  step

theorem preserves_read {next : σ → Act σ ε β}
    (onward : ∀ seen, kept seen → Preserves kept (next seen)) :
    Preserves kept (Act.state >>= next) :=
  fun state holds => onward state holds state holds

theorem Preserves.bind (first : Preserves kept action)
    (onward : ∀ value, Preserves kept (next value)) : Preserves kept (action >>= next) := by
  apply preserves_of_leads
  intro state holds
  apply Leads.bind (first.leads holds)
  · exact fun value _ middle => (onward value).leads middle
  · exact fun _ _ middle => middle
  · exact fun _ middle => middle

theorem preserves_when {condition : Prop} [Decidable condition] {next : Act σ ε β}
    (step : Preserves kept action) (onward : Preserves kept next) :
    Preserves kept (if condition then action >>= fun _ => next else next) := by
  split
  · exact step.bind fun _ => onward
  · exact onward

theorem preserves_either {condition : Prop} [Decidable condition] {other : Act σ ε α}
    (step : Preserves kept action) (stepToo : Preserves kept other)
    (onward : ∀ value, Preserves kept (next value)) :
    Preserves kept (if condition then action >>= next else other >>= next) := by
  split
  · exact step.bind onward
  · exact stepToo.bind onward

theorem Preserves.attempt (preserves : Preserves kept action) :
    Preserves kept (action.attempt : Act σ δ (Except ε α)) :=
  preserves_of_leads fun _ holds => leads_attempt (preserves.leads holds)

/-- An action whose error is handed on as a value does not fail. -/
theorem Preserves.yields_attempt (preserves : Preserves kept action) {state : σ}
    (holds : kept state) :
    Yields kept True (action.attempt : Act σ δ (Except ε α)) state (fun _ _ => True) := by
  apply leads_attempt
  exact (preserves.leads holds).mono (fun _ _ middle => ⟨trivial, middle⟩)
    (fun _ _ middle => ⟨trivial, middle⟩) (fun _ middle => ⟨trivial, middle⟩)

theorem Preserves.mapError (preserves : Preserves kept action) (say : ε → δ) :
    Preserves kept (action.mapError say) :=
  preserves_of_leads fun _ holds => leads_mapError (preserves.leads holds)

section Settles

variable {property : σ → Prop} {state : σ} {other : Act σ ε α}

/-- A property that is preserved by the first steps gives another one in the end, wherever the action
stops. -/
theorem Preserves.settles_bind (step : Preserves kept action)
    (weaken : ∀ state, kept state → property state) (holds : kept state)
    (onward : ∀ value state, kept state → property (next value state).2) :
    property ((action >>= next) state).2 := by
  apply Leads.settled
  apply Leads.bind (step.leads holds)
  · intro value middle holds
    have after := onward value middle holds
    unfold Leads Ends
    generalize next value middle = result at after ⊢
    obtain ⟨outcome, final⟩ := result
    cases outcome <;> exact after
  · exact fun _ middle holds => weaken middle holds
  · exact fun middle holds => weaken middle holds

theorem Preserves.settles_when {condition : Prop} [Decidable condition] {next : Act σ ε β}
    (step : Preserves kept action) (weaken : ∀ state, kept state → property state)
    (holds : kept state) (onward : ∀ state, kept state → property (next state).2) :
    property ((if condition then action >>= fun _ => next else next) state).2 := by
  split
  · exact step.settles_bind weaken holds fun _ => onward
  · exact onward state holds

theorem Preserves.settles_either {condition : Prop} [Decidable condition]
    (step : Preserves kept action) (stepToo : Preserves kept other)
    (weaken : ∀ state, kept state → property state) (holds : kept state)
    (onward : ∀ value state, kept state → property (next value state).2) :
    property ((if condition then action >>= next else other >>= next) state).2 := by
  split
  · exact step.settles_bind weaken holds onward
  · exact stepToo.settles_bind weaken holds onward

end Settles

end Preserves

section Carries

variable {reaches : σ → σ → Prop} {state : σ} {after weaker : α → σ → Prop}

/-- The action takes its state in the relation to the one it ends in, and more is known when it ends
with a value. -/
def Carries (reaches : σ → σ → Prop) (action : Act σ ε α) (state : σ) (after : α → σ → Prop) : Prop :=
  Leads action state (fun value final => reaches state final ∧ after value final)
    (fun _ final => reaches state final) (fun final => reaches state final)

theorem carries_pure {value : α} (stays : reaches state state) (holds : after value state) :
    Carries reaches (Pure.pure value : Act σ ε α) state after :=
  leads_pure ⟨stays, holds⟩

theorem carries_read {next : σ → Act σ ε β} {last : β → σ → Prop}
    (onward : Carries reaches (next state) state last) :
    Carries reaches (Act.state >>= next) state last :=
  onward

theorem Carries.mono (carries : Carries reaches action state after)
    (value : ∀ value final, reaches state final → after value final → weaker value final) :
    Carries reaches action state weaker :=
  Leads.mono carries (fun result final ends => ⟨ends.1, value result final ends.1 ends.2⟩)
    (fun _ _ ends => ends) (fun _ ends => ends)

theorem Carries.settled (carries : Carries reaches action state after) :
    reaches state (action state).2 :=
  Leads.settled (Leads.mono carries (fun _ _ ends => ends.1) (fun _ _ ends => ends)
    (fun _ ends => ends))

theorem Carries.of_eq_ok (carries : Carries reaches action state after) {value : α} {final : σ}
    (ends : action state = (.ok value, final)) : reaches state final ∧ after value final := by
  unfold Carries Leads at carries
  rw [ends] at carries
  exact carries

theorem Carries.bind {last : β → σ → Prop} (carries : Carries reaches action state after)
    (trans : ∀ {one two three}, reaches one two → reaches two three → reaches one three)
    (onward : ∀ value middle, reaches state middle → after value middle →
      Carries reaches (next value) middle last) :
    Carries reaches (action >>= next) state last := by
  apply Leads.bind carries
  · intro value middle ends
    exact Leads.mono (onward value middle ends.1 ends.2)
      (fun _ _ later => ⟨trans ends.1 later.1, later.2⟩) (fun _ _ later => trans ends.1 later)
      (fun _ later => trans ends.1 later)
  · exact fun _ _ ends => ends
  · exact fun _ ends => ends

theorem Carries.attempt (carries : Carries reaches action state after) :
    Carries reaches (action.attempt : Act σ δ (Except ε α)) state
      (fun result final => ∀ value, result = .ok value → after value final) := by
  apply leads_attempt
  apply Leads.mono carries
  · intro value final ends
    refine ⟨ends.1, ?_⟩
    intro other same
    cases same
    exact ends.2
  · intro cause final ends
    refine ⟨ends, ?_⟩
    intro other impossible
    cases impossible
  · exact fun _ ends => ends

theorem Carries.mapError (carries : Carries reaches action state after) (say : ε → δ) :
    Carries reaches (action.mapError say) state after :=
  leads_mapError carries

end Carries

end AccessPolicy.Act
