import AccessPolicy.Act

/-!
Where an action leads: what holds of the value and the state when it ends, of the cause and the
state when it fails, and of the state when it halts.
-/
namespace AccessPolicy

/-- What comes of a value; errors and halts stay. -/
def Outcome.map {ε α β : Type} (view : α → β) : Outcome ε α → Outcome ε β
  | .ok value => .ok (view value)
  | .error cause => .error cause
  | .halted halt => .halted halt

/-- An error in the caller's words. -/
def Outcome.mapError {ε δ α : Type} (say : ε → δ) : Outcome ε α → Outcome δ α
  | .ok value => .ok value
  | .error cause => .error (say cause)
  | .halted halt => .halted halt

def Outcome.isOk {ε α : Type} : Outcome ε α → Bool
  | .ok _ => true
  | _ => false

theorem Outcome.isOk_iff {ε α : Type} {outcome : Outcome ε α} :
    outcome.isOk = true ↔ ∃ value, outcome = .ok value := by
  cases outcome <;> simp [isOk]

namespace Act

variable {σ ε δ α β : Type}

/-- What holds of an outcome and the state it leaves. -/
def Ends (result : Outcome ε α × σ) (after : α → σ → Prop) (failed : ε → σ → Prop)
    (halted : σ → Prop) : Prop :=
  match result with
  | (.ok value, state) => after value state
  | (.error cause, state) => failed cause state
  | (.halted _, state) => halted state

/-- What holds where an action leads to from a state. -/
def Leads (action : Act σ ε α) (state : σ) (after : α → σ → Prop) (failed : ε → σ → Prop)
    (halted : σ → Prop) : Prop :=
  Ends (action state) after failed halted

variable {action : Act σ ε α} {state : σ} {after weaker : α → σ → Prop}
variable {failed weakerFailed : ε → σ → Prop} {halted weakerHalted : σ → Prop}

theorem Ends.mono {result : Outcome ε α × σ} (ends : Ends result after failed halted)
    (value : ∀ value state, after value state → weaker value state)
    (failure : ∀ cause state, failed cause state → weakerFailed cause state)
    (halt : ∀ state, halted state → weakerHalted state) :
    Ends result weaker weakerFailed weakerHalted := by
  obtain ⟨outcome, state⟩ := result
  cases outcome with
  | ok result => exact value result state ends
  | error cause => exact failure cause state ends
  | halted cause => exact halt state ends

theorem Leads.mono (leads : Leads action state after failed halted)
    (value : ∀ value state, after value state → weaker value state)
    (failure : ∀ cause state, failed cause state → weakerFailed cause state)
    (halt : ∀ state, halted state → weakerHalted state) :
    Leads action state weaker weakerFailed weakerHalted :=
  Ends.mono leads value failure halt

theorem Leads.settled {property : σ → Prop}
    (leads : Leads action state (fun _ => property) (fun _ => property) property) :
    property (action state).2 := by
  unfold Leads Ends at leads
  split at leads <;> simp_all

theorem Leads.unhalted {property : σ → Prop}
    (leads : Leads action state (fun _ => property) (fun _ => property) (fun _ => False)) :
    property (action state).2 :=
  (leads.mono (fun _ _ ends => ends) (fun _ _ ends => ends) fun _ impossible =>
    impossible.elim).settled

/-- What holds where the action ends holds when it does not halt. -/
theorem Leads.settled_of_ends {property : σ → Prop}
    (leads : Leads action state (fun _ => property) (fun _ => property) (fun _ => True))
    (ends : ∀ halt, (action state).1 ≠ .halted halt) : property (action state).2 := by
  unfold Leads Ends at leads
  split at leads <;> simp_all

theorem Leads.exists_ok
    (leads : Leads action state after (fun _ _ => False) (fun _ => False)) :
    ∃ value final, action state = (.ok value, final) ∧ after value final := by
  unfold Leads Ends at leads
  split at leads
  · rename_i value final same
    exact ⟨value, final, same, leads⟩
  · exact leads.elim
  · exact leads.elim

theorem Leads.of_eq_ok (leads : Leads action state after failed halted) {value : α} {final : σ}
    (ends : action state = (.ok value, final)) : after value final := by
  unfold Leads Ends at leads
  rw [ends] at leads
  exact leads

theorem leads_bind {next : α → Act σ ε β} {after : β → σ → Prop}
    (leads : Leads action state (fun value state => Leads (next value) state after failed halted)
      failed halted) : Leads (action >>= next) state after failed halted := by
  unfold Leads at *
  rw [bind_apply]
  generalize action state = result at leads
  obtain ⟨outcome, final⟩ := result
  cases outcome <;> exact leads

/-- The next action starts where the first one leads to; what is said of failing and of halting
becomes what is to be said. -/
theorem Leads.bind {next : α → Act σ ε β} {last : β → σ → Prop}
    (leads : Leads action state after failed halted)
    (onward : ∀ value state, after value state → Leads (next value) state last weakerFailed weakerHalted)
    (failure : ∀ cause state, failed cause state → weakerFailed cause state)
    (halt : ∀ state, halted state → weakerHalted state) :
    Leads (action >>= next) state last weakerFailed weakerHalted :=
  leads_bind (leads.mono onward failure halt)

theorem leads_pure {value : α} (holds : after value state) :
    Leads (Pure.pure value) state after failed halted :=
  holds

theorem leads_read {next : σ → Act σ ε β} {after : β → σ → Prop}
    (onward : Leads (next state) state after failed halted) :
    Leads (Act.state >>= next) state after failed halted :=
  onward

theorem leads_modify {change : σ → σ} {after : Unit → σ → Prop} (holds : after () (change state)) :
    Leads (Act.modify change : Act σ ε Unit) state after failed halted :=
  holds

theorem leads_fail {cause : ε} (holds : failed cause state) :
    Leads (Act.fail cause : Act σ ε α) state after failed halted :=
  holds

theorem leads_ofExcept {result : Except ε α} (value : ∀ value, result = .ok value → after value state)
    (failure : ∀ cause, result = .error cause → failed cause state) :
    Leads (Act.ofExcept result : Act σ ε α) state after failed halted := by
  cases result with
  | ok result => exact value result rfl
  | error cause => exact failure cause rfl

theorem leads_attempt {after : Except ε α → σ → Prop} {failed : δ → σ → Prop}
    (leads : Leads action state (fun value => after (.ok value)) (fun cause => after (.error cause))
      halted) : Leads (action.attempt : Act σ δ (Except ε α)) state after failed halted := by
  unfold Leads Act.attempt at *
  generalize action state = result at leads ⊢
  obtain ⟨outcome, final⟩ := result
  cases outcome <;> exact leads

theorem leads_mapError {say : ε → δ} {failed : δ → σ → Prop}
    (leads : Leads action state after (fun cause => failed (say cause)) halted) :
    Leads (action.mapError say) state after failed halted := by
  unfold Leads Act.mapError at *
  generalize action state = result at leads ⊢
  obtain ⟨outcome, final⟩ := result
  cases outcome <;> exact leads

/-- What follows an action takes up its value; an error or a halt is the end. -/
theorem bind_pure_apply (action : Act σ ε α) (view : α → β) (state : σ) :
    (action >>= fun value => Pure.pure (view value)) state =
      ((action state).1.map view, (action state).2) := by
  rw [bind_apply]
  generalize action state = result
  obtain ⟨outcome, after⟩ := result
  cases outcome <;> rfl

theorem mapError_apply (action : Act σ ε α) (say : ε → δ) (state : σ) :
    action.mapError say state = ((action state).1.mapError say, (action state).2) := by
  unfold Act.mapError
  generalize action state = result
  obtain ⟨outcome, after⟩ := result
  cases outcome <;> rfl

/-- A value comes of two actions when the first one ends with a value from which the second one
reaches it. -/
theorem bind_eq_ok {next : α → Act σ ε β} {value : β} {final : σ}
    (ends : (action >>= next) state = (.ok value, final)) :
    ∃ first middle, action state = (.ok first, middle) ∧ next first middle = (.ok value, final) := by
  rw [bind_apply] at ends
  rcases begins : action state with ⟨outcome, middle⟩
  rw [begins] at ends
  cases outcome with
  | ok first => exact ⟨first, middle, rfl, ends⟩
  | error | halted => cases ends

theorem mapError_eq_ok {say : ε → δ} {value : α} {final : σ}
    (ends : action.mapError say state = (.ok value, final)) : action state = (.ok value, final) := by
  rw [mapError_apply] at ends
  rcases same : action state with ⟨outcome, middle⟩
  rw [same] at ends
  cases outcome with
  | ok first =>
    cases ends
    rfl
  | error | halted => cases ends

section Yields

variable {kept : σ → Prop} {hurried : Prop}

/-- The action does not fail. It keeps a property, also when it halts, and halts only if `hurried`. -/
def Yields (kept : σ → Prop) (hurried : Prop) (action : Act σ ε α) (state : σ)
    (after : α → σ → Prop) : Prop :=
  Leads action state (fun value state => after value state ∧ kept state) (fun _ _ => False)
    (fun state => hurried ∧ kept state)

theorem Yields.mono (yields : Yields kept hurried action state after)
    (value : ∀ value state, kept state → after value state → weaker value state) :
    Yields kept hurried action state weaker :=
  Leads.mono yields (fun result final ends => ⟨value result final ends.2 ends.1, ends.2⟩)
    (fun _ _ impossible => impossible) (fun _ ends => ends)

theorem Yields.settled (yields : Yields kept hurried action state after) :
    kept (action state).2 :=
  Leads.settled (Leads.mono yields (fun _ _ ends => ends.2) (fun _ _ impossible => impossible.elim)
    (fun _ ends => ends.2))

theorem Yields.weaken {less : σ → Prop} (yields : Yields kept hurried action state after)
    (keeps : ∀ state, kept state → less state) : Yields less hurried action state after :=
  Leads.mono yields (fun _ final ends => ⟨ends.1, keeps final ends.2⟩)
    (fun _ _ impossible => impossible) (fun final ends => ⟨ends.1, keeps final ends.2⟩)

theorem yields_pure {value : α} (holds : kept state) (right : after value state) :
    Yields kept hurried (Pure.pure value : Act σ ε α) state after :=
  leads_pure ⟨right, holds⟩

theorem yields_read {next : σ → Act σ ε β} {after : β → σ → Prop}
    (onward : Yields kept hurried (next state) state after) :
    Yields kept hurried (Act.state >>= next) state after :=
  onward

theorem Yields.bind {next : α → Act σ ε β} {last : β → σ → Prop}
    (yields : Yields kept hurried action state after)
    (onward : ∀ value state, kept state → after value state →
      Yields kept hurried (next value) state last) :
    Yields kept hurried (action >>= next) state last :=
  Leads.bind yields (fun value state ends => onward value state ends.2 ends.1)
    (fun _ _ impossible => impossible) (fun _ ends => ends)

theorem Yields.attempt (yields : Yields kept hurried action state after) :
    Yields kept hurried (action.attempt : Act σ δ (Except ε α)) state
      (fun result state => ∃ value, result = .ok value ∧ after value state) :=
  leads_attempt (Leads.mono yields (fun value _ ends => ⟨⟨value, rfl, ends.1⟩, ends.2⟩)
    (fun _ _ impossible => impossible.elim) (fun _ ends => ends))

theorem Yields.mapError (yields : Yields kept hurried action state after) (say : ε → δ) :
    Yields kept hurried (action.mapError say) state after :=
  leads_mapError yields

end Yields

section Ensures

/-- The action ends with a value. -/
def Ensures (action : Act σ ε α) (state : σ) (after : α → σ → Prop) : Prop :=
  Leads action state after (fun _ _ => False) (fun _ => False)

theorem Yields.ensures {kept : σ → Prop} {hurried : Prop}
    (yields : Yields kept hurried action state after) (leisure : ¬ hurried) :
    Ensures action state (fun value state => after value state ∧ kept state) :=
  Leads.mono yields (fun _ _ ends => ends) (fun _ _ impossible => impossible)
    (fun _ ends => leisure ends.1)

theorem Ensures.bind {next : α → Act σ ε β} {last : β → σ → Prop}
    (ensures : Ensures action state after)
    (onward : ∀ value state, after value state → Leads (next value) state last failed halted) :
    Leads (action >>= next) state last failed halted :=
  Leads.bind ensures onward (fun _ _ impossible => impossible.elim)
    (fun _ impossible => impossible.elim)

/-- A step that is made on a condition, before what follows in any case. -/
theorem leads_when {condition : Prop} [Decidable condition] {next : Act σ ε β} {kept : σ → Prop}
    {last : β → σ → Prop} (step : condition → Ensures action state (fun _ => kept))
    (idle : ¬ condition → kept state)
    (onward : ∀ state, kept state → Leads next state last failed halted) :
    Leads (if condition then action >>= fun _ => next else next) state last failed halted := by
  split
  · rename_i holds
    exact (step holds).bind fun _ final ends => onward final ends
  · rename_i fails
    exact onward state (idle fails)

/-- One of two steps, before what follows in any case. -/
theorem leads_either {condition : Prop} [Decidable condition] {other : Act σ ε α}
    {next : α → Act σ ε β} {last : β → σ → Prop}
    (either : Ensures (if condition then action else other) state after)
    (onward : ∀ value state, after value state → Leads (next value) state last failed halted) :
    Leads (if condition then action >>= next else other >>= next) state last failed halted := by
  by_cases holds : condition
  · rw [if_pos holds] at either ⊢
    exact either.bind onward
  · rw [if_neg holds] at either ⊢
    exact either.bind onward

theorem Ensures.mono (ensures : Ensures action state after)
    (value : ∀ value state, after value state → weaker value state) :
    Ensures action state weaker :=
  Leads.mono ensures value (fun _ _ impossible => impossible) (fun _ impossible => impossible)

theorem Ensures.settled {property : σ → Prop} (ensures : Ensures action state (fun _ => property)) :
    property (action state).2 :=
  Leads.unhalted (Leads.mono ensures (fun _ _ ends => ends) (fun _ _ impossible => impossible.elim)
    fun _ impossible => impossible)

theorem Ensures.attempt (ensures : Ensures action state after) :
    Ensures (action.attempt : Act σ δ (Except ε α)) state
      (fun result state => ∃ value, result = .ok value ∧ after value state) :=
  leads_attempt (Leads.mono ensures (fun value _ ends => ⟨value, rfl, ends⟩)
    (fun _ _ impossible => impossible.elim) (fun _ impossible => impossible))

theorem Ensures.mapError (ensures : Ensures action state after) (say : ε → δ) :
    Ensures (action.mapError say) state after :=
  leads_mapError ensures

end Ensures

end Act

end AccessPolicy
