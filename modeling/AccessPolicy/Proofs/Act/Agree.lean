import AccessPolicy.Act

/-!
Two actions side by side, each from its own state. They agree if they end alike and leave states that
are alike.
-/
namespace AccessPolicy.Act

variable {σ ε δ α β : Type} {alike : σ → σ → Prop} {action other : Act σ ε α} {one two : σ}
variable {next nextOther : α → Act σ ε β}

def Agree (alike : σ → σ → Prop) (action other : Act σ ε α) (one two : σ) : Prop :=
  (other two).1 = (action one).1 ∧ alike (action one).2 (other two).2

theorem agree_pure (value : α) (same : alike one two) :
    Agree alike (Pure.pure value : Act σ ε α) (Pure.pure value) one two :=
  ⟨rfl, same⟩

theorem agree_fail (cause : ε) (same : alike one two) :
    Agree alike (Act.fail cause : Act σ ε α) (Act.fail cause) one two :=
  ⟨rfl, same⟩

theorem agree_halt (cause : Halt) (same : alike one two) :
    Agree alike (Act.halt cause : Act σ ε α) (Act.halt cause) one two :=
  ⟨rfl, same⟩

theorem agree_ofExcept (result : Except ε α) (same : alike one two) :
    Agree alike (Act.ofExcept result : Act σ ε α) (Act.ofExcept result) one two := by
  cases result with
  | ok value => exact agree_pure value same
  | error cause => exact agree_fail cause same

theorem agree_modify {change changeOther : σ → σ} (same : alike (change one) (changeOther two)) :
    Agree alike (Act.modify change : Act σ ε Unit) (Act.modify changeOther) one two :=
  ⟨rfl, same⟩

theorem agree_read {next nextOther : σ → Act σ ε β}
    (onward : Agree alike (next one) (nextOther two) one two) :
    Agree alike (Act.state >>= next) (Act.state >>= nextOther) one two :=
  onward

/-- What comes after agrees if it does so for every value and from states that are alike. -/
theorem Agree.bind (agree : Agree alike action other one two)
    (onward : ∀ value one two, alike one two → Agree alike (next value) (nextOther value) one two) :
    Agree alike (action >>= next) (other >>= nextOther) one two := by
  obtain ⟨same, after⟩ := agree
  unfold Agree
  rw [bind_apply, bind_apply]
  generalize action one = result at same after ⊢
  generalize other two = resultOther at same after ⊢
  obtain ⟨outcome, first⟩ := result
  obtain ⟨_, second⟩ := resultOther
  cases same
  cases outcome with
  | ok value => exact onward value first second after
  | error cause => exact ⟨rfl, after⟩
  | halted cause => exact ⟨rfl, after⟩

theorem Agree.attempt (agree : Agree alike action other one two) :
    Agree alike (action.attempt : Act σ δ (Except ε α)) other.attempt one two := by
  obtain ⟨same, after⟩ := agree
  unfold Agree Act.attempt
  generalize action one = result at same after ⊢
  generalize other two = resultOther at same after ⊢
  obtain ⟨outcome, first⟩ := result
  obtain ⟨_, second⟩ := resultOther
  cases same
  cases outcome <;> exact ⟨rfl, after⟩

theorem Agree.mapError (agree : Agree alike action other one two) (say : ε → δ) :
    Agree alike (action.mapError say) (other.mapError say) one two := by
  obtain ⟨same, after⟩ := agree
  unfold Agree Act.mapError
  generalize action one = result at same after ⊢
  generalize other two = resultOther at same after ⊢
  obtain ⟨outcome, first⟩ := result
  obtain ⟨_, second⟩ := resultOther
  cases same
  cases outcome <;> exact ⟨rfl, after⟩

end AccessPolicy.Act
