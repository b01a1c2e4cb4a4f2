/-!
Actions over a state. An action ends with a value, with an error that its caller may handle, or
halts, which no caller but the outermost handles; in every case the state it has reached stays.
-/
namespace AccessPolicy

/-- Why an action halted without an answer. -/
inductive Halt where
  /-- An instant after the last one of the calendar was needed. -/
  | calendarEnd
  /-- More requests were to be let in at a time than can be counted. -/
  | tooWide
  /-- The time that the action had is over. -/
  | deadline
  /-- The call that the action was part of ended before it. -/
  | abandoned
deriving DecidableEq, Repr

inductive Outcome (ε α : Type) where
  | ok (value : α)
  | error (cause : ε)
  | halted (halt : Halt)
deriving Repr

def Act (σ ε α : Type) : Type :=
  σ → Outcome ε α × σ

namespace Act

variable {σ ε δ α β : Type}

def pure (value : α) : Act σ ε α := fun state => (.ok value, state)

def bind (action : Act σ ε α) (next : α → Act σ ε β) : Act σ ε β := fun state =>
  match action state with
  | (.ok value, state) => next value state
  | (.error cause, state) => (.error cause, state)
  | (.halted halt, state) => (.halted halt, state)

instance : Monad (Act σ ε) where
  pure := Act.pure
  bind := Act.bind

def state : Act σ ε σ := fun state => (.ok state, state)

def modify (change : σ → σ) : Act σ ε Unit := fun state => (.ok (), change state)

def fail (cause : ε) : Act σ ε α := fun state => (.error cause, state)

def halt (cause : Halt) : Act σ ε α := fun state => (.halted cause, state)

def ofExcept : Except ε α → Act σ ε α
  | .ok value => pure value
  | .error cause => fail cause

/-- Hands an error to the caller as a value. -/
def attempt (action : Act σ ε α) : Act σ δ (Except ε α) := fun state =>
  match action state with
  | (.ok value, state) => (.ok (.ok value), state)
  | (.error cause, state) => (.ok (.error cause), state)
  | (.halted halt, state) => (.halted halt, state)

/-- Says an error in the caller's words. -/
def mapError (action : Act σ ε α) (say : ε → δ) : Act σ δ α := fun state =>
  match action state with
  | (.ok value, state) => (.ok value, state)
  | (.error cause, state) => (.error (say cause), state)
  | (.halted halt, state) => (.halted halt, state)

@[simp] theorem pure_apply (value : α) (state : σ) :
    (Pure.pure value : Act σ ε α) state = (.ok value, state) := rfl

theorem bind_apply (action : Act σ ε α) (next : α → Act σ ε β) (state : σ) :
    (action >>= next) state =
      match action state with
      | (.ok value, state) => next value state
      | (.error cause, state) => (.error cause, state)
      | (.halted halt, state) => (.halted halt, state) := rfl

@[simp] theorem state_apply (state : σ) : (Act.state : Act σ ε σ) state = (.ok state, state) := rfl

@[simp] theorem modify_apply (change : σ → σ) (state : σ) :
    (Act.modify change : Act σ ε Unit) state = (.ok (), change state) := rfl

@[simp] theorem fail_apply (cause : ε) (state : σ) :
    (Act.fail cause : Act σ ε α) state = (.error cause, state) := rfl

@[simp] theorem halt_apply (cause : Halt) (state : σ) :
    (Act.halt cause : Act σ ε α) state = (.halted cause, state) := rfl

end Act

end AccessPolicy
