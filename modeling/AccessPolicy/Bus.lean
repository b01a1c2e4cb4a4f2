/-!
A bus that hands every message to every subscription made before it. Subscriptions are numbered in
the order they are made; one that was dropped is taken off the list at the next message.
-/
namespace AccessPolicy

structure Subscription (μ : Type) where
  /-- Messages that wait to be received, in the order they were published. -/
  queue : List μ
  /-- The receiver still holds it. -/
  held : Bool
  /-- The bus still hands messages to it. -/
  listed : Bool

structure Bus (μ : Type) where
  subscriptions : List (Subscription μ)

namespace Bus

variable {μ : Type}

def empty : Bus μ := ⟨[]⟩

/-- How many subscriptions the bus lists, as of the last message. -/
def subscriberCount (bus : Bus μ) : Nat :=
  (bus.subscriptions.filter (·.listed)).length

/-- Makes a subscription and returns its number. -/
def subscribe (bus : Bus μ) : Nat × Bus μ :=
  (bus.subscriptions.length, ⟨bus.subscriptions ++ [⟨[], true, true⟩]⟩)

/-- Hands a message to one subscription, or takes it off the list. -/
def deliver (message : μ) (subscription : Subscription μ) : Subscription μ :=
  if !subscription.listed then subscription
  else if subscription.held then
    { subscription with queue := subscription.queue ++ [message] }
  else { subscription with listed := false }

def publish (bus : Bus μ) (message : μ) : Bus μ :=
  ⟨bus.subscriptions.map (deliver message)⟩

/-- Gives up a subscription with all that it still holds. -/
def drop (bus : Bus μ) (number : Nat) : Bus μ :=
  ⟨bus.subscriptions.modify number (fun subscription =>
    { subscription with
      queue := []
      held := false })⟩

def isHeld (bus : Bus μ) (number : Nat) : Bool :=
  bus.subscriptions[number]?.any (·.held)

def receive (bus : Bus μ) (number : Nat) : Option μ × Bus μ :=
  match bus.subscriptions[number]? with
  | some subscription =>
    (subscription.queue.head?, ⟨bus.subscriptions.modify number (fun subscription =>
      { subscription with queue := subscription.queue.tail })⟩)
  | none => (none, bus)

def waiting (bus : Bus μ) (number : Nat) : List μ :=
  match bus.subscriptions[number]? with
  | some subscription => subscription.queue
  | none => []

def clear (bus : Bus μ) (number : Nat) : Bus μ :=
  ⟨bus.subscriptions.modify number (fun subscription => { subscription with queue := [] })⟩

end Bus

end AccessPolicy
