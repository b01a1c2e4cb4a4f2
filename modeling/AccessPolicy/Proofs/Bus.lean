import AccessPolicy.Bus

/-!
What waits in a subscription: everything published since it was made, in order, as long as it is
held, but for what has been taken out of its queue.
-/
namespace AccessPolicy

namespace Bus

variable {μ : Type} {bus : Bus μ} {number other : Nat}

/-- Messages that are published are handed to the subscription. -/
def Reaches (bus : Bus μ) (number : Nat) : Prop :=
  ∃ queue, bus.subscriptions[number]? = some ⟨queue, true, true⟩

theorem Reaches.lt_length (reaches : bus.Reaches number) : number < bus.subscriptions.length := by
  obtain ⟨queue, present⟩ := reaches
  exact (List.getElem?_eq_some_iff.mp present).1

theorem Reaches.publish (reaches : bus.Reaches number) (message : μ) :
    (bus.publish message).Reaches number ∧
      (bus.publish message).waiting number = bus.waiting number ++ [message] := by
  obtain ⟨queue, present⟩ := reaches
  have handed : (bus.publish message).subscriptions[number]? =
      some ⟨queue ++ [message], true, true⟩ := by
    simp [Bus.publish, deliver, present]
  refine ⟨⟨_, handed⟩, ?_⟩
  simp only [waiting, handed, present]

theorem Reaches.publishEach (messages : List μ) : ∀ {bus : Bus μ}, bus.Reaches number →
    (messages.foldl Bus.publish bus).Reaches number ∧
      (messages.foldl Bus.publish bus).waiting number = bus.waiting number ++ messages := by
  induction messages with
  | nil => exact fun reaches => ⟨reaches, (List.append_nil _).symm⟩
  | cons message rest ih =>
    intro bus reaches
    obtain ⟨listed, handed⟩ := reaches.publish message
    obtain ⟨reached, waits⟩ := ih listed
    refine ⟨reached, ?_⟩
    rw [List.foldl_cons, waits, handed, List.append_assoc]
    rfl

theorem reaches_subscribe (bus : Bus μ) : bus.subscribe.2.Reaches bus.subscribe.1 :=
  ⟨[], List.getElem?_concat_length⟩

theorem Reaches.subscribe (reaches : bus.Reaches number) :
    bus.subscribe.2.Reaches number ∧ bus.subscribe.2.waiting number = bus.waiting number := by
  have same : bus.subscribe.2.subscriptions[number]? = bus.subscriptions[number]? :=
    List.getElem?_append_left reaches.lt_length
  refine ⟨?_, ?_⟩
  · unfold Reaches
    rw [same]
    exact reaches
  · unfold waiting
    rw [same]

/-- The queue of a subscription becomes another. -/
def requeue (bus : Bus μ) (number : Nat) (edit : List μ → List μ) : Bus μ :=
  ⟨bus.subscriptions.modify number (fun subscription =>
    { subscription with queue := edit subscription.queue })⟩

theorem requeue_id (bus : Bus μ) (number : Nat) : bus.requeue number id = bus := by
  have same : bus.subscriptions.modify number id = bus.subscriptions := List.modify_id _ _
  exact congrArg Bus.mk same

theorem Reaches.requeue (reaches : bus.Reaches number) (edit : List μ → List μ) :
    (bus.requeue number edit).Reaches number ∧
      (bus.requeue number edit).waiting number = edit (bus.waiting number) := by
  obtain ⟨queue, present⟩ := reaches
  have edited : (bus.requeue number edit).subscriptions[number]? = some ⟨edit queue, true, true⟩ := by
    simp [Bus.requeue, present]
  refine ⟨⟨_, edited⟩, ?_⟩
  simp only [waiting, edited, present]

theorem Reaches.requeue_other (reaches : bus.Reaches number) (different : other ≠ number)
    (edit : List μ → List μ) : (bus.requeue other edit).Reaches number ∧
      (bus.requeue other edit).waiting number = bus.waiting number := by
  have same : (bus.requeue other edit).subscriptions[number]? = bus.subscriptions[number]? := by
    simp [Bus.requeue, different]
  refine ⟨?_, ?_⟩
  · unfold Reaches
    rw [same]
    exact reaches
  · unfold waiting
    rw [same]

end Bus

end AccessPolicy
