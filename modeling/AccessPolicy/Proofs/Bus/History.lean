import AccessPolicy.Proofs.Bus
import Mathlib.Data.List.Induction
import Mathlib.Data.List.Range

/-!
A bus through calls of every kind, told by what was asked and what was answered. Each subscription
receives what was published since it was made, in order and once, whatever becomes of the others.
-/
namespace AccessPolicy

namespace Bus

/-- What can be asked of a bus and of its subscriptions. -/
inductive Call (μ : Type) where
  | subscribe
  | publish (message : μ)
  | receive (number : Nat)
  | drop (number : Nat)

inductive Reply (μ : Type) where
  | subscribed (number : Nat)
  | published
  | received (message : Option μ)
  | dropped (held : Bool)

variable {μ : Type}

namespace Call

def isSubscribe : Call μ → Bool
  | .subscribe => true
  | _ => false

def message? : Call μ → Option μ
  | .publish message => some message
  | _ => none

def drops (number : Nat) : Call μ → Bool
  | .drop other => other == number
  | _ => false

def receives (number : Nat) : Call μ → Bool
  | .receive other => other == number
  | _ => false

/-- It is made of the bus, or of the subscription with the number. -/
def Concerns (number : Nat) : Call μ → Prop
  | .subscribe => True
  | .publish _ => True
  | .receive other => other = number
  | .drop other => other = number

end Call

def perform (bus : Bus μ) : Call μ → Reply μ × Bus μ
  | .subscribe => (.subscribed bus.subscribe.1, bus.subscribe.2)
  | .publish message => (.published, bus.publish message)
  | .receive number => (.received (bus.receive number).1, (bus.receive number).2)
  | .drop number => (.dropped (bus.isHeld number), bus.drop number)

/-- A call and its answer. -/
structure Exchange (μ : Type) where
  call : Call μ
  answer : Reply μ

/-- The message that a subscription receives. -/
def Exchange.taken? (number : Nat) : Exchange μ → Option μ
  | ⟨.receive other, .received message⟩ => if other = number then message else none
  | _ => none

def exchange (bus : Bus μ) (call : Call μ) : Exchange μ :=
  ⟨call, (bus.perform call).1⟩

def run (bus : Bus μ) (calls : List (Call μ)) : Bus μ :=
  calls.foldl (fun bus call => (bus.perform call).2) bus

def history (bus : Bus μ) : List (Call μ) → List (Exchange μ)
  | [] => []
  | call :: rest => bus.exchange call :: history (bus.perform call).2 rest

def taken (number : Nat) (exchanges : List (Exchange μ)) : List μ :=
  exchanges.filterMap (·.taken? number)

def published (calls : List (Call μ)) : List μ :=
  calls.filterMap (·.message?)

/-- How many subscriptions are made, which is the number of the next. -/
def made (calls : List (Call μ)) : Nat :=
  calls.countP (·.isSubscribe)

/-- The calls after the one that makes the subscription with the number. -/
def since (number : Nat) : List (Call μ) → List (Call μ)
  | [] => []
  | call :: rest =>
    if call.isSubscribe then
      match number with
      | 0 => rest
      | fewer + 1 => since fewer rest
    else since number rest

def isDropped (number : Nat) (calls : List (Call μ)) : Bool :=
  (since number calls).any (·.drops number)

/-- How many of the subscriptions that are made are also dropped. -/
def dropped (calls : List (Call μ)) : Nat :=
  (List.range (made calls)).countP fun number => isDropped number calls

/-- The subscription was given up, with all that waited in it. -/
def Gone (bus : Bus μ) (number : Nat) : Prop :=
  ∃ listed, bus.subscriptions[number]? = some ⟨[], false, listed⟩

variable {bus one other : Bus μ} {number : Nat} {call : Call μ} {calls before after : List (Call μ)}

section Step

theorem receive_fst (bus : Bus μ) (number : Nat) :
    (bus.receive number).1 = (bus.waiting number).head? := by
  unfold receive waiting
  cases bus.subscriptions[number]? with
  | none => rfl
  | some subscription => rfl

theorem receive_snd (bus : Bus μ) (number : Nat) :
    (bus.receive number).2 = bus.requeue number List.tail := by
  unfold receive requeue
  cases found : bus.subscriptions[number]? with
  | some subscription => rfl
  | none =>
    have short : bus.subscriptions.length ≤ number := List.getElem?_eq_none_iff.mp found
    simp only [List.modify_eq_self short]

/-- What is received is what waits in front. -/
theorem taken?_exchange (bus : Bus μ) (number : Nat) (call : Call μ) :
    (bus.exchange call).taken? number =
      if call.receives number then (bus.waiting number).head? else none := by
  cases call with
  | receive asked =>
    simp only [exchange, perform, receive_fst, Exchange.taken?, Call.receives, beq_iff_eq]
    split
    · next same => rw [same]
    · rfl
  | subscribe | publish _ | drop _ => rfl

theorem taken?_of_waiting_eq_nil (empty : bus.waiting number = []) (call : Call μ) :
    (bus.exchange call).taken? number = none := by
  rw [taken?_exchange, empty, List.head?_nil, ite_self]

theorem head?_toList_append_tail (messages : List μ) :
    messages.head?.toList ++ messages.tail = messages := by
  cases messages <;> rfl

/-- Whatever is published is queued, and whatever is received is taken from the front. -/
theorem Reaches.perform (reaches : bus.Reaches number) (kept : call.drops number = false) :
    (bus.perform call).2.Reaches number ∧
      ((bus.exchange call).taken? number).toList ++ (bus.perform call).2.waiting number =
        bus.waiting number ++ call.message?.toList := by
  cases call with
  | subscribe =>
    obtain ⟨reached, waits⟩ := reaches.subscribe
    exact ⟨reached, waits.trans (List.append_nil _).symm⟩
  | publish message => exact reaches.publish message
  | receive asked =>
    simp only [taken?_exchange, Bus.perform, receive_snd, Call.receives, beq_iff_eq, Call.message?,
      Option.toList_none, List.append_nil]
    by_cases same : asked = number
    · subst same
      obtain ⟨reached, waits⟩ := reaches.requeue List.tail
      rw [if_pos rfl, waits]
      exact ⟨reached, head?_toList_append_tail _⟩
    · rw [if_neg same]
      exact reaches.requeue_other same List.tail
  | drop asked =>
    have different : asked ≠ number := by simpa [Call.drops] using kept
    have unchanged : (bus.drop asked).subscriptions[number]? = bus.subscriptions[number]? := by
      simp [Bus.drop, different]
    simp only [Bus.perform, exchange, Exchange.taken?, Call.message?, Option.toList_none,
      List.append_nil, List.nil_append, Reaches, waiting, unchanged, and_true]
    exact reaches

theorem gone_drop (present : number < bus.subscriptions.length) : (bus.drop number).Gone number := by
  refine ⟨bus.subscriptions[number].listed, ?_⟩
  simp [Bus.drop, List.getElem?_eq_getElem present]

theorem Gone.waiting (gone : bus.Gone number) : bus.waiting number = [] := by
  obtain ⟨listed, found⟩ := gone
  simp only [Bus.waiting, found]

/-- What was given up stays so. -/
theorem Gone.perform (gone : bus.Gone number) (call : Call μ) : (bus.perform call).2.Gone number := by
  obtain ⟨listed, found⟩ := gone
  have present := (List.getElem?_eq_some_iff.mp found).1
  cases call with
  | subscribe => exact ⟨listed, (List.getElem?_append_left present).trans found⟩
  | publish message =>
    refine ⟨false, ?_⟩
    cases listed <;> simp [Bus.perform, Bus.publish, deliver, found]
  | receive asked =>
    refine ⟨listed, ?_⟩
    by_cases same : asked = number <;> simp [Bus.perform, receive_snd, requeue, same, found]
  | drop asked =>
    by_cases same : asked = number
    · subst same
      exact gone_drop present
    · exact ⟨listed, by simp [Bus.perform, Bus.drop, same, found]⟩

theorem length_perform (bus : Bus μ) (call : Call μ) :
    (bus.perform call).2.subscriptions.length = bus.subscriptions.length + call.isSubscribe.toNat := by
  cases call with
  | subscribe => simp [perform, Bus.subscribe, Call.isSubscribe]
  | publish message => simp [perform, Bus.publish, Call.isSubscribe]
  | receive asked => simp [perform, receive_snd, requeue, Call.isSubscribe]
  | drop asked => simp [perform, Bus.drop, Call.isSubscribe]

end Step

section Run

theorem run_concat (bus : Bus μ) (calls : List (Call μ)) (call : Call μ) :
    bus.run (calls ++ [call]) = ((bus.run calls).perform call).2 :=
  List.foldl_append

theorem history_append (bus : Bus μ) (calls more : List (Call μ)) :
    bus.history (calls ++ more) = bus.history calls ++ (bus.run calls).history more := by
  induction calls generalizing bus with
  | nil => rfl
  | cons call rest ih => exact congrArg (bus.exchange call :: ·) (ih _)

theorem taken_history_concat (bus : Bus μ) (number : Nat) (calls : List (Call μ)) (call : Call μ) :
    taken number (bus.history (calls ++ [call])) =
      taken number (bus.history calls) ++ (((bus.run calls).exchange call).taken? number).toList := by
  rw [history_append, taken, List.filterMap_append, taken]
  refine congrArg _ ?_
  simp only [history, List.filterMap_cons, List.filterMap_nil]
  cases ((bus.run calls).exchange call).taken? number <;> rfl

theorem published_concat (calls : List (Call μ)) (call : Call μ) :
    published (calls ++ [call]) = published calls ++ call.message?.toList := by
  rw [published, List.filterMap_append]
  cases call <;> rfl

theorem made_cons (call : Call μ) (calls : List (Call μ)) :
    made (call :: calls) = made calls + call.isSubscribe.toNat := by
  rw [made, List.countP_cons]
  cases call <;> rfl

theorem made_concat (calls : List (Call μ)) (call : Call μ) :
    made (calls ++ [call]) = made calls + call.isSubscribe.toNat := by
  rw [made, List.countP_append]
  cases call <;> rfl

theorem since_concat (number : Nat) (calls : List (Call μ)) (call : Call μ) :
    since number (calls ++ [call]) = if number < made calls then since number calls ++ [call] else [] := by
  induction calls generalizing number with
  | nil => cases call <;> cases number <;> rfl
  | cons first rest ih =>
    cases kind : first.isSubscribe with
    | false => simp [since, made_cons, kind, ih]
    | true =>
      cases number with
      | zero => simp [since, made_cons, kind]
      | succ fewer => simp [since, made_cons, kind, ih]

theorem length_run (calls : List (Call μ)) : (empty.run calls).subscriptions.length = made calls := by
  induction calls using List.reverseRecOn with
  | nil => rfl
  | append_singleton calls call ih => rw [run_concat, length_perform, made_concat, ih]

theorem isDropped_concat (present : number < made calls) (call : Call μ) :
    isDropped number (calls ++ [call]) = (isDropped number calls || call.drops number) := by
  simp [isDropped, since_concat, present]

/-- Nothing is received from a subscription that is not made yet. -/
theorem taken_history_of_made_le (late : made calls ≤ number) :
    taken number (empty.history calls) = [] := by
  induction calls using List.reverseRecOn with
  | nil => rfl
  | append_singleton calls call ih =>
    rw [made_concat] at late
    have absent : (empty.run calls).subscriptions[number]? = none :=
      List.getElem?_eq_none (by rw [length_run]; omega)
    have nothing : (empty.run calls).waiting number = [] := by rw [waiting, absent]
    rw [taken_history_concat, ih (by omega), taken?_of_waiting_eq_nil nothing]
    rfl

theorem reaches_run (present : number < made calls) (kept : isDropped number calls = false) :
    (empty.run calls).Reaches number ∧
      taken number (empty.history calls) ++ (empty.run calls).waiting number =
        published (since number calls) := by
  induction calls using List.reverseRecOn with
  | nil => exact absurd present (Nat.not_lt_zero number)
  | append_singleton calls call ih =>
    rw [run_concat, taken_history_concat, since_concat]
    by_cases old : number < made calls
    · rw [isDropped_concat old, Bool.or_eq_false_iff] at kept
      obtain ⟨reached, told⟩ := ih old kept.1
      obtain ⟨still, moved⟩ := reached.perform kept.2
      rw [if_pos old, published_concat, List.append_assoc, moved, ← List.append_assoc, told]
      exact ⟨still, rfl⟩
    · -- The call is the one that makes the subscription.
      rw [made_concat] at present
      cases call with
      | subscribe =>
        obtain rfl : number = made calls := by
          simp only [Call.isSubscribe, Bool.toNat_true] at present
          omega
        have reached := reaches_subscribe (empty.run calls)
        rw [Bus.subscribe, length_run] at reached
        rw [if_neg old, taken_history_of_made_le le_rfl]
        refine ⟨reached, ?_⟩
        simp [perform, Bus.subscribe, waiting, ← length_run calls, exchange, Exchange.taken?, published]
      | publish _ | receive _ | drop _ => exact absurd present old

theorem gone_run (given : isDropped number calls = true) : (empty.run calls).Gone number := by
  induction calls using List.reverseRecOn with
  | nil => exact absurd given Bool.false_ne_true
  | append_singleton calls call ih =>
    rw [run_concat]
    by_cases old : number < made calls
    · rw [isDropped_concat old, Bool.or_eq_true] at given
      rcases given with before | now
      · exact (ih before).perform call
      · cases call with
        | drop asked =>
          obtain rfl : asked = number := eq_of_beq now
          exact gone_drop (by rwa [length_run])
        | subscribe | publish _ | receive _ => exact absurd now Bool.false_ne_true
    · rw [isDropped, since_concat, if_neg old] at given
      exact absurd given Bool.false_ne_true

theorem Gone.run (gone : bus.Gone number) (calls : List (Call μ)) :
    (bus.run calls).Gone number ∧ taken number (bus.history calls) = [] := by
  induction calls generalizing bus with
  | nil => exact ⟨gone, rfl⟩
  | cons call rest ih =>
    obtain ⟨ends, later⟩ := ih (gone.perform call)
    refine ⟨ends, ?_⟩
    rw [taken, history, List.filterMap_cons, taken?_of_waiting_eq_nil gone.waiting]
    exact later

theorem run_append (bus : Bus μ) (calls more : List (Call μ)) :
    bus.run (calls ++ more) = (bus.run calls).run more :=
  List.foldl_append

/-- After a subscription was given up nothing is received from it, and nothing waits in it. -/
theorem taken_after_drop (present : number < made before) (after : List (Call μ)) :
    taken number (empty.history (before ++ .drop number :: after)) =
        taken number (empty.history before) ∧
      (empty.run (before ++ .drop number :: after)).waiting number = [] := by
  have gone : ((empty.run before).drop number).Gone number := gone_drop (by rwa [length_run])
  obtain ⟨ends, later⟩ := gone.run after
  refine ⟨?_, ?_⟩
  · rw [history_append, taken, List.filterMap_append]
    exact (congrArg _ later).trans (List.append_nil _)
  · rw [run_append]
    exact ends.waiting

end Run

section Count

theorem map_modify_of_eq {α β : Type} {view : α → β} {edit : α → α}
    (same : ∀ item, view (edit item) = view item) (items : List α) (number : Nat) :
    (items.modify number edit).map view = items.map view := by
  apply List.ext_getElem?
  intro position
  rw [List.getElem?_map, List.getElem?_map, List.getElem?_modify]
  cases items[position]? with
  | none => rfl
  | some item =>
    simp only [Option.map_eq_map, Option.map_some]
    split
    · rw [same]
    · rfl

theorem subscriberCount_eq (bus : Bus μ) :
    bus.subscriberCount = (bus.subscriptions.map (·.listed)).count true := by
  rw [subscriberCount, ← List.countP_eq_length_filter, List.count, List.countP_map]
  congr 1
  funext subscription
  simp

theorem subscriberCount_perform (silent : call.message? = none) :
    (bus.perform call).2.subscriberCount = bus.subscriberCount + call.isSubscribe.toNat := by
  rw [subscriberCount_eq, subscriberCount_eq]
  cases call with
  | subscribe => simp [perform, Bus.subscribe, Call.isSubscribe]
  | publish message => exact absurd silent (Option.some_ne_none message)
  | receive asked =>
    rw [perform, receive_snd]
    exact congrArg (List.count true) (map_modify_of_eq (by intro _; rfl) _ _)
  | drop asked => exact congrArg (List.count true) (map_modify_of_eq (by intro _; rfl) _ _)

theorem subscriberCount_run (silent : published calls = []) :
    (bus.run calls).subscriberCount = bus.subscriberCount + made calls := by
  induction calls generalizing bus with
  | nil => rfl
  | cons call rest ih =>
    have quiet : call.message? = none ∧ published rest = [] := by
      cases told : call.message? with
      | none => simpa [published, told] using silent
      | some message => simp [published, told] at silent
    have counted : ((bus.perform call).2.run rest).subscriberCount =
        (bus.perform call).2.subscriberCount + made rest := ih quiet.2
    rw [subscriberCount_perform quiet.1] at counted
    rw [made_cons]
    exact counted.trans (by omega)

/-- The bus lists the subscriptions that were held when the last message was published. -/
theorem map_listed_publish (calls : List (Call μ)) (message : μ) :
    ((empty.run calls).publish message).subscriptions.map (·.listed) =
      (List.range (made calls)).map fun number => !isDropped number calls := by
  apply List.ext_getElem?
  intro number
  rw [publish, List.map_map, List.getElem?_map, List.getElem?_map]
  by_cases present : number < made calls
  · rw [List.getElem?_range present]
    cases given : isDropped number calls with
    | false =>
      obtain ⟨⟨queue, found⟩, _⟩ := reaches_run present given
      simp [found, deliver, given]
    | true =>
      obtain ⟨listed, found⟩ := gone_run given
      cases listed <;> simp [found, deliver, given]
  · rw [List.getElem?_eq_none (by rw [length_run]; omega), List.getElem?_eq_none (by simp; omega)]
    rfl

theorem subscriberCount_publish (calls : List (Call μ)) (message : μ) :
    ((empty.run calls).publish message).subscriberCount + dropped calls = made calls := by
  have listed : ((empty.run calls).publish message).subscriberCount =
      (List.range (made calls)).countP fun number => ¬ isDropped number calls = true := by
    rw [subscriberCount_eq, map_listed_publish, List.count, List.countP_map]
    congr 1
    funext number
    simp
  rw [listed, dropped, Nat.add_comm, ← List.length_eq_countP_add_countP, List.length_range]

end Count

section Apart

/-- As many subscriptions are made of the two buses, and the one with the number is the same. -/
structure Alike (number : Nat) (one other : Bus μ) : Prop where
  length : one.subscriptions.length = other.subscriptions.length
  found : one.subscriptions[number]? = other.subscriptions[number]?

theorem Alike.perform (alike : Alike number one other) (call : Call μ) :
    Alike number (one.perform call).2 (other.perform call).2 := by
  refine ⟨by rw [length_perform, length_perform, alike.length], ?_⟩
  have found := alike.found
  cases call with
  | subscribe => simp [Bus.perform, Bus.subscribe, List.getElem?_append, alike.length, found]
  | publish message => simp [Bus.perform, Bus.publish, found]
  | receive asked => simp [Bus.perform, receive_snd, requeue, List.getElem?_modify, found]
  | drop asked => simp [Bus.perform, Bus.drop, List.getElem?_modify, found]

theorem Alike.waiting (alike : Alike number one other) : one.waiting number = other.waiting number := by
  rw [Bus.waiting, Bus.waiting, alike.found]

theorem Alike.taken? (alike : Alike number one other) (call : Call μ) :
    (one.exchange call).taken? number = (other.exchange call).taken? number := by
  rw [taken?_exchange, taken?_exchange, alike.waiting]

/-- A call that is made of another subscription changes nothing for this one. -/
theorem alike_perform (bus : Bus μ) (apart : ¬ call.Concerns number) :
    Alike number bus (bus.perform call).2 ∧ (bus.exchange call).taken? number = none := by
  cases call with
  | subscribe => exact absurd trivial apart
  | publish message => exact absurd trivial apart
  | receive asked =>
    have different : asked ≠ number := apart
    refine ⟨⟨?_, ?_⟩, if_neg different⟩
    · rw [length_perform]
      rfl
    · simp [perform, receive_snd, requeue, different]
  | drop asked =>
    have different : asked ≠ number := apart
    refine ⟨⟨?_, ?_⟩, rfl⟩
    · rw [length_perform]
      rfl
    · simp [perform, Bus.drop, different]

/-- Calls that are made of other subscriptions can be left out. -/
theorem Alike.run {keep : Call μ → Bool} (needed : ∀ call, call.Concerns number → keep call = true)
    (calls : List (Call μ)) {one other : Bus μ} (alike : Alike number one other) :
    Alike number (one.run (calls.filter keep)) (other.run calls) ∧
      taken number (one.history (calls.filter keep)) = taken number (other.history calls) := by
  induction calls generalizing one other with
  | nil => exact ⟨alike, rfl⟩
  | cons call rest ih =>
    cases kept : keep call with
    | true =>
      obtain ⟨ends, same⟩ := ih (alike.perform call)
      rw [List.filter_cons_of_pos kept]
      refine ⟨ends, ?_⟩
      rw [history, history, taken, taken, List.filterMap_cons, List.filterMap_cons, alike.taken?]
      rw [← taken, ← taken, same]
    | false =>
      have apart : ¬ call.Concerns number := fun concerned => by
        rw [needed call concerned] at kept
        cases kept
      obtain ⟨unchanged, silent⟩ := alike_perform other apart
      obtain ⟨ends, same⟩ :=
        ih ⟨alike.length.trans unchanged.length, alike.found.trans unchanged.found⟩
      rw [List.filter_cons_of_neg (by simp [kept])]
      refine ⟨ends, ?_⟩
      rw [history, taken, taken, List.filterMap_cons, silent]
      exact same

end Apart

/-- The bus neither loses, nor repeats, nor reorders. What a subscription has received, followed by what
waits in it, is what was published since it was made, until it is dropped; calls made of others make no
difference to it; every message is accepted; and the bus counts the subscriptions that were held when the
last message was published, and those made since. -/
structure Delivers (calls : List (Call μ)) : Prop where
  numbered : ∀ before after, calls = before ++ .subscribe :: after →
    (empty.run before).exchange .subscribe = ⟨.subscribe, .subscribed (made before)⟩
  offered : ∀ before number after, calls = before ++ .receive number :: after →
    (empty.run before).exchange (.receive number) =
      ⟨.receive number, .received ((empty.run before).waiting number).head?⟩
  kept : ∀ number < made calls, isDropped number calls = false →
    taken number (empty.history calls) ++ (empty.run calls).waiting number =
      published (since number calls)
  givenUp : ∀ before number after, calls = before ++ .drop number :: after → number < made before →
    taken number (empty.history calls) = taken number (empty.history before) ∧
      (empty.run calls).waiting number = []
  apart : ∀ number (keep : Call μ → Bool), (∀ call, call.Concerns number → keep call = true) →
    taken number (empty.history (calls.filter keep)) = taken number (empty.history calls) ∧
      (empty.run (calls.filter keep)).waiting number = (empty.run calls).waiting number
  accepted : ∀ exchange ∈ empty.history calls, ∀ message,
    exchange.call = .publish message → exchange.answer = .published
  counted : ∀ before message after, calls = before ++ .publish message :: after →
    published after = [] → (empty.run calls).subscriberCount + dropped before = made calls
  uncounted : published calls = [] → (empty.run calls).subscriberCount = made calls

theorem answer_of_publish {exchange : Exchange μ} {message : μ} {bus : Bus μ}
    (present : exchange ∈ bus.history calls) (published : exchange.call = .publish message) :
    exchange.answer = .published := by
  induction calls generalizing bus with
  | nil => cases present
  | cons call rest ih =>
    rcases List.mem_cons.mp present with rfl | later
    · obtain rfl : call = .publish message := published
      rfl
    · exact ih later

theorem delivers (calls : List (Call μ)) : Delivers calls where
  numbered := fun before after _ => by
    rw [exchange, perform, Bus.subscribe, length_run]
  offered := fun _ _ _ _ => by
    rw [exchange, perform, receive_fst]
  kept := fun number present kept => (reaches_run present kept).2
  givenUp := by
    rintro before number after rfl present
    exact taken_after_drop present after
  apart := fun number keep needed => by
    obtain ⟨ends, same⟩ := Alike.run needed calls ⟨rfl, rfl⟩
    exact ⟨same, ends.waiting⟩
  accepted := fun _ present _ published => answer_of_publish present published
  counted := by
    rintro before message after rfl silent
    have listed := subscriberCount_publish before message
    have grown : (((empty.run before).publish message).run after).subscriberCount =
        ((empty.run before).publish message).subscriberCount + made after :=
      subscriberCount_run silent
    have total : made (before ++ .publish message :: after) = made before + made after := by
      rw [made, made, made, List.countP_append]
      rfl
    rw [run_append, total]
    exact (congrArg (· + dropped before) grown).trans (by omega)
  uncounted := fun silent => (subscriberCount_run silent).trans (Nat.zero_add _)

end Bus

end AccessPolicy
