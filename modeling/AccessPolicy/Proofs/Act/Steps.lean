import AccessPolicy.Proofs.Act

/-!
Actions that are made step by step, so that others can make steps between. Each step is marked with
what it is about. Without others the steps make up one action; beside others they rely on what those
guarantee.
-/
namespace AccessPolicy

instance {σ ε : Type} : LawfulMonad (Act σ ε) := by
  refine LawfulMonad.mk' _ ?_ ?_ ?_
  · intro α action
    funext state
    change action.bind Act.pure state = action state
    unfold Act.bind
    split <;> simp_all [Act.pure]
  · exact fun _ _ => rfl
  · intro α β γ action next last
    funext state
    simp only [Act.bind_apply]
    generalize action state = result
    obtain ⟨outcome, middle⟩ := result
    cases outcome <;> rfl

/-- An outcome, or a step and what comes after it. The state that a step starts from decides where it
leads and how they go on. -/
inductive Steps (σ ι ε α : Type) : Type where
  | done (outcome : Outcome ε α)
  | step (mark : ι) (move : σ → σ) (next : σ → Steps σ ι ε α)

namespace Steps

variable {σ ι κ ε δ α β : Type}

def bind : Steps σ ι ε α → (α → Steps σ ι ε β) → Steps σ ι ε β
  | done (.ok value), next => next value
  | done (.error cause), _ => done (.error cause)
  | done (.halted cause), _ => done (.halted cause)
  | step mark move rest, next => step mark move fun state => (rest state).bind next

instance : Monad (Steps σ ι ε) where
  pure value := done (.ok value)
  bind := bind

instance : LawfulMonad (Steps σ ι ε) := by
  refine LawfulMonad.mk' _ ?_ ?_ ?_
  · intro α steps
    change steps.bind (fun value => done (.ok value)) = steps
    induction steps with
    | done outcome => cases outcome <;> rfl
    | step mark move next ih => exact congrArg (step mark move) (funext ih)
  · exact fun _ _ => rfl
  · intro α β γ steps next last
    change (steps.bind next).bind last = steps.bind fun value => (next value).bind last
    induction steps with
    | done outcome => cases outcome <;> rfl
    | step mark move rest ih => exact congrArg (step mark move) (funext ih)

/-- An action as a single step. -/
def once (mark : ι) (action : Act σ ε α) : Steps σ ι ε α :=
  step mark (fun state => (action state).2) fun state => done (action state).1

def run : Steps σ ι ε α → Act σ ε α
  | done outcome => fun state => (outcome, state)
  | step _ move next => fun state => (next state).run (move state)

/-- The mark of the step that is made next. -/
def due : Steps σ ι ε α → Option ι
  | done _ => none
  | step mark _ _ => some mark

section Run

theorem run_pure (value : α) : (Pure.pure value : Steps σ ι ε α).run = Pure.pure value := rfl

theorem run_once (mark : ι) (action : Act σ ε α) : (once mark action).run = action := rfl

theorem run_bind (steps : Steps σ ι ε α) (next : α → Steps σ ι ε β) :
    (steps >>= next).run = steps.run >>= fun value => (next value).run := by
  funext state
  change (steps.bind next).run state = _
  induction steps generalizing state with
  | done outcome => cases outcome <;> rfl
  | step mark move rest ih => exact ih state (move state)

theorem run_ite (condition : Prop) [Decidable condition] (steps other : Steps σ ι ε α) :
    (if condition then steps else other).run = if condition then steps.run else other.run := by
  split <;> rfl

end Run

/-- The steps of two are made in some order, each where it may be made beside what is due of the other,
from one state to another. -/
inductive Overlap (may : ι → Option κ → σ → Prop) (mayToo : κ → Option ι → σ → Prop) :
    Steps σ ι ε α → Steps σ κ δ β → σ → σ → Prop
  | ended {outcome : Outcome ε α} {outcomeToo : Outcome δ β} {state : σ} :
      Overlap may mayToo (done outcome) (done outcomeToo) state state
  | left {mark : ι} {move : σ → σ} {next : σ → Steps σ ι ε α} {other : Steps σ κ δ β} {state final : σ}
      (allowed : may mark other.due state)
      (rest : Overlap may mayToo (next state) other (move state) final) :
      Overlap may mayToo (step mark move next) other state final
  | right {steps : Steps σ ι ε α} {mark : κ} {move : σ → σ} {next : σ → Steps σ κ δ β} {state final : σ}
      (allowed : mayToo mark steps.due state)
      (rest : Overlap may mayToo steps (next state) (move state) final) :
      Overlap may mayToo steps (step mark move next) state final

/-- The steps made in a given order, as far as they are allowed to be. -/
def play (allows : ι → Option κ → σ → Bool) (allowsToo : κ → Option ι → σ → Bool) :
    List Bool → Steps σ ι ε α → Steps σ κ δ β → σ → Option σ
  | [], done _, done _, state => some state
  | true :: order, step mark move next, other, state =>
    if allows mark other.due state then play allows allowsToo order (next state) other (move state)
    else none
  | false :: order, steps, step mark move next, state =>
    if allowsToo mark steps.due state then
      play allows allowsToo order steps (next state) (move state)
    else none
  | _, _, _, _ => none

theorem overlap_of_play {may : ι → Option κ → σ → Prop} {mayToo : κ → Option ι → σ → Prop}
    {allows : ι → Option κ → σ → Bool} {allowsToo : κ → Option ι → σ → Bool}
    (sound : ∀ mark other state, allows mark other state = true → may mark other state)
    (soundToo : ∀ mark other state, allowsToo mark other state = true → mayToo mark other state)
    {order : List Bool} {steps : Steps σ ι ε α} {other : Steps σ κ δ β} {state final : σ}
    (played : play allows allowsToo order steps other state = some final) :
    Overlap may mayToo steps other state final := by
  induction order generalizing steps other state with
  | nil =>
    match steps, other with
    | done _, done _ =>
      cases played
      exact .ended
    | done _, step .. => cases played
    | step .., _ => cases played
  | cons first order ih =>
    match first, steps, other with
    | true, step mark move next, other =>
      unfold play at played
      split at played
      · rename_i allowed
        exact .left (sound _ _ _ allowed) (ih played)
      · cases played
    | true, done _, _ => cases played
    | false, steps, step mark move next =>
      unfold play at played
      split at played
      · rename_i allowed
        exact .right (soundToo _ _ _ allowed) (ih played)
      · cases played
    | false, steps, done _ => cases steps <;> cases played

/-- Each step that may be made preserves what holds with what is due of these steps and of others. -/
def Guards (holds : Option ι → Option κ → σ → Prop) (may : ι → Option κ → σ → Prop) :
    Steps σ ι ε α → Prop
  | done _ => True
  | step mark move next => ∀ other state, holds (some mark) other state → may mark other state →
      holds (next state).due other (move state) ∧ Guards holds may (next state)

section Guards

variable {holds : Option ι → Option κ → σ → Prop} {may : ι → Option κ → σ → Prop}
variable {mayToo : κ → Option ι → σ → Prop}

theorem Overlap.preserves {steps : Steps σ ι ε α} {other : Steps σ κ δ β} {state final : σ}
    (overlap : Overlap may mayToo steps other state final) (guards : Guards holds may steps)
    (guardsToo : Guards (fun due others => holds others due) mayToo other)
    (start : holds steps.due other.due state) : holds none none final := by
  induction overlap with
  | ended => exact start
  | left allowed rest ih =>
    obtain ⟨after, guardsNext⟩ := guards _ _ start allowed
    exact ih guardsNext guardsToo after
  | right allowed rest ih =>
    obtain ⟨after, guardsNext⟩ := guardsToo _ _ start allowed
    exact ih guards guardsNext after

/-- Where something holds the steps can go on: what is to hold before the first of them holds, and
they are guarded. -/
def Resumes (holds : Option ι → Option κ → σ → Prop) (may : ι → Option κ → σ → Prop)
    (start : Option κ → σ → Prop) (steps : Steps σ ι ε α) : Prop :=
  (∀ other state, start other state → holds steps.due other state) ∧ Guards holds may steps

/-- Each of the steps, made one after the other from a state, meets a condition. -/
def Along (condition : ι → σ → Prop) : Steps σ ι ε α → σ → Prop
  | done _, _ => True
  | step mark move next, state =>
    condition mark state ∧ Along condition (next state) (move state)

/-- Without others the steps make their way through states in which the invariant holds. -/
theorem Guards.along {steps : Steps σ ι ε α} (guards : Guards holds may steps)
    (allowed : ∀ mark state, may mark none state) {state : σ} (start : holds steps.due none state) :
    Along (fun mark => holds (some mark) none) steps state ∧ holds none none (steps.run state).2 := by
  induction steps generalizing state with
  | done outcome => exact ⟨trivial, start⟩
  | step mark move next ih =>
    obtain ⟨after, onward⟩ := guards none state start (allowed mark state)
    obtain ⟨along, ends⟩ := ih state onward after
    exact ⟨⟨start, along⟩, ends⟩

theorem Along.mono {condition weaker : ι → σ → Prop} {steps : Steps σ ι ε α} {state : σ}
    (along : Along condition steps state) (enough : ∀ mark state, condition mark state → weaker mark state) :
    Along weaker steps state := by
  induction steps generalizing state with
  | done outcome => exact trivial
  | step mark move next ih => exact ⟨enough mark state along.1, ih state along.2⟩

variable {start : Option κ → σ → Prop}

/-- What an action leads to when steps go on after it. -/
def Continues (holds : Option ι → Option κ → σ → Prop) (may : ι → Option κ → σ → Prop)
    (other : Option κ) (steps : Steps σ ι ε α) (state : σ) : Prop :=
  holds steps.due other state ∧ Guards holds may steps

theorem Resumes.continues {steps : Steps σ ι ε α} (resumes : Resumes holds may start steps)
    {other : Option κ} {state : σ} (holds_start : start other state) :
    Continues holds may other steps state :=
  ⟨resumes.1 other state holds_start, resumes.2⟩

theorem Resumes.of_stronger {stronger : Option κ → σ → Prop} {steps : Steps σ ι ε α}
    (resumes : Resumes holds may start steps)
    (enough : ∀ other state, stronger other state → start other state) :
    Resumes holds may stronger steps :=
  ⟨fun other state begins => resumes.1 other state (enough other state begins), resumes.2⟩

theorem resumes_pure (ends : ∀ other state, start other state → holds none other state) (value : α) :
    Resumes holds may start (Pure.pure value : Steps σ ι ε α) :=
  ⟨ends, trivial⟩

/-- After a step the rest goes on; nothing is due when it fails or halts. -/
theorem resumes_once_bind {mark : ι} {action : Act σ ε α} {next : α → Steps σ ι ε β}
    (awaits : ∀ other state, start other state → holds (some mark) other state)
    (leads : ∀ other state, holds (some mark) other state → may mark other state →
      Act.Leads action state (fun value => Continues holds may other (next value))
        (fun _ => holds none other) (holds none other)) :
    Resumes holds may start (once mark action >>= next) := by
  refine ⟨awaits, ?_⟩
  intro other state begins allowed
  have ends := leads other state begins allowed
  unfold Act.Leads Act.Ends at ends
  change holds ((done (action state).1).bind next).due other (action state).2 ∧
    Guards holds may ((done (action state).1).bind next)
  generalize action state = result at ends ⊢
  obtain ⟨outcome, after⟩ := result
  cases outcome with
  | ok value => exact ends
  | error cause => exact ⟨ends, trivial⟩
  | halted cause => exact ⟨ends, trivial⟩

end Guards

end Steps

end AccessPolicy
