import AccessPolicy.Proofs.Act.Steps
import Mathlib.Data.List.Basic
import Mathlib.Logic.Relation

/-!
Many made beside each other. So many at a time have begun; they make their steps in any order and end in
any order. What each of them relies on is a relation between states that the steps of all keep.
-/
namespace AccessPolicy

variable {σ ι ε δ α β : Type}

namespace Steps

/-- Whatever others do within a relation, the steps stay within it as well, and end right. -/
def Stays (within : σ → σ → Prop) (right : Outcome ε α → σ → Prop) : Steps σ ι ε α → σ → Prop
  | done outcome, state => ∀ later, within state later → right outcome later
  | step _ move next, state => ∀ later, within state later →
      within later (move later) ∧ Stays within right (next later) (move later)

variable {within : σ → σ → Prop} {right : Outcome ε α → σ → Prop}

section Stays

theorem Stays.later {steps : Steps σ ι ε α} {state later : σ}
    (trans : ∀ {one two three}, within one two → within two three → within one three)
    (stays : Stays within right steps state) (goes : within state later) :
    Stays within right steps later := by
  cases steps with
  | done outcome => exact fun last further => stays last (trans goes further)
  | step mark move next => exact fun last further => stays last (trans goes further)

theorem Stays.run {steps : Steps σ ι ε α} {state : σ} (refl : ∀ state, within state state)
    (trans : ∀ {one two three}, within one two → within two three → within one three)
    (stays : Stays within right steps state) :
    within state (steps.run state).2 ∧ right (steps.run state).1 (steps.run state).2 := by
  induction steps generalizing state with
  | done outcome => exact ⟨refl state, stays state (refl state)⟩
  | step mark move next ih =>
    obtain ⟨moved, onward⟩ := stays state (refl state)
    obtain ⟨goes, ends⟩ := ih state onward
    exact ⟨trans moved goes, ends⟩

theorem Stays.weaken {weaker : Outcome ε α → σ → Prop} {steps : Steps σ ι ε α} {state : σ}
    (stays : Stays within right steps state)
    (less : ∀ outcome state, right outcome state → weaker outcome state) :
    Stays within weaker steps state := by
  induction steps generalizing state with
  | done outcome => exact fun later goes => less outcome later (stays later goes)
  | step mark move next ih =>
    intro later goes
    obtain ⟨moved, onward⟩ := stays later goes
    exact ⟨moved, ih later onward⟩

/-- After a single step the rest goes on, unless it has failed or halted. -/
theorem stays_once_bind {right : Outcome ε β → σ → Prop} {mark : ι} {action : Act σ ε α}
    {next : α → Steps σ ι ε β} {state : σ}
    (moves : ∀ later, within state later → ∃ outcome after, action later = (outcome, after) ∧
      within later after ∧
        Stays within right ((done outcome : Steps σ ι ε α) >>= next) after) :
    Stays within right (once mark action >>= next) state := by
  intro later goes
  obtain ⟨outcome, after, ends, moved, onward⟩ := moves later goes
  change within later (action later).2 ∧
    Stays within right ((done (action later).1 : Steps σ ι ε α) >>= next) (action later).2
  rw [ends]
  exact ⟨moved, onward⟩

/-- After steps what follows goes on, unless they have failed or halted. -/
theorem Stays.bind {middle : Outcome ε α → σ → Prop} {right : Outcome ε β → σ → Prop}
    {steps : Steps σ ι ε α} {next : α → Steps σ ι ε β} {state : σ}
    (refl : ∀ state, within state state)
    (trans : ∀ {one two three}, within one two → within two three → within one three)
    (stays : Stays within middle steps state)
    (onward : ∀ outcome later, within state later → middle outcome later →
      Stays within right ((done outcome : Steps σ ι ε α) >>= next) later) :
    Stays within right (steps >>= next) state := by
  induction steps generalizing state with
  | done outcome => exact onward outcome state (refl state) (stays state (refl state))
  | step mark move rest ih =>
    intro later goes
    obtain ⟨moved, further⟩ := stays later goes
    refine ⟨moved, ih later further fun outcome last more => ?_⟩
    exact onward outcome last (trans (trans goes moved) more)

end Stays

end Steps

/-- Those that wait, each under a number, those that have begun, and the outcomes of those that have
ended, the first of them first. -/
structure Crowd (σ ι ε α : Type) where
  queued : List (Nat × Steps σ ι ε α)
  begun : List (Nat × Steps σ ι ε α)
  state : σ
  ended : List (Nat × Outcome ε α)

namespace Crowd

def start (tasks : List (Nat × Steps σ ι ε α)) (state : σ) : Crowd σ ι ε α :=
  ⟨tasks, [], state, []⟩

/-- One begins, while fewer than `limit` have begun, or makes a step, or ends. -/
inductive Moves (limit : Nat) : Crowd σ ι ε α → Crowd σ ι ε α → Prop
  | begin {before after begun : List (Nat × Steps σ ι ε α)} {task : Nat × Steps σ ι ε α} {state : σ}
      {ended : List (Nat × Outcome ε α)} (room : begun.length < limit) :
      Moves limit ⟨before ++ task :: after, begun, state, ended⟩
        ⟨before ++ after, task :: begun, state, ended⟩
  | step {queued before after : List (Nat × Steps σ ι ε α)} {place : Nat} {mark : ι} {move : σ → σ}
      {next : σ → Steps σ ι ε α} {state : σ} {ended : List (Nat × Outcome ε α)} :
      Moves limit ⟨queued, before ++ (place, .step mark move next) :: after, state, ended⟩
        ⟨queued, before ++ (place, next state) :: after, move state, ended⟩
  | finish {queued before after : List (Nat × Steps σ ι ε α)} {place : Nat} {outcome : Outcome ε α}
      {state : σ} {ended : List (Nat × Outcome ε α)} :
      Moves limit ⟨queued, before ++ (place, .done outcome) :: after, state, ended⟩
        ⟨queued, before ++ after, state, ended ++ [(place, outcome)]⟩

/-- The numbers of all. -/
def places (crowd : Crowd σ ι ε α) : List Nat :=
  crowd.queued.map Prod.fst ++ crowd.begun.map Prod.fst ++ crowd.ended.map Prod.fst

/-- All that have not ended stay within the relation, and those that have ended did right. -/
structure Behaves (within : σ → σ → Prop) (right : Nat → Outcome ε α → Prop)
    (crowd : Crowd σ ι ε α) : Prop where
  queued : ∀ task ∈ crowd.queued,
    task.2.Stays within (fun outcome _ => right task.1 outcome) crowd.state
  begun : ∀ task ∈ crowd.begun,
    task.2.Stays within (fun outcome _ => right task.1 outcome) crowd.state
  ended : ∀ task ∈ crowd.ended, right task.1 task.2

section Run

variable {within : σ → σ → Prop} {right : Nat → Outcome ε α → Prop} {limit : Nat}
variable {crowd after : Crowd σ ι ε α}

theorem Moves.places_perm (moves : Moves limit crowd after) : after.places.Perm crowd.places := by
  rw [List.perm_iff_count]
  intro place
  cases moves with
  | begin room =>
    simp only [places, List.map_append, List.map_cons, List.count_append, List.count_cons]
    omega
  | step =>
    simp only [places, List.map_append, List.map_cons, List.count_append, List.count_cons]
  | finish =>
    simp only [places, List.map_append, List.map_cons, List.map_nil, List.count_append,
      List.count_cons, List.count_nil]
    omega

/-- A step of one leaves the others where they can go on. -/
theorem Moves.behaves (refl : ∀ state, within state state)
    (trans : ∀ {one two three}, within one two → within two three → within one three)
    (moves : Moves limit crowd after) (behaves : crowd.Behaves within right) :
    after.Behaves within right := by
  obtain ⟨queuing, going, gone⟩ := behaves
  have among {before rest : List (Nat × Steps σ ι ε α)} (task : Nat × Steps σ ι ε α)
      {other : Nat × Steps σ ι ε α} (member : other ∈ before ++ rest) :
      other ∈ before ++ task :: rest :=
    List.perm_middle.mem_iff.mpr (List.mem_cons_of_mem task member)
  cases moves with
  | @begin before rest begun task state ended room =>
    refine ⟨fun other member => queuing other (among task member), ?_, gone⟩
    intro other member
    rcases List.mem_cons.mp member with rfl | old
    · exact queuing other (List.perm_middle.mem_iff.mpr List.mem_cons_self)
    · exact going other old
  | @step queued before rest place mark move next state ended =>
    obtain ⟨moved, onward⟩ :=
      going _ (List.perm_middle.mem_iff.mpr List.mem_cons_self) state (refl state)
    refine ⟨fun other member => (queuing other member).later trans moved, ?_, gone⟩
    intro other member
    rcases List.mem_cons.mp (List.perm_middle.mem_iff.mp member) with rfl | old
    · exact onward
    · exact (going other (among _ old)).later trans moved
  | @finish queued before rest place outcome state ended =>
    have ends : right place outcome :=
      going _ (List.perm_middle.mem_iff.mpr List.mem_cons_self) state (refl state)
    refine ⟨queuing, fun other member => going other (among _ member), ?_⟩
    intro other member
    rcases List.mem_append.mp member with old | new
    · exact gone other old
    · rw [List.mem_singleton.mp new]
      exact ends

theorem behaves_of_run (refl : ∀ state, within state state)
    (trans : ∀ {one two three}, within one two → within two three → within one three)
    (run : Relation.ReflTransGen (Moves limit) crowd after) (behaves : crowd.Behaves within right) :
    after.Behaves within right ∧ after.places.Perm crowd.places := by
  induction run with
  | refl => exact ⟨behaves, List.Perm.refl _⟩
  | tail _ moves ih => exact ⟨moves.behaves refl trans ih.1, moves.places_perm.trans ih.2⟩

end Run

section Ends

variable {limit : Nat}

/-- One that has begun can go on to its end. -/
theorem exists_finished_of_begun (limit : Nat) (queued begun : List (Nat × Steps σ ι ε α))
    (state : σ) (ended : List (Nat × Outcome ε α)) : ∃ last endedToo,
      Relation.ReflTransGen (Moves limit) ⟨queued, begun, state, ended⟩
        ⟨queued, [], last, endedToo⟩ := by
  induction begun generalizing state ended with
  | nil => exact ⟨state, ended, .refl⟩
  | cons task rest ih =>
    obtain ⟨place, steps⟩ := task
    induction steps generalizing state with
    | done outcome =>
      obtain ⟨last, endedToo, run⟩ := ih state (ended ++ [(place, outcome)])
      exact ⟨last, endedToo, .head (@Moves.finish _ _ _ _ limit queued [] rest _ _ _ _) run⟩
    | step mark move next further =>
      obtain ⟨last, endedToo, run⟩ := further state (move state)
      exact ⟨last, endedToo, .head (@Moves.step _ _ _ _ limit queued [] rest _ _ _ _ _ _) run⟩

/-- As long as one may begin, all can go on to their end. -/
theorem exists_finished (room : 0 < limit) (crowd : Crowd σ ι ε α) : ∃ last : Crowd σ ι ε α,
    Relation.ReflTransGen (Moves limit) crowd last ∧ last.queued = [] ∧ last.begun = [] := by
  obtain ⟨queued, begun, state, ended⟩ := crowd
  obtain ⟨middle, endedToo, first⟩ := exists_finished_of_begun limit queued begun state ended
  suffices finished : ∃ last : Crowd σ ι ε α, Relation.ReflTransGen (Moves limit)
      ⟨queued, [], middle, endedToo⟩ last ∧ last.queued = [] ∧ last.begun = [] by
    obtain ⟨last, run, done⟩ := finished
    exact ⟨last, first.trans run, done⟩
  clear first
  induction queued generalizing middle endedToo with
  | nil => exact ⟨_, .refl, rfl, rfl⟩
  | cons task rest ih =>
    obtain ⟨next, more, run⟩ := exists_finished_of_begun limit rest [task] middle endedToo
    obtain ⟨last, onward, done⟩ := ih next more
    have begins : Moves limit ⟨task :: rest, [], middle, endedToo⟩ ⟨rest, [task], middle, endedToo⟩ :=
      @Moves.begin _ _ _ _ limit [] rest [] task middle endedToo room
    exact ⟨last, .head begins (run.trans onward), done⟩

end Ends

end Crowd

end AccessPolicy
