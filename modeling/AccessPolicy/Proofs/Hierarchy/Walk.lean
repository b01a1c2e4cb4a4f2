import AccessPolicy.Proofs.Hierarchy

/-!
Finding the groups of a name with a queue: the names whose edges have not been followed wait in it, and
every name enters it once. Whatever cycles there are and in whatever order the edges are looked at, the
queue runs empty, and what has been seen by then is what the name reaches.
-/
namespace AccessPolicy.Hierarchy

/-- What has been seen of a hierarchy, ascending, and of that what is still to be followed. -/
structure Walk where
  seen : List String
  queue : List String

namespace Walk

def start (name : String) : Walk :=
  ⟨[], [name]⟩

/-- Looks at an edge while a name is followed. A new end of the name's edges enters the queue. -/
def look (start current : String) (walk : Walk) (edge : Edge) : Walk :=
  if edge.1 = current ∧ edge.2 ≠ start ∧ edge.2 ∉ walk.seen then
    ⟨Ascending.insert edge.2 walk.seen, walk.queue ++ [edge.2]⟩
  else walk

/-- Follows the first name of the queue, if there is one. -/
def step? (edges : List Edge) (start : String) : Walk → Option Walk
  | ⟨_, []⟩ => none
  | ⟨seen, current :: queue⟩ => some (edges.foldl (look start current) ⟨seen, queue⟩)

/-- What has been seen when the queue is empty, if that is so within so many steps. -/
def found? (edges : List Edge) (start : String) : Nat → Walk → Option (List String)
  | 0, _ => none
  | steps + 1, walk =>
    match walk.step? edges start with
    | none => some walk.seen
    | some next => found? edges start steps next

/-- What has been seen is reached, and the edges from it lead to what has been seen, but for those of
names that wait and for those that are yet to be looked at. -/
structure Tracks (edges : List Edge) (start : String) (pending : List Edge) (walk : Walk) : Prop where
  ascending : walk.seen.Pairwise (· < ·)
  reached : ∀ name ∈ walk.seen, name ≠ start ∧ Reaches edges start name
  queued : ∀ name ∈ walk.queue, name = start ∨ name ∈ walk.seen
  closed : ∀ edge ∈ edges, edge.1 = start ∨ edge.1 ∈ walk.seen → edge.1 ∉ walk.queue →
    edge ∉ pending → edge.2 = start ∨ edge.2 ∈ walk.seen

/-- Bounds the steps to come: an edge is the first to lead to its end once at most. -/
def bound (edges : List Edge) (walk : Walk) : Nat :=
  (unreached edges walk.seen).length + walk.queue.length

variable {edges rest : List Edge} {start current : String} {walk : Walk} {edge : Edge}

theorem tracks_start (edges : List Edge) (start : String) :
    (Walk.start start).Tracks edges start [] where
  ascending := List.Pairwise.nil
  reached := by simp [Walk.start]
  queued := by simp [Walk.start]
  closed := by
    intro edge _ source absent _
    simp_all [Walk.start]

theorem Tracks.look (tracks : walk.Tracks edges start ((edge :: rest).filter (·.1 = current)))
    (member : edge ∈ edges) (reached : Reaches edges start current) :
    (walk.look start current edge).Tracks edges start (rest.filter (·.1 = current)) := by
  obtain ⟨ascending, sound, queued, closed⟩ := tracks
  have others : ∀ other ∈ edges, other.1 = start ∨ other.1 ∈ walk.seen → other.1 ∉ walk.queue →
      other ∉ rest.filter (·.1 = current) →
      other = edge ∧ edge.1 = current ∨ other.2 = start ∨ other.2 ∈ walk.seen := by
    intro other present source absent looked
    by_cases here : other = edge ∧ edge.1 = current
    · exact Or.inl here
    · refine Or.inr (closed other present source absent ?_)
      simp only [List.mem_filter, List.mem_cons, decide_eq_true_eq] at looked ⊢
      rintro ⟨rfl | later, here'⟩
      · exact here ⟨rfl, here'⟩
      · exact looked ⟨later, here'⟩
  unfold Walk.look
  split
  · rename_i fresh
    obtain ⟨rfl, away, unseen⟩ := fresh
    refine ⟨Ascending.pairwise_insert ascending, ?_, ?_, ?_⟩
    · intro name present
      rcases Ascending.mem_insert_iff.mp present with rfl | old
      · exact ⟨away, reached.step member⟩
      · exact sound name old
    · intro name present
      rw [Ascending.mem_insert_iff]
      rcases List.mem_append.mp present with old | new
      · exact (queued name old).imp_right Or.inr
      · exact Or.inr (Or.inl (List.mem_singleton.mp new))
    · intro other present source absent looked
      simp only [List.mem_append, List.mem_singleton, not_or] at absent
      simp only [Ascending.mem_insert_iff, absent.2, false_or] at source ⊢
      rcases others other present source absent.1 looked with ⟨rfl, _⟩ | known
      · exact Or.inr (Or.inl rfl)
      · exact known.imp_right Or.inr
  · rename_i stale
    refine ⟨ascending, sound, queued, ?_⟩
    intro other present source absent looked
    rcases others other present source absent looked with ⟨rfl, here⟩ | known
    · by_cases away : other.2 = start
      · exact Or.inl away
      · exact Or.inr (Decidable.not_not.mp fun unseen => stale ⟨here, away, unseen⟩)
    · exact known

theorem Tracks.foldl_look (within : ∀ edge ∈ rest, edge ∈ edges)
    (tracks : walk.Tracks edges start (rest.filter (·.1 = current)))
    (reached : Reaches edges start current) :
    (rest.foldl (Walk.look start current) walk).Tracks edges start [] := by
  induction rest generalizing walk with
  | nil => exact tracks
  | cons edge rest ih =>
    obtain ⟨member, within⟩ := List.forall_mem_cons.mp within
    exact ih within (tracks.look member reached)

/-- The name that is followed leaves the queue, and its edges are yet to be looked at. -/
theorem Tracks.follow {seen queue : List String}
    (tracks : (⟨seen, current :: queue⟩ : Walk).Tracks edges start []) :
    (⟨seen, queue⟩ : Walk).Tracks edges start (edges.filter (·.1 = current)) := by
  refine ⟨tracks.ascending, tracks.reached, ?_, ?_⟩
  · exact fun name present => tracks.queued name (List.mem_cons_of_mem _ present)
  · intro edge member source absent looked
    simp only [List.mem_filter, member, true_and, decide_eq_true_eq] at looked
    exact tracks.closed edge member source (by simp [absent, looked]) (by simp)

theorem bound_look_le (member : edge ∈ edges) :
    (walk.look start current edge).bound edges ≤ walk.bound edges := by
  unfold look
  split
  · rename_i fresh
    have fewer := length_unreached_insert_lt member fresh.2.2
    simp only [bound, List.length_append, List.length_singleton]
    omega
  · exact Nat.le_refl _

theorem bound_foldl_look_le (within : ∀ edge ∈ rest, edge ∈ edges) :
    (rest.foldl (look start current) walk).bound edges ≤ walk.bound edges := by
  induction rest generalizing walk with
  | nil => exact Nat.le_refl _
  | cons edge rest ih =>
    obtain ⟨member, within⟩ := List.forall_mem_cons.mp within
    exact Nat.le_trans (ih within) (bound_look_le member)

/-- When the queue is empty, all that the start reaches has been seen. -/
theorem Tracks.seen_eq {seen : List String}
    (tracks : (⟨seen, []⟩ : Walk).Tracks edges start []) : seen = reach edges start := by
  refine Ascending.eq_of_mem_iff tracks.ascending (pairwise_reach edges start) fun name => ?_
  rw [mem_reach_iff]
  refine ⟨tracks.reached name, fun ⟨away, reached⟩ => ?_⟩
  refine (mem_of_closed ?_ reached).resolve_left away
  exact fun edge member source => tracks.closed edge member source (by simp) (by simp)

theorem found?_of_tracks {steps : Nat} (tracks : walk.Tracks edges start [])
    (enough : walk.bound edges < steps) : found? edges start steps walk = some (reach edges start) := by
  induction steps generalizing walk with
  | zero => exact absurd enough (Nat.not_lt_zero _)
  | succ steps ih =>
    obtain ⟨seen, queue⟩ := walk
    cases queue with
    | nil => exact congrArg some tracks.seen_eq
    | cons current queue =>
      have reached : Reaches edges start current := by
        rcases tracks.queued current (List.mem_cons_self ..) with rfl | known
        · exact Reaches.refl edges current
        · exact (tracks.reached current known).2
      refine ih (tracks.follow.foldl_look (fun _ member => member) reached) ?_
      have nearer : (edges.foldl (look start current) ⟨seen, queue⟩).bound edges ≤
          (⟨seen, queue⟩ : Walk).bound edges := bound_foldl_look_le fun _ member => member
      simp only [bound, List.length_cons] at enough nearer ⊢
      omega

/-- The queue is empty after at most one step for the start and one for each edge. -/
theorem found?_start (edges : List Edge) (start : String) :
    found? edges start (edges.length + 2) (Walk.start start) = some (reach edges start) := by
  refine found?_of_tracks (tracks_start edges start) ?_
  have few : (unreached edges []).length ≤ edges.length := List.length_filter_le _ _
  simp only [bound, Walk.start, List.length_singleton]
  omega

end Walk

end AccessPolicy.Hierarchy
