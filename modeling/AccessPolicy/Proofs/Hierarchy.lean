import AccessPolicy.Hierarchy
import AccessPolicy.Proofs.Ascending
import Mathlib.Logic.Relation

/-!
The groups of a name are the names that it reaches over membership edges, itself left out, whatever
cycles there are.
-/
namespace AccessPolicy.Hierarchy

/-- A name reaches itself and every name that memberships lead to. -/
def Reaches (edges : List Edge) (start name : String) : Prop :=
  Relation.ReflTransGen (fun member group => (member, group) ∈ edges) start name

theorem Reaches.refl (edges : List Edge) (start : String) : Reaches edges start start :=
  Relation.ReflTransGen.refl

theorem Reaches.step {edges : List Edge} {start member group : String}
    (reached : Reaches edges start member) (edge : (member, group) ∈ edges) :
    Reaches edges start group :=
  Relation.ReflTransGen.tail reached edge

theorem mem_reverse_iff {edges : List Edge} {member group : String} :
    (member, group) ∈ reverse edges ↔ (group, member) ∈ edges := by
  simp only [reverse, List.mem_map, Prod.exists, Prod.swap_prod_mk, Prod.mk.injEq]
  constructor
  · rintro ⟨_, _, present, rfl, rfl⟩
    exact present
  · intro present
    exact ⟨group, member, present, rfl, rfl⟩

theorem reaches_reverse_iff {edges : List Edge} {start name : String} :
    Reaches (reverse edges) start name ↔ Reaches edges name start := by
  unfold Reaches
  simp only [mem_reverse_iff]
  exact Relation.reflTransGen_swap

theorem isFresh_iff {start : String} {seen : List String} {edge : Edge} :
    isFresh start seen edge ↔
      (edge.1 = start ∨ edge.1 ∈ seen) ∧ edge.2 ≠ start ∧ edge.2 ∉ seen := by
  simp only [isFresh, Bool.and_eq_true, decide_eq_true_eq, and_assoc]

theorem reaches_of_mem_spread {edges : List Edge} {start : String} {seen : List String}
    (sound : ∀ name ∈ seen, name ≠ start ∧ Reaches edges start name) :
    ∀ name ∈ spread edges start seen, name ≠ start ∧ Reaches edges start name := by
  fun_induction spread edges start seen with
  | case1 => exact sound
  | case2 seen edge found ih =>
    apply ih
    intro name present
    obtain ⟨from_seen, away, _⟩ := isFresh_iff.mp (List.find?_some found)
    have member := List.mem_of_find?_eq_some found
    rcases Ascending.mem_of_mem_insert present with rfl | old
    · refine ⟨away, ?_⟩
      rcases from_seen with source | source
      · exact (Reaches.refl edges start).step (by rw [← source]; exact member)
      · exact (sound edge.1 source).2.step member
    · exact sound name old

/-- At the end no edge leads from what has been seen to something new. -/
theorem spread_closed {edges : List Edge} {start : String} {seen : List String} {edge : Edge}
    (member : edge ∈ edges) (source : edge.1 = start ∨ edge.1 ∈ spread edges start seen) :
    edge.2 = start ∨ edge.2 ∈ spread edges start seen := by
  fun_induction spread edges start seen with
  | case1 seen none_fresh =>
    have stale := List.find?_eq_none.mp none_fresh edge member
    rw [isFresh_iff] at stale
    by_cases away : edge.2 = start
    · exact Or.inl away
    · by_cases present : edge.2 ∈ seen
      · exact Or.inr present
      · exact absurd ⟨source, away, present⟩ stale
  | case2 seen edge found ih => exact ih source

/-- Names that no edge leads out of are all that is reached. -/
theorem mem_of_closed {edges : List Edge} {start name : String} {seen : List String}
    (closed : ∀ edge ∈ edges, edge.1 = start ∨ edge.1 ∈ seen → edge.2 = start ∨ edge.2 ∈ seen)
    (reached : Reaches edges start name) : name = start ∨ name ∈ seen := by
  induction reached with
  | refl => exact Or.inl rfl
  | tail _ edge ih => exact closed _ edge ih

theorem mem_reach_iff {edges : List Edge} {start name : String} :
    name ∈ reach edges start ↔ name ≠ start ∧ Reaches edges start name := by
  constructor
  · intro present
    exact reaches_of_mem_spread (by simp) name present
  · rintro ⟨away, reached⟩
    exact (mem_of_closed (fun _ => spread_closed) reached).resolve_left away

theorem pairwise_reach (edges : List Edge) (start : String) :
    (reach edges start).Pairwise (· < ·) := by
  have ascending {seen : List String} (sorted : seen.Pairwise (· < ·)) :
      (spread edges start seen).Pairwise (· < ·) := by
    fun_induction spread edges start seen with
    | case1 => exact sorted
    | case2 seen edge found ih => exact ih (Ascending.pairwise_insert sorted)
  exact ascending List.Pairwise.nil

/-- A name and its groups together are what the name reaches. -/
theorem mem_cons_reach_iff {edges : List Edge} {start name : String} :
    name ∈ start :: reach edges start ↔ Reaches edges start name := by
  rw [List.mem_cons, mem_reach_iff]
  constructor
  · rintro (rfl | ⟨_, reached⟩)
    · exact Reaches.refl edges name
    · exact reached
  · intro reached
    by_cases same : name = start
    · exact Or.inl same
    · exact Or.inr ⟨same, reached⟩

theorem reach_congr {one other : List Edge} {start : String}
    (same : ∀ name, Reaches one start name ↔ Reaches other start name) :
    reach one start = reach other start :=
  Ascending.eq_of_mem_iff (pairwise_reach one start) (pairwise_reach other start)
    (fun name => by rw [mem_reach_iff, mem_reach_iff, same name])

end AccessPolicy.Hierarchy
