import AccessPolicy.Proofs.Ascending
import AccessPolicy.Table

/-!
Tables as finite maps: the entries of a table with ascending keys are what can be looked up in it.
-/
namespace AccessPolicy.Table

variable {κ υ : Type} [DecidableEq κ]

theorem mem_of_get? {table : Table κ υ} {key : κ} {value : υ}
    (found : table.get? key = some value) : (key, value) ∈ table := by
  induction table with
  | nil => cases found
  | cons entry rest ih =>
    obtain ⟨held, old⟩ := entry
    rw [get?] at found
    split at found
    · rename_i same
      cases found
      simp [same]
    · exact List.mem_cons_of_mem _ (ih found)

variable [LT κ] [DecidableLT κ]

def Ordered (table : Table κ υ) : Prop :=
  table.keys.Pairwise (· < ·)

theorem mem_keys_put {table : Table κ υ} {key other : κ} {value : υ}
    (present : other ∈ (table.put key value).keys) : other = key ∨ other ∈ table.keys := by
  induction table with
  | nil => simpa [put, keys] using present
  | cons entry rest ih =>
    obtain ⟨held, old⟩ := entry
    unfold put at present
    split at present
    · rename_i same
      simpa [keys, same] using present
    · split at present
      · simpa [keys] using present
      · simp only [keys, List.map_cons, List.mem_cons] at present ⊢
        rcases present with same | later
        · exact Or.inr (Or.inl same)
        · exact (ih later).imp id Or.inr

theorem mem_values_put {table : Table κ υ} {key : κ} {value found : υ}
    (present : found ∈ (table.put key value).values) : found = value ∨ found ∈ table.values := by
  induction table with
  | nil => simpa [put, values] using present
  | cons entry rest ih =>
    obtain ⟨held, old⟩ := entry
    simp only [values, List.map_cons, List.mem_cons]
    unfold put at present
    split at present
    · simp only [values, List.map_cons, List.mem_cons] at present
      exact present.imp id Or.inr
    · split at present
      · simpa [values] using present
      · simp only [values, List.map_cons, List.mem_cons] at present
        rcases present with same | later
        · exact Or.inr (Or.inl same)
        · exact (ih later).imp id Or.inr

omit [LT κ] [DecidableLT κ] in
theorem mem_values_of_get? {table : Table κ υ} {key : κ} {value : υ}
    (found : table.get? key = some value) : value ∈ table.values :=
  List.mem_map_of_mem (f := Prod.snd) (mem_of_get? found)

omit [LT κ] [DecidableLT κ] in
theorem mem_values_erase {table : Table κ υ} {key : κ} {found : υ}
    (present : found ∈ (table.erase key).values) : found ∈ table.values := by
  obtain ⟨entry, member, same⟩ := List.mem_map.mp present
  exact List.mem_map.mpr ⟨entry, (List.mem_filter.mp member).1, same⟩

theorem ordered_put [Std.Trichotomous (α := κ) (· < ·)] [Trans (α := κ) (· < ·) (· < ·) (· < ·)]
    {table : Table κ υ} (ordered : table.Ordered) (key : κ) (value : υ) :
    (table.put key value).Ordered := by
  induction table with
  | nil => simp [put, Ordered, keys]
  | cons entry rest ih =>
    obtain ⟨held, old⟩ := entry
    obtain ⟨below, ordered_rest⟩ := List.pairwise_cons.mp ordered
    unfold put
    split
    · rename_i same
      subst same
      exact ordered
    · rename_i different
      split
      · rename_i before
        refine List.pairwise_cons.mpr ⟨?_, ordered⟩
        intro other present
        rcases List.mem_cons.mp present with rfl | later
        · exact before
        · exact Trans.trans before (below other later)
      · rename_i not_before
        refine List.pairwise_cons.mpr ⟨?_, ih ordered_rest⟩
        intro other present
        rcases mem_keys_put present with rfl | later
        · rcases Std.Trichotomous.rel_or_eq_or_rel_swap (r := (· < ·)) (a := held) (b := other)
            with before | same | after
          · exact before
          · exact absurd same different
          · exact absurd after not_before
        · exact below other later

omit [LT κ] [DecidableLT κ] in
theorem keys_erase_sublist (table : Table κ υ) (key : κ) :
    (table.erase key).keys.Sublist table.keys :=
  List.filter_sublist.map Prod.fst

omit [DecidableLT κ] in
theorem ordered_erase {table : Table κ υ} (ordered : table.Ordered) (key : κ) :
    (table.erase key).Ordered :=
  List.Pairwise.sublist (keys_erase_sublist table key) ordered

omit [DecidableLT κ] in
theorem get?_of_mem [Std.Asymm (α := κ) (· < ·)] {table : Table κ υ} (ordered : table.Ordered)
    {key : κ} {value : υ} (present : (key, value) ∈ table) : table.get? key = some value := by
  induction table with
  | nil => cases present
  | cons entry rest ih =>
    obtain ⟨held, old⟩ := entry
    obtain ⟨below, ordered_rest⟩ := List.pairwise_cons.mp ordered
    rcases List.mem_cons.mp present with same | later
    · cases same
      simp [get?]
    · have before : held < key := below key (List.mem_map_of_mem later)
      have different : held ≠ key := by
        rintro rfl
        exact Std.Asymm.asymm held held before before
      rw [get?, if_neg different]
      exact ih ordered_rest later

omit [DecidableLT κ] in
theorem mem_iff_get? [Std.Asymm (α := κ) (· < ·)] {table : Table κ υ} (ordered : table.Ordered)
    {key : κ} {value : υ} : (key, value) ∈ table ↔ table.get? key = some value :=
  ⟨get?_of_mem ordered, mem_of_get?⟩

omit [DecidableLT κ] in
/-- An ordered table is determined by what can be looked up in it. -/
theorem eq_of_get?_eq [Std.Asymm (α := κ) (· < ·)] {one other : Table κ υ} (ordered : one.Ordered)
    (orderedOther : other.Ordered) (same : ∀ key, one.get? key = other.get? key) : one = other := by
  let before (left right : κ × υ) : Prop := left.1 < right.1
  have asymm : Std.Asymm before := ⟨fun left right => Std.Asymm.asymm (r := (· < ·)) left.1 right.1⟩
  have sorted : one.Pairwise before := List.pairwise_map.mp ordered
  have sortedOther : other.Pairwise before := List.pairwise_map.mp orderedOther
  refine Ascending.eq_of_mem_iff sorted sortedOther fun entry => ?_
  rw [mem_iff_get? ordered, mem_iff_get? orderedOther, same]

omit [LT κ] [DecidableLT κ] in
/-- Values may be replaced one by one. -/
theorem get?_mapValues (change : υ → υ) (table : Table κ υ) (key : κ) :
    get? (table.map fun entry => (entry.1, change entry.2)) key = (table.get? key).map change := by
  induction table with
  | nil => rfl
  | cons entry rest ih =>
    by_cases same : entry.1 = key
    · simp [get?, same]
    · simp [get?, same, ih]

section Choice

variable {table : Table κ υ} {chosen : υ → Bool} {key : κ} {value held : υ}

/-- Putting a value that is not chosen in place of one that is not leaves the chosen entries. -/
theorem filter_put_of_not (unchosen : chosen value = false)
    (old : ∀ held, table.get? key = some held → chosen held = false) :
    (table.put key value).filter (fun entry => chosen entry.2) =
      table.filter (fun entry => chosen entry.2) := by
  induction table with
  | nil => simp [put, unchosen]
  | cons entry rest ih =>
    obtain ⟨first, present⟩ := entry
    by_cases same : first = key
    · have replaced := old present (by simp [get?, same])
      simp [put, same, unchosen, replaced]
    · have later := ih fun held found => old held (by simpa [get?, same] using found)
      by_cases before : key < first
      · simp [put, same, before, unchosen]
      · simp [put, same, before, later, List.filter_cons]

omit [DecidableLT κ] in
theorem filter_erase_of_not [Std.Asymm (α := κ) (· < ·)] (ordered : table.Ordered)
    (old : ∀ held, table.get? key = some held → chosen held = false) :
    (table.erase key).filter (fun entry => chosen entry.2) =
      table.filter (fun entry => chosen entry.2) := by
  unfold erase
  rw [List.filter_filter]
  apply List.filter_congr
  intro entry member
  by_cases same : entry.1 = key
  · have unchosen := old entry.2 (same ▸ get?_of_mem ordered member)
    simp [unchosen]
  · simp [same]

omit [DecidableEq κ] [DecidableLT κ] in
theorem ordered_filter (ordered : table.Ordered) (chosen : υ → Bool) :
    Ordered (table.filter (fun entry => chosen entry.2)) :=
  List.Pairwise.sublist (List.filter_sublist.map Prod.fst) ordered

omit [DecidableLT κ] in
theorem get?_filter [Std.Asymm (α := κ) (· < ·)] (ordered : table.Ordered) :
    get? (table.filter (fun entry => chosen entry.2)) key = some value ↔
      table.get? key = some value ∧ chosen value = true := by
  rw [← mem_iff_get? (ordered_filter ordered chosen), List.mem_filter, mem_iff_get? ordered]

/-- Putting a chosen value in place of a chosen one is the same before choosing and after. -/
theorem filter_put [Std.Asymm (α := κ) (· < ·)] (ordered : table.Ordered)
    (present : table.get? key = some held) (before : chosen held = true)
    (after : chosen value = true) :
    (table.put key value).filter (fun entry => chosen entry.2) =
      put (table.filter (fun entry => chosen entry.2)) key value := by
  induction table with
  | nil => cases present
  | cons entry rest ih =>
    obtain ⟨first, old⟩ := entry
    obtain ⟨below, ordered_rest⟩ := List.pairwise_cons.mp ordered
    by_cases same : first = key
    · have replaced : old = held := by simpa [get?, same] using present
      simp [put, same, replaced, before, after]
    · have later : get? rest key = some held := by simpa [get?, same] using present
      have order : first < key := below key (List.mem_map_of_mem (mem_of_get? later))
      have not_before : ¬ key < first := Std.Asymm.asymm first key order
      have rests := ih ordered_rest later
      by_cases kept : chosen old = true
      · simp [put, same, not_before, kept, rests]
      · simp [put, same, not_before, kept, rests]

end Choice

end AccessPolicy.Table
