import Mathlib.Data.List.Nodup
import AccessPolicy.CacheBackend
import AccessPolicy.Proofs.Table

/-!
What can be looked up in a cache backend. Time and removals only narrow it, a removal counts what was
live, a write adds its own entry alone, and what a scan finds is what is there.
-/
namespace AccessPolicy

namespace CacheBackend

/-- Nothing can be looked up later that could not be looked up as it is earlier. -/
structure Narrows (later earlier : CacheBackend) : Prop where
  available : later.available = earlier.available
  sound_of : later.broken = false → earlier.broken = false
  live_of : ∀ key value, later.live? key = some value → earlier.live? key = some value

theorem Narrows.refl (backend : CacheBackend) : backend.Narrows backend :=
  ⟨rfl, id, fun _ _ => id⟩

theorem Narrows.trans {first second third : CacheBackend} (one : third.Narrows second)
    (two : second.Narrows first) : third.Narrows first :=
  ⟨one.available.trans two.available, fun sound => two.sound_of (one.sound_of sound),
    fun key value found => two.live_of key value (one.live_of key value found)⟩

theorem live?_eq_some_iff {backend : CacheBackend} {key value : String} :
    backend.live? key = some value ↔ ∃ entry, backend.entries.get? key = some entry ∧
      backend.uptime < entry.lapsesAt ∧ entry.value = value := by
  unfold live? isLive
  cases backend.entries.get? key with
  | none => simp
  | some entry => by_cases live : backend.uptime < entry.lapsesAt <;> simp [Option.filter, live]

theorem fault?_eq_none_iff {backend : CacheBackend} :
    backend.fault? = none ↔ backend.available = true ∧ backend.broken = false := by
  unfold fault?
  cases backend.available <;> cases backend.broken <;> simp

theorem narrows_elapse (backend : CacheBackend) (nanos : Nat) :
    (backend.elapse nanos).Narrows backend := by
  refine ⟨rfl, id, ?_⟩
  intro key value found
  rw [live?_eq_some_iff] at found ⊢
  obtain ⟨entry, present, live, same⟩ := found
  refine ⟨entry, present, ?_, same⟩
  change backend.uptime + nanos < entry.lapsesAt at live
  omega

section Removal

theorem live?_remove (backend : CacheBackend) (removed key : String) :
    (backend.remove removed).2.live? key =
      if key = removed then none else backend.live? key := by
  simp only [live?, remove]
  by_cases same : key = removed
  · simp [same]
  · rw [if_neg same, Table.get?_erase_of_ne _ same]
    rfl

theorem removeAll_cons (backend : CacheBackend) (key : String) (rest : List String) :
    (backend.removeAll (key :: rest)).2 = ((backend.remove key).2.removeAll rest).2 := rfl

theorem live?_removeAll (backend : CacheBackend) (keys : List String) (key : String) :
    (backend.removeAll keys).2.live? key = if key ∈ keys then none else backend.live? key := by
  induction keys generalizing backend with
  | nil => simp [removeAll]
  | cons first rest ih =>
    rw [removeAll_cons, ih, live?_remove]
    by_cases later : key ∈ rest <;> by_cases same : key = first <;> simp [later, same]

theorem removeAll_switches (backend : CacheBackend) (keys : List String) :
    (backend.removeAll keys).2.available = backend.available ∧
      (backend.removeAll keys).2.broken = backend.broken := by
  induction keys generalizing backend with
  | nil => exact ⟨rfl, rfl⟩
  | cons first rest ih => exact ih (backend.remove first).2

theorem delete_snd (backend : CacheBackend) (keys : List String) : (backend.delete keys).2 =
    if backend.fault? = none then (backend.removeAll keys).2 else backend := by
  unfold delete
  cases backend.fault? <;> rfl

theorem narrows_delete (backend : CacheBackend) (keys : List String) :
    (backend.delete keys).2.Narrows backend := by
  rw [delete_snd]
  split
  · obtain ⟨available, broken⟩ := removeAll_switches backend keys
    refine ⟨available, fun sound => broken.symm.trans sound, ?_⟩
    intro key value found
    rw [live?_removeAll] at found
    split at found
    · cases found
    · exact found
  · exact Narrows.refl backend

theorem get?_removeAll (backend : CacheBackend) (keys : List String) (key : String) :
    (backend.removeAll keys).2.entries.get? key =
      if key ∈ keys then none else backend.entries.get? key := by
  induction keys generalizing backend with
  | nil => rfl
  | cons first rest ih =>
    rw [removeAll_cons, ih]
    by_cases later : key ∈ rest
    · rw [if_pos later, if_pos (List.mem_cons_of_mem _ later)]
    · rw [if_neg later]
      by_cases same : key = first
      · subst same
        rw [if_pos (List.mem_cons_self ..)]
        exact Table.get?_erase_self ..
      · rw [if_neg (by simp [same, later])]
        exact Table.get?_erase_of_ne _ same

theorem uptime_removeAll (backend : CacheBackend) (keys : List String) :
    (backend.removeAll keys).2.uptime = backend.uptime := by
  induction keys generalizing backend with
  | nil => rfl
  | cons first rest ih => exact ih (backend.remove first).2

theorem entries_removeAll_sublist (backend : CacheBackend) (keys : List String) :
    (backend.removeAll keys).2.entries.Sublist backend.entries := by
  induction keys generalizing backend with
  | nil => exact List.Sublist.refl _
  | cons first rest ih => exact (ih (backend.remove first).2).trans List.filter_sublist

theorem live?_delete {backend : CacheBackend} (works : backend.fault? = none) {keys : List String}
    {key : String} (removed : key ∈ keys) : (backend.delete keys).2.live? key = none := by
  rw [delete_snd, if_pos works, live?_removeAll, if_pos removed]

end Removal

section Counting

variable {backend : CacheBackend}

theorem mem_liveKeys_iff (ordered : backend.entries.Ordered) {key : String} :
    key ∈ backend.liveKeys ↔ (backend.live? key).isSome = true := by
  unfold liveKeys Table.keys live?
  rw [List.mem_map, Option.isSome_map, Option.isSome_iff_exists]
  simp only [List.mem_filter, Option.filter_eq_some_iff]
  constructor
  · rintro ⟨⟨_, entry⟩, ⟨present, live⟩, rfl⟩
    exact ⟨entry, Table.get?_of_mem ordered present, live⟩
  · rintro ⟨entry, found, live⟩
    exact ⟨(key, entry), ⟨Table.mem_of_get? found, live⟩, rfl⟩

theorem nodup_liveKeys (ordered : backend.entries.Ordered) : backend.liveKeys.Nodup := by
  have ascending : backend.liveKeys.Pairwise (· < ·) :=
    List.Pairwise.sublist (List.filter_sublist.map Prod.fst) ordered
  exact ascending.imp fun {one other} before same => by
    subst same
    exact String.lt_irrefl one before

theorem liveKeys_remove (backend : CacheBackend) (removed : String) :
    (backend.remove removed).2.liveKeys = backend.liveKeys.filter (· ≠ removed) := by
  unfold liveKeys Table.keys remove Table.erase
  rw [List.filter_map, List.filter_filter, List.filter_filter]
  simp only [isLive, Function.comp_def, Bool.and_comm]

theorem liveKeys_removeAll_sublist (backend : CacheBackend) (keys : List String) :
    (backend.removeAll keys).2.liveKeys.Sublist backend.liveKeys := by
  induction keys generalizing backend with
  | nil => exact List.Sublist.refl _
  | cons key rest ih =>
    refine (ih (backend.remove key).2).trans ?_
    rw [liveKeys_remove]
    exact List.filter_sublist

theorem mem_keys_of_mem_liveKeys {key : String} (live : key ∈ backend.liveKeys) :
    key ∈ backend.entries.keys :=
  (List.filter_sublist.map Prod.fst).subset live

theorem remove_fst (ordered : backend.entries.Ordered) (key : String) :
    (backend.remove key).1 = backend.liveKeys.count key := by
  have live : key ∈ backend.liveKeys ↔ _ := mem_liveKeys_iff ordered
  by_cases present : key ∈ backend.liveKeys
  · rw [List.count_eq_one_of_mem (nodup_liveKeys ordered) present]
    exact if_pos (live.mp present)
  · rw [List.count_eq_zero.mpr present]
    exact if_neg fun found => present (live.mpr found)

theorem length_remove (ordered : backend.entries.Ordered) (key : String) :
    backend.liveKeys.length =
      (backend.remove key).1 + (backend.remove key).2.liveKeys.length := by
  rw [remove_fst ordered, liveKeys_remove, List.count_eq_countP, ← List.countP_eq_length_filter,
    backend.liveKeys.length_eq_countP_add_countP (· == key)]
  congr 1
  apply List.countP_congr
  simp

/-- Removing keys counts what was live and is not any more. -/
theorem length_removeAll (ordered : backend.entries.Ordered) (keys : List String) :
    backend.liveKeys.length =
      (backend.removeAll keys).1 + (backend.removeAll keys).2.liveKeys.length := by
  induction keys generalizing backend with
  | nil => simp [removeAll]
  | cons key rest ih =>
    have later : (backend.remove key).2.liveKeys.length = _ := ih (Table.ordered_erase ordered key)
    have cut : (backend.removeAll (key :: rest)).1 =
        (backend.remove key).1 + ((backend.remove key).2.removeAll rest).1 := rfl
    rw [length_remove ordered key, later, cut, removeAll_cons, Nat.add_assoc]

end Counting

/-- What can be looked up after a write is what was written, or could be looked up before. -/
theorem live?_set {backend : CacheBackend} {key value found : String} {ttl : Nat}
    {wanted : String} (present : (backend.set key value ttl).2.live? wanted = some found) :
    wanted = key ∧ found = value ∨ backend.live? wanted = some found := by
  unfold set at present
  cases fault : backend.fault? with
  | some fault =>
    simp only [fault] at present
    exact Or.inr present
  | none =>
    simp only [fault] at present
    split at present
    · rw [live?_eq_some_iff] at present
      obtain ⟨entry, stored, live, same⟩ := present
      by_cases written : wanted = key
      · subst written
        simp only [Table.get?_put_self, Option.some.injEq] at stored
        subst stored
        exact Or.inl ⟨rfl, same.symm⟩
      · rw [Table.get?_put_of_ne _ _ written] at stored
        refine Or.inr (live?_eq_some_iff.mpr ⟨entry, stored, ?_, same⟩)
        change backend.uptime + writeTime < entry.lapsesAt at live
        omega
    · exact Or.inr present

theorem set_switches (backend : CacheBackend) (key value : String) (ttl : Nat) :
    (backend.set key value ttl).2.available = backend.available ∧
      ((backend.set key value ttl).2.broken = false → backend.broken = false) := by
  unfold set
  cases fault : backend.fault? with
  | some fault => exact ⟨rfl, id⟩
  | none =>
    dsimp only
    split
    · exact ⟨rfl, id⟩
    · exact ⟨rfl, fun sound => absurd sound (by simp)⟩

theorem mem_scan_of_live {backend : CacheBackend} {glob key value : String}
    (live : backend.live? key = some value) (accepted : Glob.accepts glob key = true) :
    key ∈ backend.liveKeys.filter (Glob.accepts glob) := by
  obtain ⟨entry, stored, within, _⟩ := live?_eq_some_iff.mp live
  rw [List.mem_filter]
  refine ⟨?_, accepted⟩
  unfold liveKeys Table.keys
  rw [List.mem_map]
  refine ⟨(key, entry), ?_, rfl⟩
  rw [List.mem_filter]
  exact ⟨Table.mem_of_get? stored, by simpa [isLive] using within⟩

end CacheBackend

end AccessPolicy
