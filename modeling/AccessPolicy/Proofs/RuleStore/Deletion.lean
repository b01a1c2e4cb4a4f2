import AccessPolicy.Proofs.RuleStore
import Mathlib.Data.List.Basic

/-!
Deleting rows of a tenant one after the other, up to the first id that the store refuses. Ids without a
row, and ids that come again, are passed over.
-/
namespace AccessPolicy.RuleStore

variable {store after : RuleStore} {tenant : TenantId} {id : RuleId} {rule : Rule} {rest : List RuleId}

/-- The error with which the store refuses to delete what is under an id for a tenant. -/
def refusal? (store : RuleStore) (tenant : TenantId) (id : RuleId) : Option StoreError :=
  match (store.delete tenant id).1 with
  | .ok _ => none
  | .error fault => some fault

/-- The tenant has a row under the id. -/
def holds (store : RuleStore) (tenant : TenantId) (id : RuleId) : Bool :=
  (store.rows.get? id).any (·.tenant = tenant)

/-- The ids before the first that is refused. -/
def admitted (store : RuleStore) (tenant : TenantId) (ids : List RuleId) : List RuleId :=
  ids.takeWhile fun id => (store.refusal? tenant id).isNone

/-- What deleting ids one after the other does: the tenant's rows under the ids before the first that is
refused are gone, and listed once each in the order in which they were named, and the refusal is told. -/
structure Deletes (store : RuleStore) (tenant : TenantId) (ids : List RuleId) (gone : List RuleId)
    (failure : Option StoreError) (after : RuleStore) : Prop where
  rows : ∀ id, after.rows.get? id = (store.rows.get? id).filter fun rule =>
    !(rule.tenant = tenant && id ∈ store.admitted tenant ids)
  nextId : after.nextId = store.nextId
  available : after.available = store.available
  gone : gone = ((store.admitted tenant ids).filter (store.holds tenant)).eraseDups
  failure : failure = ids.findSome? (store.refusal? tenant)

section Refusal

theorem available_of_delete {found : Option Rule} (deleted : store.delete tenant id = (.ok found, after)) :
    store.available = true := by
  cases available : store.available with
  | true => rfl
  | false => simp [delete, available] at deleted

theorem absent_of_delete (deleted : store.delete tenant id = (.ok none, after)) :
    store.rows.get? id = none := by
  cases present : store.rows.get? id with
  | none => rfl
  | some rule =>
    unfold delete at deleted
    rw [present] at deleted
    split at deleted
    · cases deleted
    · dsimp only at deleted
      split at deleted <;> cases deleted

theorem refusal?_of_absent (available : store.available = true) (absent : store.rows.get? id = none) :
    store.refusal? tenant id = none := by
  simp [refusal?, delete, available, absent]

theorem refusal?_of_present (available : store.available = true)
    (present : store.rows.get? id = some rule) :
    store.refusal? tenant id = if rule.tenant = tenant then none else some .foreignTenant := by
  unfold refusal? delete
  simp only [available, present, Bool.not_true, Bool.false_eq_true, if_false]
  by_cases own : rule.tenant = tenant
  · rw [if_pos own, if_pos own]
  · rw [if_neg own, if_neg own]

/-- A deletion refuses the same ids afterwards as before. -/
theorem refusal?_eraseRow (available : store.available = true)
    (present : store.rows.get? id = some rule) (own : rule.tenant = tenant) :
    (store.eraseRow id).refusal? tenant = store.refusal? tenant := by
  funext other
  have stillAvailable : (store.eraseRow id).available = true := available
  by_cases same : other = id
  · rw [same, refusal?_of_present available present, if_pos own]
    exact refusal?_of_absent stillAvailable (Table.get?_erase_self ..)
  · have found : (store.eraseRow id).rows.get? other = store.rows.get? other :=
      Table.get?_erase_of_ne _ same
    unfold refusal? delete
    rw [found, stillAvailable, available]
    cases store.rows.get? other with
    | none => rfl
    | some stored =>
      dsimp only
      by_cases owned : stored.tenant = tenant
      · simp [owned]
      · simp [owned]

theorem holds_eraseRow (other : RuleId) :
    (store.eraseRow id).holds tenant other = (store.holds tenant other && other != id) := by
  unfold holds eraseRow
  by_cases same : other = id
  · subst same
    rw [Table.get?_erase_self]
    simp
  · rw [Table.get?_erase_of_ne _ same]
    simp [same]

end Refusal

section Deletes

theorem deletes_nil (store : RuleStore) (tenant : TenantId) :
    store.Deletes tenant [] [] none store where
  rows := fun id => by
    cases store.rows.get? id <;> simp [admitted, Option.filter]
  nextId := rfl
  available := rfl
  gone := rfl
  failure := rfl

theorem deletes_refused {fault : StoreError} (refused : store.refusal? tenant id = some fault)
    (rest : List RuleId) : store.Deletes tenant (id :: rest) [] (some fault) store where
  rows := fun other => by
    cases store.rows.get? other <;> simp [admitted, refused, Option.filter]
  nextId := rfl
  available := rfl
  gone := by
    simp [admitted, refused]
  failure := by
    simp [refused]

variable {gone : List RuleId} {failure : Option StoreError}

theorem admitted_cons (admits : store.refusal? tenant id = none) (rest : List RuleId) :
    store.admitted tenant (id :: rest) = id :: store.admitted tenant rest := by
  simp [admitted, admits]

theorem Deletes.cons_absent (deletes : store.Deletes tenant rest gone failure after)
    (available : store.available = true) (absent : store.rows.get? id = none) :
    store.Deletes tenant (id :: rest) gone failure after where
  rows := fun other => by
    rw [deletes.rows other, admitted_cons (refusal?_of_absent available absent)]
    by_cases same : other = id
    · rw [same, absent]
      rfl
    · simp [same]
  nextId := deletes.nextId
  available := deletes.available
  gone := by
    have unheld : store.holds tenant id = false := by
      simp [holds, absent]
    rw [deletes.gone, admitted_cons (refusal?_of_absent available absent), List.filter_cons, unheld]
    rfl
  failure := by
    rw [deletes.failure, List.findSome?_cons, refusal?_of_absent available absent]

/-- A row is taken out, and what is left of the ids is deleted from the rest. -/
theorem Deletes.cons_present (deletes : (store.eraseRow id).Deletes tenant rest gone failure after)
    (available : store.available = true) (present : store.rows.get? id = some rule)
    (own : rule.tenant = tenant) :
    store.Deletes tenant (id :: rest) (id :: gone) failure after := by
  have admits : store.refusal? tenant id = none := by
    rw [refusal?_of_present available present, if_pos own]
  have onward : (store.eraseRow id).admitted tenant rest = store.admitted tenant rest := by
    unfold admitted
    rw [refusal?_eraseRow available present own]
  constructor
  · intro other
    rw [deletes.rows other, onward, admitted_cons admits]
    by_cases same : other = id
    · subst same
      rw [present, eraseRow, Table.get?_erase_self]
      simp [own, Option.filter]
    · rw [eraseRow, Table.get?_erase_of_ne _ same]
      simp [same]
  · exact deletes.nextId
  · exact deletes.available
  · have held : store.holds tenant id = true := by
      simp [holds, present, own]
    rw [deletes.gone, onward, admitted_cons admits, List.filter_cons, held, if_pos rfl,
      List.eraseDups_cons, List.filter_filter]
    congr 2
    refine List.filter_congr fun other _ => ?_
    rw [holds_eraseRow, Bool.and_comm]
    rfl
  · rw [deletes.failure, refusal?_eraseRow available present own, List.findSome?_cons, admits]

end Deletes

end AccessPolicy.RuleStore
