import AccessPolicy.Rule.Filter
import AccessPolicy.Table

/-!
The store of rules: rows in ascending order of their ids, a counter of ids that only grows, and a
switch for outages, during which every call fails. Each call reads or writes as one step.
-/
namespace AccessPolicy

inductive StoreError where
  | notFound (id : RuleId)
  | foreignTenant
  | alreadyStored (id : RuleId)
  | unavailable
deriving DecidableEq, Repr

def StoreError.message : StoreError → String
  | .notFound id => "rule not found: " ++ id.text
  | .foreignTenant => "tenant isolation violation"
  | .alreadyStored id => "rule already persisted: " ++ id.text
  | .unavailable => "storage error: rule store unavailable"

structure RuleStore where
  rows : Table RuleId Rule
  nextId : RuleId
  available : Bool

namespace RuleStore

def empty : RuleStore := ⟨[], ⟨1⟩, true⟩

def size (store : RuleStore) : Nat :=
  store.rows.length

def setAvailable (store : RuleStore) (available : Bool) : RuleStore :=
  { store with available := available }

/-- Stores a new rule under the next id. -/
def insert (store : RuleStore) (rule : Rule) : Except StoreError Rule × RuleStore :=
  if !store.available then (.error .unavailable, store)
  else if rule.id.isAssigned then (.error (.alreadyStored rule.id), store)
  else
    let stored := { rule with id := store.nextId }
    (.ok stored, { store with
      rows := store.rows.put store.nextId stored
      nextId := ⟨store.nextId.value + 1⟩ })

def get (store : RuleStore) (tenant : TenantId) (id : RuleId) : Except StoreError (Option Rule) :=
  if !store.available then .error .unavailable
  else match store.rows.get? id with
    | some rule => if rule.tenant = tenant then .ok (some rule) else .error .foreignTenant
    | none => .ok none

/-- Replaces the row with the rule's id, which must be of the rule's tenant. -/
def update (store : RuleStore) (rule : Rule) : Except StoreError Unit × RuleStore :=
  if !store.available then (.error .unavailable, store)
  else match store.rows.get? rule.id with
    | some stored =>
      if stored.tenant = rule.tenant then
        (.ok (), { store with rows := store.rows.put rule.id rule })
      else (.error .foreignTenant, store)
    | none => (.error (.notFound rule.id), store)

/-- Removes a row and returns it; a row that is not there is no error. -/
def delete (store : RuleStore) (tenant : TenantId) (id : RuleId) :
    Except StoreError (Option Rule) × RuleStore :=
  if !store.available then (.error .unavailable, store)
  else match store.rows.get? id with
    | some rule =>
      if rule.tenant = tenant then
        (.ok (some rule), { store with rows := store.rows.erase id })
      else (.error .foreignTenant, store)
    | none => (.ok none, store)

/-- The rows that a filter accepts, by ascending id. -/
def find (store : RuleStore) (filter : RuleFilter) : Except StoreError (List Rule) :=
  if !store.available then .error .unavailable
  else .ok (store.rows.values.filter filter.accepts)

/-- A use of a rule. The counter is a 64-bit word. -/
def used (rule : Rule) (now : Instant) : Rule :=
  { rule with
    usageCount := rule.usageCount + 1
    lastUsedAt := some now }

/-- Counts one use of a row; rows of other tenants and ids without a row are left alone. -/
def recordUse (tenant : TenantId) (now : Instant) (rows : Table RuleId Rule) (id : RuleId) :
    Table RuleId Rule :=
  match rows.get? id with
  | some rule => if rule.tenant = tenant then rows.put id (used rule now) else rows
  | none => rows

def recordUsage (store : RuleStore) (tenant : TenantId) (ids : List RuleId) (now : Instant) :
    Except StoreError Unit × RuleStore :=
  if !store.available then (.error .unavailable, store)
  else (.ok (), { store with rows := ids.foldl (recordUse tenant now) store.rows })

end RuleStore

end AccessPolicy
