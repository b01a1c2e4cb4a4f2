import AccessPolicy.Proofs.RuleStore

/-!
The rows of one tenant. A call of the store for another tenant leaves them as they are, whatever rule
or id it names; a call for the tenant does to them what it does to the store.
-/
namespace AccessPolicy.RuleStore

def isOf (tenant : TenantId) (rule : Rule) : Bool :=
  decide (rule.tenant = tenant)

theorem isOf_foreign {tenant : TenantId} {rule : Rule} (foreign : rule.tenant ≠ tenant) :
    isOf tenant rule = false :=
  decide_eq_false foreign

/-- The rows of a tenant's rules among others, under their ids. -/
def ownRows (tenant : TenantId) (rows : Table RuleId Rule) : Table RuleId Rule :=
  rows.filter (fun row => isOf tenant row.2)

def rowsOf (store : RuleStore) (tenant : TenantId) : Table RuleId Rule :=
  ownRows tenant store.rows

variable {store other : RuleStore} {tenant owner : TenantId} {rule : Rule}

section Order

theorem ordered_insert (ordered : store.rows.Ordered) (rule : Rule) :
    (store.insert rule).2.rows.Ordered := by
  unfold insert
  split
  · exact ordered
  · split
    · exact ordered
    · exact Table.ordered_put ordered _ _

theorem ordered_update (ordered : store.rows.Ordered) (rule : Rule) :
    (store.update rule).2.rows.Ordered := by
  unfold update
  split
  · exact ordered
  · split
    · split
      · exact Table.ordered_put ordered _ _
      · exact ordered
    · exact ordered

theorem ordered_delete (ordered : store.rows.Ordered) (tenant : TenantId) (id : RuleId) :
    (store.delete tenant id).2.rows.Ordered := by
  unfold delete
  split
  · exact ordered
  · split
    · split
      · exact Table.ordered_erase ordered id
      · exact ordered
    · exact ordered

theorem ordered_recordUse {rows : Table RuleId Rule} (ordered : rows.Ordered) (tenant : TenantId)
    (now : Instant) (id : RuleId) : (recordUse tenant now rows id).Ordered := by
  unfold recordUse
  split
  · split
    · exact Table.ordered_put ordered _ _
    · exact ordered
  · exact ordered

theorem ordered_foldl_recordUse {rows : Table RuleId Rule} (ordered : rows.Ordered)
    (tenant : TenantId) (now : Instant) (ids : List RuleId) :
    (ids.foldl (recordUse tenant now) rows).Ordered := by
  induction ids generalizing rows with
  | nil => exact ordered
  | cons id rest ih => exact ih (ordered_recordUse ordered tenant now id)

theorem ordered_recordUsage (ordered : store.rows.Ordered) (tenant : TenantId) (ids : List RuleId)
    (now : Instant) : (store.recordUsage tenant ids now).2.rows.Ordered := by
  unfold recordUsage
  split
  · exact ordered
  · exact ordered_foldl_recordUse ordered tenant now ids

end Order

section Room

/-- A row in place of one that is there takes no id that is free. -/
theorem get?_put_of_free {rows : Table RuleId Rule} {id free : RuleId} {stored : Rule}
    (found : rows.get? id = some stored) (unused : rows.get? free = none) (rule : Rule) :
    (rows.put id rule).get? free = none := by
  have apart : free ≠ id := by
    intro same
    rw [same, found] at unused
    cases unused
  exact (Table.get?_put_of_ne _ _ apart).trans unused

theorem update_switches (store : RuleStore) (rule : Rule) :
    (store.update rule).2.available = store.available ∧
      (store.HasRoom → (store.update rule).2.HasRoom) := by
  unfold update
  split
  · exact ⟨rfl, id⟩
  · split
    · rename_i stored found
      split
      · exact ⟨rfl, fun room => get?_put_of_free found room rule⟩
      · exact ⟨rfl, id⟩
    · exact ⟨rfl, id⟩

theorem delete_switches (store : RuleStore) (tenant : TenantId) (id : RuleId) :
    (store.delete tenant id).2.available = store.available ∧
      (store.HasRoom → (store.delete tenant id).2.HasRoom) := by
  unfold delete
  split
  · exact ⟨rfl, fun room => room⟩
  · split
    · split
      · refine ⟨rfl, ?_⟩
        intro room
        by_cases same : store.nextId = id
        · subst same
          exact Table.get?_erase_self ..
        · exact (Table.get?_erase_of_ne _ same).trans room
      · exact ⟨rfl, fun room => room⟩
    · exact ⟨rfl, fun room => room⟩

theorem get?_recordUse_of_free {rows : Table RuleId Rule} {free : RuleId}
    (unused : rows.get? free = none) (tenant : TenantId) (now : Instant) (id : RuleId) :
    (recordUse tenant now rows id).get? free = none := by
  unfold recordUse
  split
  · rename_i stored found
    split
    · exact get?_put_of_free found unused _
    · exact unused
  · exact unused

theorem recordUsage_switches (store : RuleStore) (tenant : TenantId) (ids : List RuleId)
    (now : Instant) : (store.recordUsage tenant ids now).2.available = store.available ∧
      (store.HasRoom → (store.recordUsage tenant ids now).2.HasRoom) := by
  unfold recordUsage
  split
  · exact ⟨rfl, id⟩
  · refine ⟨rfl, ?_⟩
    intro room
    have unused : ∀ rows : Table RuleId Rule, rows.get? store.nextId = none →
        (ids.foldl (recordUse tenant now) rows).get? store.nextId = none := by
      induction ids with
      | nil => exact fun _ unused => unused
      | cons id rest ih => exact fun _ unused => ih _ (get?_recordUse_of_free unused tenant now id)
    exact unused store.rows room

theorem insert_available (store : RuleStore) (rule : Rule) :
    (store.insert rule).2.available = store.available := by
  unfold insert
  split
  · rfl
  · split <;> rfl

end Room

section Foreign

/-- A row that is found under an id with an owner is not another tenant's. -/
theorem foreign_of_get? {rows : Table RuleId Rule} {id : RuleId} {stored : Rule}
    (found : rows.get? id = some stored) (foreign : stored.tenant ≠ tenant) :
    ∀ held, rows.get? id = some held → isOf tenant held = false := by
  intro held present
  rw [found] at present
  cases present
  exact isOf_foreign foreign

theorem rowsOf_insert_foreign (room : store.HasRoom) (foreign : rule.tenant ≠ tenant) :
    (store.insert rule).2.rowsOf tenant = store.rowsOf tenant := by
  have empty : ∀ held, store.rows.get? store.nextId = some held →
      isOf tenant held = false := by
    intro held present
    rw [room] at present
    cases present
  unfold insert
  split
  · rfl
  · split
    · rfl
    · exact Table.filter_put_of_not (isOf_foreign foreign) empty

theorem rowsOf_update_foreign (foreign : rule.tenant ≠ tenant) :
    (store.update rule).2.rowsOf tenant = store.rowsOf tenant := by
  unfold update
  split
  · rfl
  · split
    · rename_i stored found
      split
      · rename_i owned
        exact Table.filter_put_of_not (isOf_foreign foreign)
          (foreign_of_get? found (owned ▸ foreign))
      · rfl
    · rfl

theorem rowsOf_delete_foreign (ordered : store.rows.Ordered) (foreign : owner ≠ tenant)
    (id : RuleId) : (store.delete owner id).2.rowsOf tenant = store.rowsOf tenant := by
  unfold delete
  split
  · rfl
  · split
    · rename_i stored found
      split
      · rename_i owned
        exact Table.filter_erase_of_not ordered (foreign_of_get? found (owned ▸ foreign))
      · rfl
    · rfl

theorem ownRows_recordUse_foreign (foreign : owner ≠ tenant) (now : Instant)
    (rows : Table RuleId Rule) (id : RuleId) :
    ownRows tenant (recordUse owner now rows id) = ownRows tenant rows := by
  unfold recordUse
  split
  · rename_i stored found
    split
    · rename_i owned
      have foreignRow : stored.tenant ≠ tenant := owned ▸ foreign
      exact Table.filter_put_of_not (isOf_foreign foreignRow) (foreign_of_get? found foreignRow)
    · rfl
  · rfl

theorem rowsOf_recordUsage_foreign (foreign : owner ≠ tenant) (ids : List RuleId) (now : Instant) :
    (store.recordUsage owner ids now).2.rowsOf tenant = store.rowsOf tenant := by
  unfold recordUsage
  split
  · rfl
  · unfold rowsOf
    dsimp only
    generalize store.rows = rows
    induction ids generalizing rows with
    | nil => rfl
    | cons id rest ih => exact (ih _).trans (ownRows_recordUse_foreign foreign now rows id)

end Foreign

section Own

theorem find_ofTenant (store : RuleStore) (tenant : TenantId) :
    store.find (RuleFilter.ofTenant tenant) =
      if store.available then .ok (store.rowsOf tenant).values else .error .unavailable := by
  have accepted : (RuleFilter.ofTenant tenant).accepts = isOf tenant :=
    funext (accepts_ofTenant tenant)
  have rules : store.rows.values.filter (isOf tenant) = (store.rowsOf tenant).values := by
    simp [rowsOf, ownRows, Table.values, List.filter_map, Function.comp_def]
  unfold find
  rw [accepted, rules]
  cases store.available <;> rfl

/-- Counting a use does to a tenant's rows what it does to all of them. -/
theorem ownRows_recordUse {rows : Table RuleId Rule} (ordered : rows.Ordered) (now : Instant)
    (id : RuleId) :
    ownRows tenant (recordUse tenant now rows id) =
      recordUse tenant now (ownRows tenant rows) id := by
  have seen (stored : Rule) : (ownRows tenant rows).get? id = some stored ↔
      rows.get? id = some stored ∧ isOf tenant stored = true := Table.get?_filter ordered
  cases found : rows.get? id with
  | none =>
    have unseen : (ownRows tenant rows).get? id = none := by
      rw [Option.eq_none_iff_forall_ne_some]
      intro stored present
      rw [seen, found] at present
      cases present.1
    rw [recordUse, recordUse, found, unseen]
  | some stored =>
    by_cases owned : stored.tenant = tenant
    · have chosen : isOf tenant stored = true := decide_eq_true owned
      have present := (seen stored).mpr ⟨found, chosen⟩
      rw [recordUse, recordUse, found, present]
      dsimp only
      rw [if_pos owned, if_pos owned]
      exact Table.filter_put ordered found chosen chosen
    · have unseen : (ownRows tenant rows).get? id = none := by
        rw [Option.eq_none_iff_forall_ne_some]
        intro other present
        rw [seen, found] at present
        obtain ⟨same, chosen⟩ := present
        cases same
        exact owned (of_decide_eq_true chosen)
      rw [recordUse, recordUse, found, unseen]
      dsimp only
      rw [if_neg owned]

theorem rowsOf_recordUsage (ordered : store.rows.Ordered) (tenant : TenantId) (ids : List RuleId)
    (now : Instant) : (store.recordUsage tenant ids now).2.rowsOf tenant =
      if store.available then ids.foldl (recordUse tenant now) (store.rowsOf tenant)
      else store.rowsOf tenant := by
  unfold recordUsage
  cases store.available with
  | false => rfl
  | true =>
    have counted : ∀ rows : Table RuleId Rule, rows.Ordered →
        ownRows tenant (ids.foldl (recordUse tenant now) rows) =
          ids.foldl (recordUse tenant now) (ownRows tenant rows) := by
      induction ids with
      | nil => exact fun _ _ => rfl
      | cons id rest ih =>
        intro rows ordered
        have later := ih (recordUse tenant now rows id) (ordered_recordUse ordered tenant now id)
        rw [List.foldl_cons, List.foldl_cons, later, ownRows_recordUse ordered]
    exact counted store.rows ordered

end Own

end AccessPolicy.RuleStore
