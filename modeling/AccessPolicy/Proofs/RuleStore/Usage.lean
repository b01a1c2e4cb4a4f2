import AccessPolicy.Evaluator.Verdict
import AccessPolicy.Proofs.RuleStore.Tenancy

/-!
What counting uses does to a row. An evaluation that allows counts once for each of the rules that it
names; a row's count grows by the number of the evaluations that use its rule, and the last of them
dates it.
-/
namespace AccessPolicy

/-- An evaluation for a tenant, and when it was made. -/
structure Finding where
  tenant : TenantId
  evaluation : Evaluation
  moment : Instant

/-- The evaluation allowed, for the tenant, and the rule is one of those that made it allow. -/
def Finding.uses (made : Finding) (tenant : TenantId) (id : RuleId) : Bool :=
  made.tenant = tenant && made.evaluation.allowed && made.evaluation.matchedRules.contains id

theorem Finding.allowed_of_uses (made : Finding) {tenant : TenantId} {id : RuleId}
    (uses : made.uses tenant id = true) : made.evaluation.allowed = true := by
  simp only [Finding.uses, Bool.and_eq_true] at uses
  exact uses.1.2

/-- The evaluation names no rule twice. -/
def Finding.Distinct (made : Finding) : Prop :=
  made.evaluation.matchedRules.Nodup

/-- A rule is of the same tenant as another, and has been used as often and last at the same moment. -/
structure Rule.UsedLike (rule other : Rule) : Prop where
  tenant : rule.tenant = other.tenant
  usageCount : rule.usageCount = other.usageCount
  lastUsedAt : rule.lastUsedAt = other.lastUsedAt

theorem Rule.UsedLike.refl (rule : Rule) : rule.UsedLike rule :=
  ⟨rfl, rfl, rfl⟩

theorem Rule.UsedLike.trans {rule other third : Rule} (first : rule.UsedLike other)
    (second : other.UsedLike third) : rule.UsedLike third :=
  ⟨first.tenant.trans second.tenant, first.usageCount.trans second.usageCount,
    first.lastUsedAt.trans second.lastUsedAt⟩

/-- The rule after it was used at moments. -/
def Rule.usedAt (rule : Rule) (moments : List Instant) : Rule :=
  { rule with
    usageCount := rule.usageCount + UInt64.ofNat moments.length
    lastUsedAt := moments.getLast?.or rule.lastUsedAt }

namespace RuleStore

variable {store : RuleStore} {tenant : TenantId} {now : Instant} {rows : Table RuleId Rule}
variable {id : RuleId} {row : Rule} {made : Finding} {evaluations : List Finding}

section UsedAt

@[simp] theorem usedAt_id (row : Rule) (moments : List Instant) : (row.usedAt moments).id = row.id :=
  rfl

@[simp] theorem usedAt_tenant (row : Rule) (moments : List Instant) :
    (row.usedAt moments).tenant = row.tenant :=
  rfl

@[simp] theorem usedAt_nil (row : Rule) : row.usedAt [] = row := by
  simp [Rule.usedAt]

theorem usedAt_append (row : Rule) (moments more : List Instant) :
    (row.usedAt moments).usedAt more = row.usedAt (moments ++ more) := by
  simp only [Rule.usedAt, List.length_append, UInt64.ofNat_add, UInt64.add_assoc,
    List.getLast?_append, Option.or_assoc]

theorem used_eq_usedAt (row : Rule) (now : Instant) : used row now = row.usedAt [now] :=
  rfl

/-- A count that does not overflow grows by one with each use. -/
theorem toNat_usageCount_usedAt {moments : List Instant}
    (fits : row.usageCount.toNat + moments.length < UInt64.size) :
    (row.usedAt moments).usageCount.toNat = row.usageCount.toNat + moments.length := by
  rw [Rule.usedAt, UInt64.toNat_add, UInt64.toNat_ofNat', Nat.add_mod_mod, Nat.mod_eq_of_lt fits]

end UsedAt

section Counting

theorem get?_recordUse (present : rows.get? id = some row) (other : RuleId) :
    (recordUse tenant now rows other).get? id =
      some (if row.tenant = tenant ∧ id = other then used row now else row) := by
  unfold recordUse
  by_cases same : id = other
  · subst same
    rw [present]
    dsimp only
    by_cases owned : row.tenant = tenant
    · rw [if_pos owned, Table.get?_put_self, if_pos ⟨owned, rfl⟩]
    · rw [if_neg owned, present, if_neg fun both => owned both.1]
  · rw [if_neg fun both => same both.2]
    split
    · split
      · rw [Table.get?_put_of_ne _ _ same, present]
      · exact present
    · exact present

/-- Of rules that are different each is counted once. -/
theorem get?_foldl_recordUse {ids : List RuleId} (distinct : ids.Nodup)
    (present : rows.get? id = some row) :
    (ids.foldl (recordUse tenant now) rows).get? id =
      some (if row.tenant = tenant ∧ id ∈ ids then used row now else row) := by
  induction ids generalizing rows row with
  | nil => simpa using present
  | cons first rest ih =>
    obtain ⟨away, distinct⟩ := List.nodup_cons.mp distinct
    rw [List.foldl_cons, ih distinct (get?_recordUse present first)]
    by_cases same : id = first
    · subst same
      by_cases owned : row.tenant = tenant
      · simp [owned, away]
      · simp [owned]
    · simp [same]

theorem recordUsage_nil (store : RuleStore) (tenant : TenantId) (now : Instant) :
    (store.recordUsage tenant [] now).2 = store := by
  unfold recordUsage
  split <;> rfl

/-- An evaluation counts for the rules that made it allow. -/
def count (store : RuleStore) (made : Finding) : RuleStore :=
  if made.evaluation.allowed then
    (store.recordUsage made.tenant made.evaluation.matchedRules made.moment).2
  else store

theorem available_count (store : RuleStore) (made : Finding) :
    (store.count made).available = store.available := by
  unfold count
  split
  · exact (recordUsage_switches store _ _ _).1
  · rfl

theorem get?_count (available : store.available = true) (distinct : made.Distinct)
    (present : store.rows.get? id = some row) :
    (store.count made).rows.get? id =
      some (if made.uses row.tenant id then used row made.moment else row) := by
  unfold count
  by_cases allowed : made.evaluation.allowed = true
  · rw [if_pos allowed, recordUsage, if_neg (by simp [available])]
    refine (get?_foldl_recordUse distinct present).trans ?_
    simp only [Finding.uses, allowed, Bool.and_true, Bool.and_eq_true, decide_eq_true_eq,
      List.contains_iff_mem, eq_comm (a := row.tenant)]
  · rw [if_neg allowed, present]
    simp [Finding.uses, allowed]

end Counting

section Tally

/-- A row after its rule was used. -/
def tally (row : Rule) (uses : List Finding) : Rule :=
  uses.foldl (fun row made => used row made.moment) row

/-- The evaluations that use a row's rule. -/
def usesOf (row : Rule) (id : RuleId) (evaluations : List Finding) : List Finding :=
  evaluations.filter (·.uses row.tenant id)

theorem get?_foldl_count (available : store.available = true)
    (distinct : ∀ made ∈ evaluations, made.Distinct) (present : store.rows.get? id = some row) :
    (evaluations.foldl count store).rows.get? id = some (tally row (usesOf row id evaluations)) := by
  induction evaluations generalizing store row with
  | nil => exact present
  | cons made rest ih =>
    rw [List.foldl_cons, ih ((available_count store made).trans available)
      (fun other member => distinct other (List.mem_cons_of_mem _ member))
      (get?_count available (distinct made List.mem_cons_self) present)]
    unfold usesOf
    by_cases uses : made.uses row.tenant id = true
    · rw [if_pos uses, List.filter_cons, if_pos uses]
      rfl
    · rw [if_neg uses, List.filter_cons, if_neg uses]

theorem tally_eq_usedAt (row : Rule) (uses : List Finding) :
    tally row uses = row.usedAt (uses.map (·.moment)) := by
  induction uses generalizing row with
  | nil => exact (usedAt_nil row).symm
  | cons made rest ih => exact (ih (used row made.moment)).trans (usedAt_append row [made.moment] _)

theorem tally_append (row : Rule) (uses more : List Finding) :
    tally row (uses ++ more) = tally (tally row uses) more :=
  List.foldl_append

@[simp] theorem tally_tenant (row : Rule) (uses : List Finding) :
    (tally row uses).tenant = row.tenant := by
  rw [tally_eq_usedAt, usedAt_tenant]

theorem tally_usageCount (row : Rule) (uses : List Finding) :
    (tally row uses).usageCount = row.usageCount + UInt64.ofNat uses.length := by
  rw [tally_eq_usedAt, Rule.usedAt, List.length_map]

theorem tally_lastUsedAt (row : Rule) (uses : List Finding) :
    (tally row uses).lastUsedAt = (uses.getLast?.map (·.moment)).or row.lastUsedAt := by
  rw [tally_eq_usedAt, Rule.usedAt, List.getLast?_map]

theorem tally_usedLike {row other : Rule} (like : row.UsedLike other) (uses : List Finding) :
    (tally row uses).UsedLike (tally other uses) := by
  refine ⟨?_, ?_, ?_⟩
  · rw [tally_tenant, tally_tenant, like.tenant]
  · rw [tally_usageCount, tally_usageCount, like.usageCount]
  · rw [tally_lastUsedAt, tally_lastUsedAt, like.lastUsedAt]

/-- A count that does not overflow grows by the number of uses. -/
theorem toNat_tally_usageCount {row : Rule} {uses : List Finding}
    (fits : row.usageCount.toNat + uses.length < UInt64.size) :
    (tally row uses).usageCount.toNat = row.usageCount.toNat + uses.length := by
  rw [tally_eq_usedAt, toNat_usageCount_usedAt (by simpa using fits), List.length_map]

end Tally

end RuleStore

end AccessPolicy
