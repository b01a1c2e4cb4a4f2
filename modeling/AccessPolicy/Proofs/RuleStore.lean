import AccessPolicy.Engine.Maintenance
import AccessPolicy.Proofs.Identifier
import AccessPolicy.Proofs.Rule.Concern
import AccessPolicy.Proofs.Table

/-!
The rules of a tenant in the store, and what each call does to them. Counting a use and disabling a
lapsed rule leave the rules alike; the other writes add, replace or take out one rule of one tenant.
-/
namespace AccessPolicy

namespace RuleStore

def law (store : RuleStore) (tenant : TenantId) : List Rule :=
  store.rows.values.filter (·.tenant = tenant)

/-- The store can be reached, its rows are in order under their ids, and the calendar has an instant
after each rule's window. -/
structure Sound (store : RuleStore) : Prop where
  available : store.available = true
  ordered : store.rows.Ordered
  keyed : ∀ id rule, store.rows.get? id = some rule → rule.id = id
  closing : ∀ id rule, store.rows.get? id = some rule → rule.closes

/-- The id that the store hands out next is not in use: the counter has not come round. -/
def HasRoom (store : RuleStore) : Prop :=
  store.rows.get? store.nextId = none

variable {store : RuleStore} {tenant other : TenantId} {rule : Rule}

theorem sound_empty : empty.Sound where
  available := rfl
  ordered := .nil
  keyed := fun _ _ impossible => nomatch impossible
  closing := fun _ _ impossible => nomatch impossible

theorem accepts_ofTenant (tenant : TenantId) (rule : Rule) :
    (RuleFilter.ofTenant tenant).accepts rule = decide (rule.tenant = tenant) := by
  simp [RuleFilter.accepts, RuleFilter.ofTenant, RuleFilter.allows, eq_comm]

theorem filter_accepts_ofTenant (store : RuleStore) (tenant : TenantId) :
    store.rows.values.filter (RuleFilter.ofTenant tenant).accepts = store.law tenant :=
  congrArg (List.filter · _) (funext (accepts_ofTenant tenant))

theorem Sound.find_ofTenant (sound : store.Sound) (tenant : TenantId) :
    store.find (RuleFilter.ofTenant tenant) = .ok (store.law tenant) := by
  simp [find, sound.available, filter_accepts_ofTenant]

theorem filter_law (store : RuleStore) (tenant : TenantId) :
    (store.law tenant).filter (·.tenant = tenant) = store.law tenant := by
  simp [law]

theorem Sound.mem_values_iff (sound : store.Sound) :
    rule ∈ store.rows.values ↔ store.rows.get? rule.id = some rule := by
  constructor
  · intro member
    obtain ⟨⟨id, _⟩, present, rfl⟩ := List.mem_map.mp member
    have found := (Table.mem_iff_get? sound.ordered).mp present
    rw [sound.keyed id _ found]
    exact found
  · exact Table.mem_values_of_get?

theorem Sound.mem_law_iff (sound : store.Sound) :
    rule ∈ store.law tenant ↔ store.rows.get? rule.id = some rule ∧ rule.tenant = tenant := by
  rw [law, List.mem_filter, sound.mem_values_iff, decide_eq_true_eq]

theorem Sound.closes_of_mem_law (sound : store.Sound) (member : rule ∈ store.law tenant) :
    rule.closes :=
  sound.closing rule.id rule (sound.mem_law_iff.mp member).1

theorem Sound.single (sound : store.Sound) {one two : Rule} (member : one ∈ store.law tenant)
    (memberToo : two ∈ store.law tenant) (same : one.id = two.id) : one = two := by
  have found := (sound.mem_law_iff.mp member).1
  rw [same, (sound.mem_law_iff.mp memberToo).1] at found
  exact (Option.some.inj found).symm

section Writes

/-- A row in place of the one under its id. -/
def putRow (store : RuleStore) (rule : Rule) : RuleStore :=
  { store with rows := store.rows.put rule.id rule }

def eraseRow (store : RuleStore) (id : RuleId) : RuleStore :=
  { store with rows := store.rows.erase id }

theorem sound_putRow (sound : store.Sound) (closing : rule.closes) : (store.putRow rule).Sound where
  available := sound.available
  ordered := Table.ordered_put sound.ordered rule.id rule
  keyed := fun id found present => by
    by_cases same : id = rule.id
    · subst same
      rw [putRow, Table.get?_put_self] at present
      cases present
      rfl
    · rw [putRow, Table.get?_put_of_ne _ _ same] at present
      exact sound.keyed id found present
  closing := fun id found present => by
    by_cases same : id = rule.id
    · subst same
      rw [putRow, Table.get?_put_self] at present
      cases present
      exact closing
    · rw [putRow, Table.get?_put_of_ne _ _ same] at present
      exact sound.closing id found present

theorem sound_eraseRow (sound : store.Sound) (id : RuleId) : (store.eraseRow id).Sound where
  available := sound.available
  ordered := Table.ordered_erase sound.ordered id
  keyed := fun key found present => by
    by_cases same : key = id
    · rw [same, eraseRow, Table.get?_erase_self] at present
      cases present
    · rw [eraseRow, Table.get?_erase_of_ne _ same] at present
      exact sound.keyed key found present
  closing := fun key found present => by
    by_cases same : key = id
    · rw [same, eraseRow, Table.get?_erase_self] at present
      cases present
    · rw [eraseRow, Table.get?_erase_of_ne _ same] at present
      exact sound.closing key found present

theorem Sound.mem_law_putRow (sound : store.Sound) (closing : rule.closes) {found : Rule} :
    found ∈ (store.putRow rule).law tenant ↔
      found ∈ store.law tenant ∧ found.id ≠ rule.id ∨ found = rule ∧ rule.tenant = tenant := by
  rw [(sound_putRow sound closing).mem_law_iff, sound.mem_law_iff]
  by_cases same : found.id = rule.id
  · rw [same, putRow, Table.get?_put_self]
    constructor
    · rintro ⟨present, owned⟩
      cases present
      exact Or.inr ⟨rfl, owned⟩
    · rintro (⟨_, away⟩ | ⟨rfl, owned⟩)
      · exact absurd rfl away
      · exact ⟨rfl, owned⟩
  · rw [putRow, Table.get?_put_of_ne _ _ same]
    constructor
    · rintro ⟨present, owned⟩
      exact Or.inl ⟨⟨present, owned⟩, same⟩
    · rintro (⟨old, _⟩ | ⟨rfl, _⟩)
      · exact old
      · exact absurd rfl same

theorem Sound.mem_law_eraseRow (sound : store.Sound) {id : RuleId} :
    rule ∈ (store.eraseRow id).law tenant ↔ rule ∈ store.law tenant ∧ rule.id ≠ id := by
  rw [(sound_eraseRow sound id).mem_law_iff, sound.mem_law_iff]
  by_cases same : rule.id = id
  · rw [same, eraseRow, Table.get?_erase_self]
    simp
  · rw [eraseRow, Table.get?_erase_of_ne _ same]
    simp [same]

/-- A row like the one under its id leaves every tenant's rules alike. -/
theorem Sound.alike_putRow (sound : store.Sound) {now : Instant} {stored : Rule}
    (present : store.rows.get? stored.id = some stored) (alike : stored.Alike now rule)
    (closing : rule.closes) (tenant : TenantId) :
    AlikeRules now (store.law tenant) ((store.putRow rule).law tenant) where
  forth := fun found member => by
    by_cases same : found.id = rule.id
    · have held := (sound.mem_law_iff.mp member).1
      rw [same, ← alike.id, present] at held
      cases held
      refine ⟨rule, (sound.mem_law_putRow closing).mpr (Or.inr ⟨rfl, ?_⟩), alike⟩
      exact alike.tenant.symm.trans (sound.mem_law_iff.mp member).2
    · exact ⟨found, (sound.mem_law_putRow closing).mpr (Or.inl ⟨member, same⟩), .refl found now⟩
  back := fun found member => by
    rcases (sound.mem_law_putRow closing).mp member with ⟨old, _⟩ | ⟨rfl, owned⟩
    · exact ⟨found, old, .refl found now⟩
    · refine ⟨stored, sound.mem_law_iff.mpr ⟨present, alike.tenant.trans owned⟩, alike⟩

end Writes

section Calls

/-- Sound stores with the same rows differ in nothing that is read of them but the next id. -/
theorem Sound.withNextId (sound : store.Sound) (nextId : RuleId) :
    ({ store with nextId := nextId } : RuleStore).Sound :=
  ⟨sound.available, sound.ordered, sound.keyed, sound.closing⟩

theorem insert_eq_ok {stored : Rule} {after : RuleStore}
    (inserted : store.insert rule = (.ok stored, after)) :
    stored = { rule with id := store.nextId } ∧
      after = { store.putRow stored with nextId := ⟨store.nextId.value + 1⟩ } := by
  unfold insert at inserted
  split at inserted
  · cases inserted
  · split at inserted
    · cases inserted
    · cases inserted
      exact ⟨rfl, rfl⟩

theorem insert_eq_error {fault : StoreError} {after : RuleStore}
    (refused : store.insert rule = (.error fault, after)) : after = store := by
  unfold insert at refused
  split at refused
  · cases refused
    rfl
  · split at refused
    · cases refused
      rfl
    · cases refused

theorem update_eq_ok {after : RuleStore} (updated : store.update rule = (.ok (), after)) :
    after = store.putRow rule ∧ ∃ stored, store.rows.get? rule.id = some stored ∧
      stored.tenant = rule.tenant := by
  unfold update at updated
  split at updated
  · cases updated
  · split at updated
    · rename_i stored found
      split at updated
      · rename_i owned
        cases updated
        exact ⟨rfl, stored, found, owned⟩
      · cases updated
    · cases updated

theorem update_eq_error {fault : StoreError} {after : RuleStore}
    (refused : store.update rule = (.error fault, after)) : after = store := by
  unfold update at refused
  split at refused
  · cases refused
    rfl
  · split at refused
    · split at refused
      · cases refused
      · cases refused
        rfl
    · cases refused
      rfl

theorem delete_eq_some {id : RuleId} {after : RuleStore}
    (deleted : store.delete tenant id = (.ok (some rule), after)) :
    after = store.eraseRow id ∧ store.rows.get? id = some rule ∧ rule.tenant = tenant := by
  unfold delete at deleted
  split at deleted
  · cases deleted
  · split at deleted
    · rename_i stored found
      split at deleted
      · rename_i owned
        cases deleted
        exact ⟨rfl, found, owned⟩
      · cases deleted
    · cases deleted

theorem delete_eq_of_ne_some {id : RuleId} {after : RuleStore}
    {result : Except StoreError (Option Rule)} (deleted : store.delete tenant id = (result, after))
    (nothing : ∀ rule, result ≠ .ok (some rule)) : after = store := by
  unfold delete at deleted
  split at deleted
  · cases deleted
    rfl
  · split at deleted
    · split at deleted
      · cases deleted
        exact absurd rfl (nothing _)
      · cases deleted
        rfl
    · cases deleted
      rfl

theorem get_eq_some {id : RuleId} (found : store.get tenant id = .ok (some rule)) :
    store.rows.get? id = some rule ∧ rule.tenant = tenant := by
  unfold get at found
  split at found
  · cases found
  · split at found
    · rename_i stored present
      split at found
      · rename_i owned
        cases found
        exact ⟨present, owned⟩
      · cases found
    · cases found

end Calls

section Upkeep

variable {now : Instant}

theorem alike_used (rule : Rule) (now : Instant) : rule.Alike now (used rule now) :=
  ⟨rfl, rfl, rfl, rfl, fun _ _ => rfl⟩

/-- A rule whose window has closed does not count any more, disabled or not. -/
theorem alike_disabled (lapsed : rule.isLapsed now = true) :
    rule.Alike now (Engine.disabled rule now) := by
  refine ⟨rfl, rfl, rfl, rfl, fun later order => ?_⟩
  simp only [Rule.isLapsed, Bool.and_eq_true] at lapsed
  have past : rule.isAfterWindow later = true := by
    unfold Rule.isAfterWindow at lapsed ⊢
    cases window : rule.effectiveTo with
    | none => simp [window] at lapsed
    | some last =>
      have before : last < now := by simpa [window] using lapsed.2
      simpa using Instant.lt_of_lt_of_le before order
  have silent : rule.isActive later = false := by
    rw [Bool.eq_false_iff, ne_eq, Rule.isActive_iff, past]
    simp
  rw [silent]
  rfl

/-- Rules stay alike in every tenant. -/
def Alike (now : Instant) (before after : RuleStore) : Prop :=
  ∀ tenant, AlikeRules now (before.law tenant) (after.law tenant)

theorem Alike.refl (now : Instant) (store : RuleStore) : Alike now store store :=
  fun tenant => .refl now (store.law tenant)

theorem Alike.trans {first second third : RuleStore} (one : Alike now first second)
    (two : Alike now second third) : Alike now first third :=
  fun tenant => (one tenant).trans (two tenant)

theorem recordUse_eq (sound : store.Sound) (tenant : TenantId) (now : Instant) (id : RuleId) :
    { store with rows := recordUse tenant now store.rows id } = store ∨
      ∃ stored, store.rows.get? stored.id = some stored ∧
        { store with rows := recordUse tenant now store.rows id } =
          store.putRow (used stored now) := by
  unfold recordUse
  split
  · rename_i stored found
    split
    · have same := sound.keyed id stored found
      subst same
      exact Or.inr ⟨stored, found, rfl⟩
    · exact Or.inl rfl
  · exact Or.inl rfl

theorem Sound.foldl_recordUse (sound : store.Sound) (tenant : TenantId) (now : Instant)
    (ids : List RuleId) :
    ({ store with rows := ids.foldl (recordUse tenant now) store.rows } : RuleStore).Sound ∧
      Alike now store { store with rows := ids.foldl (recordUse tenant now) store.rows } := by
  induction ids generalizing store with
  | nil => exact ⟨sound, .refl now store⟩
  | cons id rest ih =>
    rw [List.foldl_cons]
    rcases recordUse_eq sound tenant now id with same | ⟨stored, found, same⟩
    · have rows := congrArg RuleStore.rows same
      dsimp only at rows
      rw [rows]
      exact ih sound
    · have closing_stored : stored.closes := sound.closing _ _ found
      have closing : (used stored now).closes := closing_stored
      have after := sound_putRow sound closing
      have alike : Alike now store (store.putRow (used stored now)) := fun owner =>
        sound.alike_putRow found (alike_used stored now) closing owner
      have rows := congrArg RuleStore.rows same
      dsimp only at rows
      obtain ⟨sound_last, alike_last⟩ := ih after
      rw [rows]
      exact ⟨sound_last, alike.trans alike_last⟩

theorem Sound.recordUsage (sound : store.Sound) (tenant : TenantId) (ids : List RuleId)
    (now : Instant) : (store.recordUsage tenant ids now).1 = .ok () ∧
      (store.recordUsage tenant ids now).2.Sound ∧
        Alike now store (store.recordUsage tenant ids now).2 := by
  have reached : (!store.available) = false := by rw [sound.available]; rfl
  unfold RuleStore.recordUsage
  rw [reached]
  exact ⟨rfl, sound.foldl_recordUse tenant now ids⟩

end Upkeep

end RuleStore

theorem AlikeRules.of_mem_iff {now : Instant} {rules others : List Rule}
    (same : ∀ rule, rule ∈ others ↔ rule ∈ rules) : AlikeRules now rules others where
  forth := fun rule member => ⟨rule, (same rule).mpr member, .refl rule now⟩
  back := fun rule member => ⟨rule, (same rule).mp member, .refl rule now⟩

/-- Tenants' rules are the same but for some rules. -/
def Differ (changed : List Rule) (laws others : TenantId → List Rule) : Prop :=
  ∀ tenant rule, ¬ (rule ∈ laws tenant ↔ rule ∈ others tenant) → rule ∈ changed ∧ rule.tenant = tenant

namespace Differ

variable {changed more : List Rule} {laws others last : TenantId → List Rule} {tenant : TenantId}

theorem refl (laws : TenantId → List Rule) : Differ [] laws laws :=
  fun _ _ different => absurd Iff.rfl different

theorem trans (one : Differ changed laws others) (two : Differ more others last) :
    Differ (changed ++ more) laws last := by
  intro tenant rule different
  by_cases same : rule ∈ laws tenant ↔ rule ∈ others tenant
  · obtain ⟨member, owned⟩ := two tenant rule fun also => different (same.trans also)
    exact ⟨List.mem_append_right _ member, owned⟩
  · obtain ⟨member, owned⟩ := one tenant rule same
    exact ⟨List.mem_append_left _ member, owned⟩

/-- A tenant of which no rule has changed has the same rules. -/
theorem alike (differ : Differ changed laws others) (now : Instant)
    (untouched : ∀ rule ∈ changed, rule.tenant ≠ tenant) :
    AlikeRules now (laws tenant) (others tenant) := by
  refine AlikeRules.of_mem_iff fun rule => ?_
  refine Classical.byContradiction fun different => ?_
  obtain ⟨member, owned⟩ := differ tenant rule fun same => different same.symm
  exact untouched rule member owned

end Differ

namespace RuleStore

variable {store : RuleStore} {tenant : TenantId} {rule previous : Rule}

theorem Sound.mem_law_insert (sound : store.Sound) (closing : rule.closes)
    (room : store.rows.get? rule.id = none) {found : Rule} :
    found ∈ (store.putRow rule).law tenant ↔
      found ∈ store.law tenant ∨ found = rule ∧ rule.tenant = tenant := by
  rw [sound.mem_law_putRow closing]
  refine or_congr_left ⟨And.left, fun member => ⟨member, fun same => ?_⟩⟩
  have present := (sound.mem_law_iff.mp member).1
  rw [same, room] at present
  cases present

theorem Sound.differ_insert (sound : store.Sound) (closing : rule.closes)
    (room : store.rows.get? rule.id = none) : Differ [rule] store.law (store.putRow rule).law := by
  intro tenant found different
  rw [sound.mem_law_insert closing room] at different
  have added : found = rule ∧ rule.tenant = tenant := by
    by_cases member : found ∈ store.law tenant
    · exact absurd (by simp [member]) different
    · simpa [member] using different
  exact ⟨by simp [added.1], added.1 ▸ added.2⟩

theorem Sound.differ_erase (sound : store.Sound) (present : store.rows.get? rule.id = some rule) :
    Differ [rule] store.law (store.eraseRow rule.id).law := by
  intro tenant found different
  rw [sound.mem_law_eraseRow] at different
  have erased : found ∈ store.law tenant ∧ found.id = rule.id := by
    by_cases member : found ∈ store.law tenant
    · simpa [member] using different
    · exact absurd (by simp [member]) different
  obtain ⟨held, owned⟩ := sound.mem_law_iff.mp erased.1
  rw [erased.2, present] at held
  cases held
  exact ⟨by simp, owned⟩

theorem Sound.differ_replace (sound : store.Sound) (closing : rule.closes)
    (present : store.rows.get? previous.id = some previous) (same : rule.id = previous.id) :
    Differ [rule, previous] store.law (store.putRow rule).law := by
  intro tenant found different
  rw [sound.mem_law_putRow closing, same] at different
  by_cases member : found ∈ store.law tenant
  · by_cases away : found.id = previous.id
    · obtain ⟨held, owned⟩ := sound.mem_law_iff.mp member
      rw [away, present] at held
      cases held
      exact ⟨by simp, owned⟩
    · exact absurd (by simp [member, away]) different
  · have added : found = rule ∧ rule.tenant = tenant := by simpa [member] using different
    exact ⟨by simp [added.1], added.1 ▸ added.2⟩

end RuleStore

end AccessPolicy
