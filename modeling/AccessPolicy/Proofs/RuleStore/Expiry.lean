import AccessPolicy.Proofs.RuleStore

/-!
The sweep of lapsed rules. Each row that has lapsed is disabled and the others stay, whatever tenant
they are of; since a lapsed rule does not count any more, the rules stay alike.
-/
namespace AccessPolicy

namespace Rule

/-- The rule as a sweep leaves it. -/
def swept (now : Instant) (rule : Rule) : Rule :=
  if rule.isLapsed now then Engine.disabled rule now else rule

variable {now : Instant} {rule : Rule}

theorem swept_of_lapsed (lapsed : rule.isLapsed now = true) :
    rule.swept now = Engine.disabled rule now :=
  if_pos lapsed

theorem swept_of_not_lapsed (lasting : rule.isLapsed now = false) : rule.swept now = rule :=
  if_neg (by simp [lasting])

theorem swept_id (now : Instant) (rule : Rule) : (rule.swept now).id = rule.id := by
  unfold swept
  split <;> rfl

theorem swept_tenant (now : Instant) (rule : Rule) : (rule.swept now).tenant = rule.tenant := by
  unfold swept
  split <;> rfl

theorem swept_closes (now : Instant) (rule : Rule) : (rule.swept now).closes = rule.closes := by
  unfold swept
  split <;> rfl

theorem isLapsed_swept (now : Instant) (rule : Rule) : (rule.swept now).isLapsed now = false := by
  cases lapsed : rule.isLapsed now with
  | true =>
    rw [swept_of_lapsed lapsed]
    simp [isLapsed, Engine.disabled]
  | false => rw [swept_of_not_lapsed lapsed, lapsed]

theorem alike_swept (now : Instant) (rule : Rule) : rule.Alike now (rule.swept now) := by
  cases lapsed : rule.isLapsed now with
  | true =>
    rw [swept_of_lapsed lapsed]
    exact RuleStore.alike_disabled lapsed
  | false =>
    rw [swept_of_not_lapsed lapsed]
    exact .refl rule now

end Rule

namespace RuleStore

variable {store : RuleStore} {now : Instant} {rule : Rule} {rules : List Rule}

/-- The rules that have lapsed, by ascending id. -/
def lapsed (store : RuleStore) (now : Instant) : List Rule :=
  store.rows.values.filter (·.isLapsed now)

/-- Every row as a sweep leaves it. -/
def sweep (store : RuleStore) (now : Instant) : RuleStore :=
  { store with rows := store.rows.map fun entry => (entry.1, entry.2.swept now) }

theorem get?_sweep (store : RuleStore) (now : Instant) (id : RuleId) :
    (store.sweep now).rows.get? id = (store.rows.get? id).map (Rule.swept now) :=
  Table.get?_mapValues (Rule.swept now) store.rows id

theorem keys_sweep (store : RuleStore) (now : Instant) :
    (store.sweep now).rows.keys = store.rows.keys := by
  simp [sweep, Table.keys, Function.comp_def]

theorem values_sweep (store : RuleStore) (now : Instant) :
    (store.sweep now).rows.values = store.rows.values.map (Rule.swept now) := by
  simp [sweep, Table.values, Function.comp_def]

theorem lapsed_sweep (store : RuleStore) (now : Instant) : (store.sweep now).lapsed now = [] := by
  rw [lapsed, values_sweep, List.filter_eq_nil_iff]
  intro row member
  obtain ⟨rule, _, rfl⟩ := List.mem_map.mp member
  simp [Rule.isLapsed_swept]

/-- No decision can tell whether a store has been swept. -/
theorem alike_sweep (store : RuleStore) (now : Instant) : store.Alike now (store.sweep now) := by
  intro tenant
  have swept : (store.sweep now).law tenant = (store.law tenant).map (Rule.swept now) := by
    rw [law, values_sweep, List.filter_map]
    congr 2
    funext rule
    rw [Function.comp_apply, Rule.swept_tenant]
  rw [swept]
  constructor
  · exact fun rule member => ⟨_, List.mem_map_of_mem member, rule.alike_swept now⟩
  · intro row member
    obtain ⟨rule, present, rfl⟩ := List.mem_map.mp member
    exact ⟨rule, present, rule.alike_swept now⟩

theorem sound_sweep (sound : store.Sound) (now : Instant) : (store.sweep now).Sound where
  available := sound.available
  ordered := by
    rw [Table.Ordered, keys_sweep]
    exact sound.ordered
  keyed := fun id row present => by
    rw [get?_sweep] at present
    obtain ⟨rule, found, rfl⟩ := Option.map_eq_some_iff.mp present
    exact (rule.swept_id now).trans (sound.keyed id rule found)
  closing := fun id row present => by
    rw [get?_sweep] at present
    obtain ⟨rule, found, rfl⟩ := Option.map_eq_some_iff.mp present
    exact (rule.swept_closes now).trans (sound.closing id rule found)

section Lapsed

theorem Sound.mem_lapsed_iff (sound : store.Sound) :
    rule ∈ store.lapsed now ↔ store.rows.get? rule.id = some rule ∧ rule.isLapsed now = true := by
  rw [lapsed, List.mem_filter, sound.mem_values_iff]

/-- A row has lapsed if its id is among those of the lapsed rules. -/
theorem Sound.mem_lapsed_ids_iff (sound : store.Sound) {id : RuleId}
    (present : store.rows.get? id = some rule) :
    id ∈ (store.lapsed now).map Rule.id ↔ rule.isLapsed now = true := by
  constructor
  · intro member
    obtain ⟨other, listed, rfl⟩ := List.mem_map.mp member
    obtain ⟨found, lapsed⟩ := sound.mem_lapsed_iff.mp listed
    rw [present] at found
    cases found
    exact lapsed
  · intro lapsed
    have named := sound.keyed id rule present
    refine List.mem_map.mpr ⟨rule, sound.mem_lapsed_iff.mpr ⟨?_, lapsed⟩, named⟩
    rw [named]
    exact present

theorem Sound.ids_values (sound : store.Sound) :
    store.rows.values.map Rule.id = store.rows.keys := by
  unfold Table.values Table.keys
  rw [List.map_map]
  refine List.map_congr_left fun entry member => ?_
  exact sound.keyed entry.1 entry.2 ((Table.mem_iff_get? sound.ordered).mp member)

theorem Sound.lapsed_ascending (sound : store.Sound) (now : Instant) :
    ((store.lapsed now).map Rule.id).Pairwise (· < ·) := by
  refine List.Pairwise.sublist (List.filter_sublist.map Rule.id) ?_
  rw [sound.ids_values]
  exact sound.ordered

/-- What has lapsed is enabled and temporary, so that a search for such rules finds it. -/
theorem Sound.find_temporary (sound : store.Sound) (now : Instant) : ∃ candidates,
    store.find { RuleFilter.allTenants with
      temporary := some true
      status := some .enabled } = .ok candidates ∧
    candidates.filter (·.isLapsed now) = store.lapsed now := by
  refine ⟨_, by simp only [find, sound.available]; rfl, ?_⟩
  rw [List.filter_filter]
  refine List.filter_congr fun rule _ => ?_
  cases lapsed : rule.isLapsed now with
  | false => rfl
  | true =>
    simp only [Rule.isLapsed, Bool.and_eq_true, decide_eq_true_eq] at lapsed
    simp [RuleFilter.accepts, RuleFilter.allTenants, RuleFilter.allows, lapsed.1.1, lapsed.1.2]

end Lapsed

section Disabling

/-- Rows are put in place of those under their ids, one after the other. -/
def putRows (store : RuleStore) (rules : List Rule) : RuleStore :=
  rules.foldl putRow store

theorem putRows_cons (store : RuleStore) (rule : Rule) (rest : List Rule) :
    store.putRows (rule :: rest) = (store.putRow rule).putRows rest :=
  rfl

theorem putRows_eq (store : RuleStore) (rules : List Rule) :
    store.putRows rules = { store with rows := (store.putRows rules).rows } := by
  induction rules generalizing store with
  | nil => rfl
  | cons rule rest ih => exact ih (store.putRow rule)

theorem ordered_putRows (ordered : store.rows.Ordered) (rules : List Rule) :
    (store.putRows rules).rows.Ordered := by
  induction rules generalizing store with
  | nil => exact ordered
  | cons rule rest ih => exact ih (Table.ordered_put ordered rule.id rule)

theorem update_of_present {stored : Rule} (available : store.available = true)
    (present : store.rows.get? rule.id = some stored) (owned : stored.tenant = rule.tenant) :
    store.update rule = (.ok (), store.putRow rule) := by
  simp [update, available, present, owned, putRow]

theorem get?_putRow_disabled_of_ne {id : RuleId} (apart : id ≠ rule.id) (now : Instant) :
    (store.putRow (Engine.disabled rule now)).rows.get? id = store.rows.get? id :=
  Table.get?_put_of_ne _ _ apart

/-- Rules that stand in the store under ids of their own. -/
structure Stand (store : RuleStore) (rules : List Rule) : Prop where
  present : ∀ rule ∈ rules, store.rows.get? rule.id = some rule
  distinct : (rules.map Rule.id).Nodup

theorem Stand.fresh (stand : store.Stand (rule :: rules)) : rule.id ∉ rules.map Rule.id :=
  (List.nodup_cons.mp stand.distinct).1

/-- The others stand where they stood when the first is disabled. -/
theorem Stand.rest (stand : store.Stand (rule :: rules)) (now : Instant) :
    (store.putRow (Engine.disabled rule now)).Stand rules where
  present := fun other member => by
    have apart : other.id ≠ rule.id := fun same => stand.fresh (same ▸ List.mem_map_of_mem member)
    rw [get?_putRow_disabled_of_ne apart]
    exact stand.present other (List.mem_cons_of_mem _ member)
  distinct := (List.nodup_cons.mp stand.distinct).2

theorem Stand.get?_putRows_disabled (stand : store.Stand rules) (now : Instant) (id : RuleId) :
    (store.putRows (rules.map (Engine.disabled · now))).rows.get? id =
      (store.rows.get? id).map fun row =>
        if id ∈ rules.map Rule.id then Engine.disabled row now else row := by
  induction rules generalizing store with
  | nil => simp [putRows]
  | cons rule rest ih =>
    rw [List.map_cons, putRows_cons, ih (stand.rest now)]
    by_cases same : id = rule.id
    · subst same
      rw [stand.present rule List.mem_cons_self, putRow]
      simp [Engine.disabled, stand.fresh]
    · rw [get?_putRow_disabled_of_ne same]
      simp [same]

theorem Sound.stand_lapsed (sound : store.Sound) (now : Instant) :
    store.Stand (store.lapsed now) where
  present := fun _ member => (sound.mem_lapsed_iff.mp member).1
  distinct := by
    refine (sound.lapsed_ascending now).imp ?_
    rintro left right before rfl
    exact Std.Asymm.asymm left left before before

/-- Disabling what has lapsed, rule by rule, is to sweep the store. -/
theorem Sound.putRows_lapsed (sound : store.Sound) (now : Instant) :
    store.putRows ((store.lapsed now).map (Engine.disabled · now)) = store.sweep now := by
  have rows : (store.putRows ((store.lapsed now).map (Engine.disabled · now))).rows =
      (store.sweep now).rows := by
    refine Table.eq_of_get?_eq (ordered_putRows sound.ordered _) (sound_sweep sound now).ordered ?_
    intro id
    rw [(sound.stand_lapsed now).get?_putRows_disabled, get?_sweep]
    cases found : store.rows.get? id with
    | none => rfl
    | some rule =>
      have listed : id ∈ (store.lapsed now).map Rule.id ↔ rule.isLapsed now = true :=
        sound.mem_lapsed_ids_iff found
      simp only [Option.map_some, listed, Rule.swept]
  rw [putRows_eq, rows]
  rfl

end Disabling

end RuleStore

/-- The report lists the rules that have lapsed, and their tenants, each once and in order. -/
structure ExpiryReport.Lists (report : ExpiryReport) (store : RuleStore) (now : Instant) : Prop where
  ascending : report.expired.Pairwise (· < ·)
  mem_expired : ∀ id, id ∈ report.expired ↔
    ∃ rule, store.rows.get? id = some rule ∧ rule.isLapsed now
  tenants_ascending : report.tenants.Pairwise (· < ·)
  mem_tenants : ∀ tenant, tenant ∈ report.tenants ↔
    ∃ id rule, store.rows.get? id = some rule ∧ rule.isLapsed now ∧ rule.tenant = tenant

namespace RuleStore

variable {store : RuleStore}

theorem Sound.lists_lapsed (sound : store.Sound) (now : Instant) :
    ExpiryReport.Lists ⟨(store.lapsed now).map Rule.id,
      Ascending.ofList ((store.lapsed now).map Rule.tenant)⟩ store now where
  ascending := sound.lapsed_ascending now
  mem_expired := fun id => by
    constructor
    · intro member
      obtain ⟨rule, listed, rfl⟩ := List.mem_map.mp member
      exact ⟨rule, sound.mem_lapsed_iff.mp listed⟩
    · rintro ⟨rule, present, lapsed⟩
      exact (sound.mem_lapsed_ids_iff present).mpr lapsed
  tenants_ascending := Ascending.pairwise_ofList _
  mem_tenants := fun tenant => by
    rw [Ascending.mem_ofList_iff, List.mem_map]
    constructor
    · rintro ⟨rule, listed, owned⟩
      obtain ⟨present, lapsed⟩ := sound.mem_lapsed_iff.mp listed
      exact ⟨rule.id, rule, present, lapsed, owned⟩
    · rintro ⟨id, rule, present, lapsed, owned⟩
      rw [← sound.keyed id rule present] at present
      exact ⟨rule, sound.mem_lapsed_iff.mpr ⟨present, lapsed⟩, owned⟩

end RuleStore

end AccessPolicy
