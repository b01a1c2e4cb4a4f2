import AccessPolicy.Proofs.RuleStore.Usage
import Mathlib.Data.List.Induction
import Mathlib.Data.List.Range

/-!
A store of rules through calls of every kind, told by what was asked and what was answered. The store
hands out ids by counting, and each row is the one that was last written under its id, with the uses
that were recorded since.
-/
namespace AccessPolicy

/-- The rule has every value that the filter asks for, and counts at the instant that it gives. -/
structure RuleFilter.Matches (filter : RuleFilter) (rule : Rule) : Prop where
  tenant : ∀ tenant ∈ filter.tenant, rule.tenant = tenant
  service : ∀ service ∈ filter.service, rule.service = service
  ptype : ∀ ptype ∈ filter.ptype, rule.ptype = ptype
  subject : ∀ subject ∈ filter.subject, rule.v0 = subject
  object : ∀ object ∈ filter.object, rule.v1 = object
  action : ∀ action ∈ filter.action, rule.v2 = action
  status : ∀ status ∈ filter.status, rule.status = status
  activeAt : ∀ now ∈ filter.activeAt, rule.isActive now = true
  temporary : ∀ temporary ∈ filter.temporary, rule.isTemporary = temporary

namespace RuleStore

/-- What can be asked of a store, the switch for outages among it. -/
inductive Call where
  | insert (rule : Rule)
  | get (tenant : TenantId) (id : RuleId)
  | update (rule : Rule)
  | delete (tenant : TenantId) (id : RuleId)
  | find (filter : RuleFilter)
  | recordUsage (tenant : TenantId) (ids : List RuleId) (now : Instant)
  | setAvailable (available : Bool)

inductive Reply where
  | stored (rule : Rule)
  | found (rule : Option Rule)
  | listed (rules : List Rule)
  | done

def perform (store : RuleStore) : Call → Except StoreError Reply × RuleStore
  | .insert rule => ((store.insert rule).1.map .stored, (store.insert rule).2)
  | .get tenant id => ((store.get tenant id).map .found, store)
  | .update rule => ((store.update rule).1.map fun _ => .done, (store.update rule).2)
  | .delete tenant id => ((store.delete tenant id).1.map .found, (store.delete tenant id).2)
  | .find filter => ((store.find filter).map .listed, store)
  | .recordUsage tenant ids now =>
    ((store.recordUsage tenant ids now).1.map fun _ => .done, (store.recordUsage tenant ids now).2)
  | .setAvailable available => (.ok .done, store.setAvailable available)

/-- A call and its answer. -/
structure Exchange where
  call : Call
  answer : Except StoreError Reply

namespace Exchange

/-- The row that a new rule becomes, or that takes the place of another. -/
def written? : Exchange → Option Rule
  | ⟨.insert rule, .ok (.stored row)⟩ => some { rule with id := row.id }
  | ⟨.update rule, .ok _⟩ => some rule
  | _ => none

/-- The id that a new rule is given. -/
def issued? : Exchange → Option RuleId
  | ⟨.insert _, .ok (.stored row)⟩ => some row.id
  | _ => none

def erased? : Exchange → Option RuleId
  | ⟨.delete _ id, .ok (.found (some _))⟩ => some id
  | _ => none

/-- The uses that are recorded of a tenant's row, one for each time that its id is named. -/
def uses (tenant : TenantId) (id : RuleId) : Exchange → List Instant
  | ⟨.recordUsage owner ids now, .ok _⟩ =>
    if owner = tenant then List.replicate (ids.count id) now else []
  | _ => []

/-- A row is written under the id, or the one that was there is erased. -/
def Touches (exchange : Exchange) (id : RuleId) : Prop :=
  (∃ row, exchange.written? = some row ∧ row.id = id) ∨ exchange.erased? = some id

end Exchange

def exchange (store : RuleStore) (call : Call) : Exchange :=
  ⟨call, (store.perform call).1⟩

def run (store : RuleStore) (calls : List Call) : RuleStore :=
  calls.foldl (fun store call => (store.perform call).2) store

def history (store : RuleStore) : List Call → List Exchange
  | [] => []
  | call :: rest => store.exchange call :: history (store.perform call).2 rest

/-- The ids that were given to new rules, in the order of the calls. -/
def issued (exchanges : List Exchange) : List RuleId :=
  exchanges.filterMap Exchange.issued?

/-- The row was written, what is under its id was not touched since, and its uses since were recorded at
the moments. -/
def LastWritten (exchanges : List Exchange) (row : Rule) (moments : List Instant) : Prop :=
  ∃ earlier write later, exchanges = earlier ++ write :: later ∧ write.written? = some row ∧
    (∀ exchange ∈ later, ¬ exchange.Touches row.id) ∧
    moments = later.flatMap (Exchange.uses row.tenant row.id)

/-- The row is one that was last written, with its uses since. -/
def Stands (exchanges : List Exchange) (held : Rule) : Prop :=
  ∃ row moments, LastWritten exchanges row moments ∧ held = row.usedAt moments

variable {store after : RuleStore} {exchange : Exchange} {exchanges : List Exchange}
variable {calls : List Call} {id : RuleId} {row held : Rule} {tenant : TenantId}

section Step

/-- A row's uses are counted as often as its id is named, if it is of the tenant. -/
theorem get?_foldl_recordUse_eq_map (rows : Table RuleId Rule) (tenant : TenantId) (now : Instant)
    (ids : List RuleId) (id : RuleId) :
    (ids.foldl (recordUse tenant now) rows).get? id = (rows.get? id).map fun row =>
      row.usedAt (if tenant = row.tenant then List.replicate (ids.count id) now else []) := by
  induction ids generalizing rows with
  | nil =>
    cases present : rows.get? id with
    | none => exact present
    | some row => simpa using present
  | cons first rest ih =>
    rw [List.foldl_cons, ih]
    cases present : rows.get? id with
    | none => rw [get?_recordUse_of_free present, Option.map_none, Option.map_none]
    | some row =>
      rw [get?_recordUse present, Option.map_some, Option.map_some]
      congr 1
      by_cases owned : tenant = row.tenant
      · by_cases named : first = id
        · subst named
          simp [owned, used_eq_usedAt, usedAt_append, List.replicate_succ]
        · simp [owned, named, Ne.symm named]
      · simp [owned, Ne.symm owned]

/-- What a call does: it writes a row under a new id or under one that is there, erases a row, records
uses, or leaves the rows and the counter as they are. -/
inductive Performs (store : RuleStore) : Exchange → RuleStore → Prop where
  | adds (rule : Rule) :
    Performs store ⟨.insert rule, .ok (.stored { rule with id := store.nextId })⟩
      { store.putRow { rule with id := store.nextId } with nextId := ⟨store.nextId.value + 1⟩ }
  | replaces (rule : Rule) {stored : Rule} (found : store.rows.get? rule.id = some stored)
    (owned : stored.tenant = rule.tenant) :
    Performs store ⟨.update rule, .ok .done⟩ (store.putRow rule)
  | erases (id : RuleId) {stored : Rule} (found : store.rows.get? id = some stored) :
    Performs store ⟨.delete stored.tenant id, .ok (.found (some stored))⟩ (store.eraseRow id)
  | counts (tenant : TenantId) (ids : List RuleId) (now : Instant) :
    Performs store ⟨.recordUsage tenant ids now, .ok .done⟩
      { store with rows := ids.foldl (recordUse tenant now) store.rows }
  | keeps {exchange : Exchange} {after : RuleStore} (unwritten : exchange.written? = none)
    (unissued : exchange.issued? = none) (unerased : exchange.erased? = none)
    (unused : ∀ tenant id, exchange.uses tenant id = []) (rows : after.rows = store.rows)
    (nextId : after.nextId = store.nextId) : Performs store exchange after

theorem recordUsage_of_available (available : store.available = true) (tenant : TenantId)
    (ids : List RuleId) (now : Instant) : store.recordUsage tenant ids now =
      (.ok (), { store with rows := ids.foldl (recordUse tenant now) store.rows }) := by
  simp [RuleStore.recordUsage, available]

theorem recordUsage_of_unavailable (unavailable : store.available = false) (tenant : TenantId)
    (ids : List RuleId) (now : Instant) :
    store.recordUsage tenant ids now = (.error .unavailable, store) := by
  simp [RuleStore.recordUsage, unavailable]

theorem performs_of_error (store : RuleStore) (call : Call) (fault : StoreError) :
    store.Performs ⟨call, .error fault⟩ store := by
  refine .keeps ?_ ?_ ?_ ?_ rfl rfl
  · cases call <;> rfl
  · cases call <;> rfl
  · cases call <;> rfl
  · intro tenant id
    cases call <;> rfl

theorem performs (store : RuleStore) (call : Call) :
    store.Performs (store.exchange call) (store.perform call).2 := by
  unfold exchange
  cases call with
  | insert rule =>
    cases made : store.insert rule with
    | mk answer after =>
      cases answer with
      | error fault =>
        cases insert_eq_error made
        simp only [perform, made]
        exact performs_of_error ..
      | ok stored =>
        obtain ⟨rfl, rfl⟩ := insert_eq_ok made
        simp only [perform, made]
        exact .adds rule
  | get tenant id => exact .keeps rfl rfl rfl (fun _ _ => rfl) rfl rfl
  | update rule =>
    cases made : store.update rule with
    | mk answer after =>
      cases answer with
      | error fault =>
        cases update_eq_error made
        simp only [perform, made]
        exact performs_of_error ..
      | ok _ =>
        obtain ⟨rfl, stored, found, owned⟩ := update_eq_ok made
        simp only [perform, made]
        exact .replaces rule found owned
  | delete tenant id =>
    cases made : store.delete tenant id with
    | mk answer after =>
      simp only [perform, made]
      cases answer with
      | error fault =>
        cases delete_eq_of_ne_some made fun _ differs => nomatch differs
        exact performs_of_error ..
      | ok row =>
        cases row with
        | none =>
          cases delete_eq_of_ne_some made fun _ differs => nomatch differs
          exact .keeps rfl rfl rfl (fun _ _ => rfl) rfl rfl
        | some stored =>
          obtain ⟨rfl, found, rfl⟩ := delete_eq_some made
          exact .erases id found
  | find filter => exact .keeps rfl rfl rfl (fun _ _ => rfl) rfl rfl
  | recordUsage tenant ids now =>
    cases reached : store.available with
    | false =>
      rw [perform, recordUsage_of_unavailable reached]
      exact performs_of_error ..
    | true =>
      rw [perform, recordUsage_of_available reached]
      exact .counts tenant ids now
  | setAvailable available => exact .keeps rfl rfl rfl (fun _ _ => rfl) rfl rfl

theorem Performs.of_error {call : Call} {fault : StoreError}
    (performs : store.Performs ⟨call, .error fault⟩ after) :
    after.rows = store.rows ∧ after.nextId = store.nextId := by
  cases performs with
  | keeps _ _ _ _ rows nextId => exact ⟨rows, nextId⟩

/-- A call that writes a row puts it under its id, whatever was there. -/
theorem get?_put_eq_some_iff {rule : Rule} (written : exchange.written? = some rule)
    (unerased : exchange.erased? = none) (unused : ∀ tenant id, exchange.uses tenant id = []) :
    (store.rows.put rule.id rule).get? id = some held ↔ exchange.written? = some held ∧ held.id = id ∨
      ¬ exchange.Touches id ∧ ∃ row, store.rows.get? id = some row ∧
        held = row.usedAt (exchange.uses row.tenant id) := by
  have touches : exchange.Touches id ↔ id = rule.id := by
    simp [Exchange.Touches, written, unerased, eq_comm]
  rw [touches, written]
  simp only [unused, usedAt_nil]
  by_cases same : id = rule.id
  · subst same
    rw [Table.get?_put_self]
    constructor
    · rintro ⟨rfl⟩
      exact Or.inl ⟨rfl, rfl⟩
    · rintro (⟨written, _⟩ | ⟨untouched, _⟩)
      · exact written
      · exact absurd rfl untouched
  · rw [Table.get?_put_of_ne _ _ same]
    constructor
    · exact fun present => Or.inr ⟨same, held, present, rfl⟩
    · rintro (⟨⟨⟩, own⟩ | ⟨_, _, present, rfl⟩)
      · exact absurd own.symm same
      · exact present

/-- What is under an id after a call is what the call wrote there, or what was there before and was not
touched, with the uses that the call recorded. -/
theorem Performs.get?_eq_some_iff (performs : store.Performs exchange after) :
    after.rows.get? id = some held ↔ exchange.written? = some held ∧ held.id = id ∨
      ¬ exchange.Touches id ∧ ∃ row, store.rows.get? id = some row ∧
        held = row.usedAt (exchange.uses row.tenant id) := by
  cases performs with
  | adds rule => exact get?_put_eq_some_iff rfl rfl fun _ _ => rfl
  | replaces rule found owned => exact get?_put_eq_some_iff rfl rfl fun _ _ => rfl
  | erases erased found =>
    simp only [Exchange.Touches, Exchange.written?, Exchange.erased?, Exchange.uses, usedAt_nil, eraseRow]
    by_cases same : id = erased
    · subst same
      rw [Table.get?_erase_self]
      simp
    · rw [Table.get?_erase_of_ne _ same]
      simp [Ne.symm same]
  | counts owner ids now =>
    simp [get?_foldl_recordUse_eq_map, Exchange.Touches, Exchange.written?, Exchange.erased?,
      Exchange.uses, Option.map_eq_some_iff, eq_comm (a := held)]
  | keeps unwritten _ unerased unused rows _ =>
    simp [rows, Exchange.Touches, unwritten, unerased, unused]

/-- A row that is there after a call has a new id, or was there before with the same tenant. -/
theorem Performs.origin (performs : store.Performs exchange after)
    (present : after.rows.get? id = some held) : exchange.issued? = some id ∨
      ∃ row, store.rows.get? id = some row ∧ row.tenant = held.tenant := by
  rcases performs.get?_eq_some_iff.mp present with ⟨written, rfl⟩ | ⟨_, row, found, rfl⟩
  · cases performs with
    | adds rule =>
      cases written
      exact Or.inl rfl
    | replaces rule found owned =>
      cases written
      exact Or.inr ⟨_, found, owned⟩
    | erases erased found => cases written
    | counts owner ids now => cases written
    | keeps unwritten _ _ _ _ _ =>
      rw [unwritten] at written
      cases written
  · exact Or.inr ⟨row, found, rfl⟩

/-- A new id is the next one, and moves the counter on. -/
theorem Performs.counter (performs : store.Performs exchange after) :
    exchange.issued? = none ∧ after.nextId = store.nextId ∨
      exchange.issued? = some store.nextId ∧ after.nextId = ⟨store.nextId.value + 1⟩ := by
  cases performs with
  | adds rule => exact Or.inr ⟨rfl, rfl⟩
  | replaces rule found owned => exact Or.inl ⟨rfl, rfl⟩
  | erases erased found => exact Or.inl ⟨rfl, rfl⟩
  | counts owner ids now => exact Or.inl ⟨rfl, rfl⟩
  | keeps _ unissued _ _ _ nextId => exact Or.inl ⟨unissued, nextId⟩

theorem Performs.ordered (performs : store.Performs exchange after) (ordered : store.rows.Ordered) :
    after.rows.Ordered := by
  cases performs with
  | adds rule => exact Table.ordered_put ordered _ _
  | replaces rule found owned => exact Table.ordered_put ordered _ _
  | erases erased found => exact Table.ordered_erase ordered _
  | counts owner ids now => exact ordered_foldl_recordUse ordered owner now ids
  | keeps _ _ _ _ rows _ => rwa [rows]

end Step

section Run

theorem run_concat (store : RuleStore) (calls : List Call) (call : Call) :
    store.run (calls ++ [call]) = ((store.run calls).perform call).2 :=
  List.foldl_append

theorem history_append (store : RuleStore) (calls more : List Call) :
    store.history (calls ++ more) = store.history calls ++ (store.run calls).history more := by
  induction calls generalizing store with
  | nil => rfl
  | cons call rest ih => exact congrArg (store.exchange call :: ·) (ih _)

theorem history_concat (store : RuleStore) (calls : List Call) (call : Call) :
    store.history (calls ++ [call]) = store.history calls ++ [(store.run calls).exchange call] :=
  history_append store calls [call]

/-- A row is last written by the last exchange, or before it, which then leaves what is under the id. -/
theorem lastWritten_concat {moments : List Instant} :
    LastWritten (exchanges ++ [exchange]) row moments ↔
      exchange.written? = some row ∧ moments = [] ∨
      ¬ exchange.Touches row.id ∧ ∃ earlier, LastWritten exchanges row earlier ∧
        moments = earlier ++ exchange.uses row.tenant row.id := by
  constructor
  · rintro ⟨earlier, write, later, split, written, untouched, rfl⟩
    rcases List.eq_nil_or_concat later with rfl | ⟨init, last, rfl⟩
    · obtain ⟨rfl, same⟩ := List.append_inj' split rfl
      cases same
      exact Or.inl ⟨written, rfl⟩
    · rw [List.concat_eq_append, ← List.cons_append, ← List.append_assoc] at split
      obtain ⟨rfl, same⟩ := List.append_inj' split rfl
      cases same
      refine Or.inr ⟨untouched exchange (by simp), _, ⟨earlier, write, init, rfl, written, ?_, rfl⟩, ?_⟩
      · exact fun other member => untouched other (by simp [member])
      · simp
  · rintro (⟨written, rfl⟩ | ⟨untouched, _, ⟨earlier, write, later, rfl, written, before, rfl⟩, rfl⟩)
    · exact ⟨exchanges, exchange, [], rfl, written, by simp, rfl⟩
    · refine ⟨earlier, write, later ++ [exchange], by simp, written, ?_, by simp⟩
      intro other member
      rcases List.mem_append.mp member with old | new
      · exact before other old
      · rwa [List.mem_singleton.mp new]

theorem stands_concat : Stands (exchanges ++ [exchange]) held ↔
    exchange.written? = some held ∨ ¬ exchange.Touches held.id ∧
      ∃ row, Stands exchanges row ∧ held = row.usedAt (exchange.uses row.tenant row.id) := by
  constructor
  · rintro ⟨row, moments, last, rfl⟩
    rcases lastWritten_concat.mp last with ⟨written, rfl⟩ | ⟨untouched, earlier, before, rfl⟩
    · rw [usedAt_nil]
      exact Or.inl written
    · exact Or.inr ⟨untouched, _, ⟨row, earlier, before, rfl⟩, (usedAt_append row _ _).symm⟩
  · rintro (written | ⟨untouched, _, ⟨row, earlier, before, rfl⟩, rfl⟩)
    · exact ⟨held, [], lastWritten_concat.mpr (Or.inl ⟨written, rfl⟩), (usedAt_nil held).symm⟩
    · exact ⟨row, _, lastWritten_concat.mpr (Or.inr ⟨untouched, earlier, before, rfl⟩),
        usedAt_append row _ _⟩

/-- What is under an id is the row that was last written there, with its uses since. -/
theorem get?_run_iff (calls : List Call) : (empty.run calls).rows.get? id = some held ↔
    Stands (empty.history calls) held ∧ held.id = id := by
  induction calls using List.reverseRecOn generalizing held with
  | nil =>
    refine iff_of_false nofun ?_
    rintro ⟨⟨_, _, ⟨earlier, _, _, split, _⟩, _⟩, _⟩
    exact absurd split (by simp [history])
  | append_singleton calls call ih =>
    rw [run_concat, history_concat, (performs _ call).get?_eq_some_iff, stands_concat, or_and_right]
    refine or_congr_right ?_
    constructor
    · rintro ⟨untouched, row, found, rfl⟩
      obtain ⟨stands, rfl⟩ := ih.mp found
      exact ⟨⟨untouched, row, stands, rfl⟩, rfl⟩
    · rintro ⟨⟨untouched, row, stands, rfl⟩, rfl⟩
      exact ⟨untouched, row, ih.mpr ⟨stands, rfl⟩, rfl⟩

theorem ordered_run (calls : List Call) : (empty.run calls).rows.Ordered := by
  induction calls using List.reverseRecOn with
  | nil => exact .nil
  | append_singleton calls call ih =>
    rw [run_concat]
    exact (performs _ call).ordered ih

end Run

section Ids

/-- The id that is handed out after a number of others. -/
def idAfter (count : Nat) : RuleId :=
  ⟨UInt64.ofNat (count + 1)⟩

theorem toNat_idAfter {count : Nat} (fits : count < UInt64.size - 1) :
    (idAfter count).value.toNat = count + 1 := by
  have size : UInt64.size = 2 ^ 64 := rfl
  rw [idAfter, UInt64.toNat_ofNat', Nat.mod_eq_of_lt (by omega)]

theorem idAfter_lt {count later : Nat} (before : count < later) (fits : later < UInt64.size - 1) :
    idAfter count < idAfter later := by
  rw [RuleId.lt_def, UInt64.lt_iff_toNat_lt, toNat_idAfter fits, toNat_idAfter (before.trans fits)]
  omega

theorem issued_concat (exchanges : List Exchange) (exchange : Exchange) :
    issued (exchanges ++ [exchange]) = issued exchanges ++ exchange.issued?.toList := by
  rw [issued, List.filterMap_append]
  cases written : exchange.issued? <;> simp [issued, written]

/-- The store counts the ids that it hands out, and hands them out by counting. -/
theorem issued_by_counting (calls : List Call) :
    (empty.run calls).nextId = idAfter (issued (empty.history calls)).length ∧
      issued (empty.history calls) =
        (List.range (issued (empty.history calls)).length).map idAfter := by
  induction calls using List.reverseRecOn with
  | nil => exact ⟨rfl, rfl⟩
  | append_singleton calls call ih =>
    obtain ⟨next, counted⟩ := ih
    rw [run_concat, history_concat, issued_concat]
    rcases (performs (empty.run calls) call).counter with ⟨nothing, same⟩ | ⟨given, moved⟩
    · rw [nothing, same]
      simpa using ⟨next, counted⟩
    · rw [given, moved, next, Option.toList_some, List.length_append, List.length_singleton,
        List.range_succ, List.map_append, ← counted]
      exact ⟨congrArg RuleId.mk (UInt64.ofNat_add _ 1).symm, rfl⟩

theorem length_issued_le_concat (calls : List Call) (call : Call) :
    (issued (empty.history calls)).length ≤ (issued (empty.history (calls ++ [call]))).length := by
  rw [history_concat, issued_concat, List.length_append]
  exact Nat.le_add_right _ _

theorem issued_ascending (fewer : (issued (empty.history calls)).length < UInt64.size - 1) :
    (issued (empty.history calls)).Pairwise (· < ·) := by
  rw [(issued_by_counting calls).2, List.pairwise_map]
  refine List.pairwise_lt_range.imp_of_mem fun _ member before => idAfter_lt before ?_
  exact (List.mem_range.mp member).trans fewer

theorem nextId_not_mem_issued (fewer : (issued (empty.history calls)).length < UInt64.size - 1) :
    (empty.run calls).nextId ∉ issued (empty.history calls) := by
  rw [(issued_by_counting calls).1, (issued_by_counting calls).2]
  intro member
  obtain ⟨count, counted, same⟩ := List.mem_map.mp member
  rw [← (issued_by_counting calls).2] at same
  have before := idAfter_lt (List.mem_range.mp counted) fewer
  rw [same] at before
  exact Std.Asymm.asymm _ _ before before

theorem mem_issued_of_get? (present : (empty.run calls).rows.get? id = some held) :
    id ∈ issued (empty.history calls) := by
  induction calls using List.reverseRecOn generalizing held with
  | nil => cases present
  | append_singleton calls call ih =>
    rw [run_concat] at present
    rw [history_concat, issued_concat, List.mem_append, Option.mem_toList]
    rcases (performs _ call).origin present with new | ⟨row, old, _⟩
    · exact Or.inr new
    · exact Or.inl (ih old)

/-- An id stays with its tenant, since it is not given to another rule. -/
theorem tenant_of_later (earlier later : List Call)
    (fewer : (issued (empty.history (earlier ++ later))).length < UInt64.size - 1)
    (before : (empty.run earlier).rows.get? id = some row)
    (after : (empty.run (earlier ++ later)).rows.get? id = some held) : held.tenant = row.tenant := by
  induction later using List.reverseRecOn generalizing held with
  | nil =>
    rw [List.append_nil, before] at after
    cases after
    rfl
  | append_singleton later call ih =>
    rw [← List.append_assoc] at after fewer
    rw [run_concat] at after
    have fewerBefore := (length_issued_le_concat (earlier ++ later) call).trans_lt fewer
    have step := performs (empty.run (earlier ++ later)) call
    rcases step.origin after with new | ⟨kept, old, same⟩
    · have known : id ∈ issued (empty.history (earlier ++ later)) := by
        rw [history_append, issued, List.filterMap_append]
        exact List.mem_append_left _ (mem_issued_of_get? before)
      rcases step.counter with ⟨nothing, _⟩ | ⟨given, _⟩
      · rw [new] at nothing
        cases nothing
      · rw [given] at new
        cases new
        exact absurd known (nextId_not_mem_issued fewerBefore)
    · exact same.symm.trans (ih fewerBefore old)

end Ids

section Reads

theorem allows_iff {α : Type} [DecidableEq α] {expected : Option α} {actual : α} :
    RuleFilter.allows expected actual = true ↔ ∀ value ∈ expected, actual = value := by
  cases expected <;> simp [RuleFilter.allows, eq_comm]

theorem accepts_iff {filter : RuleFilter} : filter.accepts row = true ↔ filter.Matches row := by
  simp only [RuleFilter.accepts, Bool.and_eq_true, allows_iff, Option.all_eq_true, and_assoc]
  constructor
  · rintro ⟨tenant, service, ptype, subject, object, action, status, temporary, activeAt⟩
    exact ⟨tenant, service, ptype, subject, object, action, status, activeAt, temporary⟩
  · rintro ⟨tenant, service, ptype, subject, object, action, status, activeAt, temporary⟩
    exact ⟨tenant, service, ptype, subject, object, action, status, temporary, activeAt⟩

theorem get_eq_some_iff (available : store.available = true) :
    store.get tenant id = .ok (some held) ↔ store.rows.get? id = some held ∧ held.tenant = tenant := by
  refine ⟨get_eq_some, fun ⟨found, owned⟩ => ?_⟩
  simp [get, available, found, owned]

theorem get_eq_none_iff (available : store.available = true) :
    store.get tenant id = .ok none ↔ store.rows.get? id = none := by
  cases found : store.rows.get? id with
  | none => simp [get, available, found]
  | some row => by_cases owned : row.tenant = tenant <;> simp [get, available, found, owned]

/-- A store refuses to give, take out or replace another tenant's row, and passes over it when uses are
recorded. -/
structure Guards (store : RuleStore) (row : Rule) (tenant : TenantId) : Prop where
  get : store.get tenant row.id = .error .foreignTenant
  delete : store.delete tenant row.id = (.error .foreignTenant, store)
  update : ∀ rule : Rule, rule.id = row.id → rule.tenant = tenant →
    store.update rule = (.error .foreignTenant, store)
  recordUsage : ∀ ids now, (store.recordUsage tenant ids now).2.rows.get? row.id = some row

theorem guards (available : store.available = true) (present : store.rows.get? row.id = some row)
    (foreign : row.tenant ≠ tenant) : store.Guards row tenant where
  get := by simp [RuleStore.get, available, present, foreign]
  delete := by simp [RuleStore.delete, available, present, foreign]
  update := fun rule named owned => by
    simp [RuleStore.update, available, named, present, owned, foreign]
  recordUsage := fun ids now => by
    simp [recordUsage_of_available available, get?_foldl_recordUse_eq_map, present, foreign.symm]

theorem mem_run_iff (calls : List Call) : (id, held) ∈ (empty.run calls).rows ↔
    Stands (empty.history calls) held ∧ held.id = id :=
  (Table.mem_iff_get? (ordered_run calls)).trans (get?_run_iff calls)

theorem mem_values_run_iff (calls : List Call) : held ∈ (empty.run calls).rows.values ↔
    Stands (empty.history calls) held := by
  constructor
  · intro member
    obtain ⟨⟨id, _⟩, present, rfl⟩ := List.mem_map.mp member
    exact ((mem_run_iff calls).mp present).1
  · exact fun stands => List.mem_map_of_mem ((mem_run_iff calls).mpr ⟨stands, rfl⟩)

theorem values_run_ascending (calls : List Call) :
    (empty.run calls).rows.values.Pairwise (·.id < ·.id) := by
  have sorted := List.pairwise_map.mp (ordered_run calls)
  refine List.pairwise_map.mpr (sorted.imp_of_mem ?_)
  rintro ⟨id, one⟩ ⟨idToo, other⟩ member memberToo before
  rwa [((mem_run_iff calls).mp member).2, ((mem_run_iff calls).mp memberToo).2]

end Reads

section Map

/-- What is read of a store after calls: rows under their own ids, which are new each time and stay with
their tenants, as they were last written and with their uses since; a call that fails, or that is for
another tenant, changes none. -/
structure OrderedMap (calls : List Call) : Prop where
  keyed : ∀ id row, (id, row) ∈ (empty.run calls).rows → row.id = id
  issued : (issued (empty.history calls)).Pairwise (· < ·)
  known : ∀ row, Stands (empty.history calls) row → row.id ∈ RuleStore.issued (empty.history calls)
  tenants : ∀ earlier later, calls = earlier ++ later → ∀ row held,
    Stands (empty.history earlier) row → Stands (empty.history calls) held → held.id = row.id →
      held.tenant = row.tenant
  get : (empty.run calls).available = true → ∀ tenant id,
    (∀ held, (empty.run calls).get tenant id = .ok (some held) ↔
      Stands (empty.history calls) held ∧ held.id = id ∧ held.tenant = tenant) ∧
    ((empty.run calls).get tenant id = .ok none ↔
      ∀ held, Stands (empty.history calls) held → held.id ≠ id)
  find : (empty.run calls).available = true → ∀ filter, ∃ rows,
    (empty.run calls).find filter = .ok rows ∧ rows.Pairwise (·.id < ·.id) ∧
      ∀ row, row ∈ rows ↔ Stands (empty.history calls) row ∧ filter.Matches row
  counted : ∀ row moments, LastWritten (empty.history calls) row moments →
    row.usageCount.toNat + moments.length < UInt64.size →
      (row.usedAt moments).usageCount.toNat = row.usageCount.toNat + moments.length
  failed : ∀ call fault, ((empty.run calls).perform call).1 = .error fault →
    ((empty.run calls).perform call).2.rows = (empty.run calls).rows ∧
      ((empty.run calls).perform call).2.nextId = (empty.run calls).nextId
  foreign : (empty.run calls).available = true → ∀ row tenant, Stands (empty.history calls) row →
    row.tenant ≠ tenant → (empty.run calls).Guards row tenant

/-- A new store is an ordered map with fresh ids through any calls, until the ids run out. -/
theorem ordered_map_of_fresh_ids (calls : List Call)
    (fewer : (RuleStore.issued (empty.history calls)).length < UInt64.size - 1) : OrderedMap calls where
  keyed := fun _ _ member => ((mem_run_iff calls).mp member).2
  issued := issued_ascending fewer
  known := fun _ stands => mem_issued_of_get? ((get?_run_iff calls).mpr ⟨stands, rfl⟩)
  tenants := by
    rintro earlier later rfl row held before after same
    exact tenant_of_later earlier later fewer ((get?_run_iff earlier).mpr ⟨before, rfl⟩)
      ((get?_run_iff _).mpr ⟨after, same⟩)
  get := fun available tenant id => by
    constructor
    · intro held
      rw [get_eq_some_iff available, get?_run_iff, and_assoc]
    · rw [get_eq_none_iff available, Option.eq_none_iff_forall_ne_some]
      exact forall_congr' fun held => by rw [ne_eq, get?_run_iff, not_and]
  find := fun available filter => by
    refine ⟨(empty.run calls).rows.values.filter filter.accepts, ?_, ?_, ?_⟩
    · simp [RuleStore.find, available]
    · exact (values_run_ascending calls).filter _
    · intro row
      rw [List.mem_filter, mem_values_run_iff, accepts_iff]
  counted := fun _ _ _ => toNat_usageCount_usedAt
  failed := fun call fault refused => by
    have performs := performs (empty.run calls) call
    rw [exchange, refused] at performs
    exact performs.of_error
  foreign := fun available _ _ stands => guards available ((get?_run_iff calls).mpr ⟨stands, rfl⟩)

/-- A rule of a tenant by which the editor may read. -/
def editorReads (tenant : TenantId) : Rule :=
  Rule.ofPermission tenant "cms" ⟨"editor", "/docs/*", "read", .allow⟩ .epoch

/-- Two tenants store a rule each, one of which is used twice; an outage comes and goes, and a rule is
taken out before the next is stored. -/
def storing : List Call :=
  [.insert (editorReads ⟨7⟩), .insert (editorReads ⟨8⟩), .recordUsage ⟨7⟩ [⟨1⟩, ⟨2⟩, ⟨1⟩] .epoch,
    .setAvailable false, .insert (editorReads ⟨7⟩), .setAvailable true, .delete ⟨8⟩ ⟨2⟩,
    .insert (editorReads ⟨8⟩)]

theorem ordered_map_of_storing : (RuleStore.issued (empty.history storing)).length < UInt64.size - 1 ∧
    RuleStore.issued (empty.history storing) = [⟨1⟩, ⟨2⟩, ⟨3⟩] ∧
    ∃ row, Stands (empty.history storing) row ∧ row.usageCount = 2 ∧
      (empty.run storing).get ⟨7⟩ ⟨1⟩ = .ok (some row) ∧ (empty.run storing).Guards row ⟨8⟩ := by
  have map := ordered_map_of_fresh_ids storing (by decide)
  let row := { editorReads ⟨7⟩ with id := ⟨1⟩ }.usedAt [.epoch, .epoch]
  have found : (empty.run storing).get ⟨7⟩ ⟨1⟩ = .ok (some row) := rfl
  have stands := (((map.get rfl ⟨7⟩ ⟨1⟩).1 row).mp found).1
  exact ⟨by decide, by decide, row, stands, rfl, found, map.foreign rfl row ⟨8⟩ stands (by decide)⟩

end Map

end RuleStore

end AccessPolicy
