import AccessPolicy.Proofs.Engine.Renewal
import AccessPolicy.Proofs.Engine.Serviceable
import AccessPolicy.Proofs.RuleStore.Deletion

/-!
Deleting rules. What is deleted before the store refuses an id is gone for good: it is announced, and no
later check decides by it, whether the call is refused in the end or not.
-/
namespace AccessPolicy

/-- The change is told when there is something to tell. -/
def Commons.tellIf (commons : Commons) (some : Bool) (change : Change) : Commons :=
  if some then commons.tell change else commons

namespace Engine

open Act hiding pure bind state

variable {ε : Type} {faulty : Prop} {engine : Engine} {tenant : TenantId} {ids : List RuleId}

section Deleting

theorem leads_removeEach_deletes (keyed : engine.Keyed) (ids : List RuleId) :
    Leads (removeEach tenant ids : Act Engine ε (List Rule × Option StoreError)) engine
      (fun result after => ∃ store,
        engine.commons.store.Deletes tenant ids (result.1.map Rule.id) result.2 store ∧
          Shares { engine.commons with store := store } engine.own.id after)
      (fun _ _ => False) (fun _ => True) := by
  induction ids generalizing engine with
  | nil => exact leads_pure ⟨_, RuleStore.deletes_nil _ tenant, rfl, rfl⟩
  | cons id rest ih =>
    apply leads_removeEach_cons keyed
    · intro deletes
      apply (ih keyed).mono
      · rintro result final ⟨store, rest, shares⟩
        exact ⟨store, rest.cons_absent (RuleStore.available_of_delete deletes)
          (RuleStore.absent_of_delete deletes), shares⟩
      · exact fun _ _ impossible => impossible
      · exact fun _ _ => trivial
    · intro rule middle deletes shares keyedMiddle
      obtain ⟨_, present, own⟩ := RuleStore.delete_eq_some deletes
      apply (ih keyedMiddle).mono
      · rintro result final ⟨store, rest, ends⟩
        rw [shares.commons] at rest ends
        rw [shares.id] at ends
        have named : rule.id = id := keyed id rule present
        refine ⟨store, ?_, ends⟩
        rw [List.map_cons, named]
        exact rest.cons_present (RuleStore.available_of_delete deletes) present own
      · exact fun _ _ impossible => impossible
      · exact fun _ _ => trivial
    · intro fault deletes
      have refuses : engine.commons.store.refusal? tenant id = some fault := by
        unfold RuleStore.refusal?
        rw [deletes]
      exact ⟨_, RuleStore.deletes_refused refuses rest, rfl, rfl⟩
    · exact fun _ _ => trivial

/-- A call that deletes rules has deleted what comes before the first id that the store refuses, has
announced it once if it is anything, and ends with the ids or with that refusal. -/
def Deleted (before : Engine) (tenant : TenantId) (ids : List RuleId)
    (result : Outcome ServiceError (List RuleId) × Engine) : Prop :=
  ∃ gone failure store, before.commons.store.Deletes tenant ids gone failure store ∧
    result.1 = (match failure with
      | some fault => .error (.store fault)
      | none => .ok gone) ∧
    result.2.commons = { before.commons with store := store }.tellIf (!gone.isEmpty)
      ⟨before.own.id, some tenant, .rulesDeleted⟩

theorem leads_delete_deletes (keyed : engine.Keyed) (tenant : TenantId) (ids : List RuleId) :
    Leads (delete tenant ids) engine
      (fun gone after => Deleted engine tenant ids (.ok gone, after))
      (fun fault after => Deleted engine tenant ids (.error fault, after)) (fun _ => True) := by
  apply Leads.bind (leads_removeEach_deletes keyed ids)
  · rintro ⟨removed, failure⟩ middle ⟨store, deletes, shares⟩
    have ends {told : Commons} {last : Engine} (shares : Shares told engine.own.id last)
        (tells : told = { engine.commons with store := store }.tellIf (!(removed.map Rule.id).isEmpty)
          ⟨engine.own.id, some tenant, .rulesDeleted⟩) :
        Leads (match failure with
          | some fault => Act.fail (.store fault)
          | none => Pure.pure (removed.map Rule.id) : Act Engine ServiceError (List RuleId)) last
          (fun gone after => Deleted engine tenant ids (.ok gone, after))
          (fun fault after => Deleted engine tenant ids (.error fault, after)) (fun _ => True) := by
      have same := shares.commons.trans tells
      cases failure with
      | some fault => exact leads_fail ⟨_, _, store, deletes, rfl, same⟩
      | none => exact leads_pure ⟨_, _, store, deletes, rfl, same⟩
    cases removed with
    | nil => exact ends shares rfl
    | cons rule rest =>
      apply (leads_broadcast shares tenant .rulesDeleted).bind
      intro _ told shares
      have admits := admits_shares
        ({ engine.commons with store := store }.tell ⟨engine.own.id, some tenant, .rulesDeleted⟩)
        engine.own.id
      apply Leads.bind (admits.yields_invalidateEach (rule :: rest) (fun _ _ => trivial) shares)
      · exact fun _ last kept => ends kept.2 rfl
      · exact fun _ _ impossible => impossible.elim
      · exact fun _ _ => trivial
  · exact fun _ _ impossible => impossible.elim
  · exact fun _ _ => trivial

/-- Where the store is in order such a call always returns. -/
theorem leads_delete_returns (regular : Regular Regime.lax.current engine) (tenant : TenantId)
    (ids : List RuleId) :
    Leads (delete tenant ids) engine.newCall (fun _ _ => True) (fun _ _ => True) (fun _ => False) := by
  cases reach : engine.commons.store.available with
  | true =>
    have coherent : Coherent .lax engine.newCall :=
      regular.coherent_newCall reach fun cached => cached
    exact (settles_delete coherent not_hurried_lax tenant ids).mono (fun _ _ _ => trivial)
      (fun _ _ _ => trivial) fun _ impossible => impossible
  | false =>
    cases ids with
    | nil => exact trivial
    | cons id rest =>
      apply leads_bind
      apply leads_bind
      apply leads_attempt
      apply (leads_onStore _ engine.newCall).mono
      · intro _ _ ⟨deletes, _⟩
        have reached : engine.commons.store.available = true :=
          RuleStore.available_of_delete deletes
        rw [reach] at reached
        cases reached
      · exact fun _ _ _ => trivial
      · exact fun _ impossible => impossible

theorem deleted_of_regular (regular : Regular Regime.lax.current engine) (tenant : TenantId)
    (ids : List RuleId) :
    Deleted engine.newCall tenant ids (delete tenant ids engine.newCall) := by
  have keyed : engine.newCall.Keyed := regular.sound.keyed
  have deletes := leads_delete_deletes keyed tenant ids
  have returns := leads_delete_returns regular tenant ids
  unfold Leads Ends at deletes returns
  generalize delete tenant ids engine.newCall = result at deletes returns ⊢
  obtain ⟨outcome, after⟩ := result
  cases outcome with
  | ok gone => exact deletes
  | error fault => exact deletes
  | halted halt => exact returns.elim

end Deleting

section Answering

/-- A coherent engine replies as one that has just been started over the same store, unless one of the
two runs out of time. -/
theorem Coherent.agrees_start (coherent : Coherent (Regime.steady True) engine) (tenant : TenantId)
    (caller : Principal) (query : PermissionQuery) (id : Uuid) (auditing : Bool) :
    ∃ reply fresh : Decision,
      ((checkPermission tenant caller query : Act Engine Empty Decision) engine.newCall).1 =
        .ok reply ∧
      ((checkPermission tenant caller query : Act Engine Empty Decision)
        ⟨engine.commons, .start id engine.own.settings [] auditing, .start⟩).1 = .ok fresh ∧
      (reply.Agrees fresh ∨ engine.own.settings.checkTimeout ≠ none ∧
        (reply = Decision.deny Reason.deadline ∨ fresh = Decision.deny Reason.deadline)) := by
  have start : Coherent (Regime.steady True)
      ⟨engine.commons, .start id engine.own.settings [] auditing, .start⟩ :=
    coherent_start coherent.sound id engine.own.settings [] auditing fun _ => rfl
  have covers := covers_steady (query.toRequest tenant caller) query.useCache query.expandRoles
  have plain := Serves.enrich_plain coherent trivial not_false
  have plainToo := Serves.enrich_plain start trivial not_false
  exact coherent.agrees start (not_hurried_steady True) (not_hurried_steady True) covers covers
    (.refl _ _) rfl rfl (plainToo.trans plain.symm)

/-- In every state that an engine reaches a deletion removes what comes before the first id that the
store refuses, and announces it once; where nothing has failed, all later checks are answered as by an
engine that has just been started over the rows that are left. -/
theorem delete_of_run {commons : Commons} (sound : commons.store.Sound) {id : Uuid}
    {settings : Settings} {enrichers : Table String Enricher} {auditing : Bool}
    (run : Relation.ReflTransGen (Fares faulty)
      ⟨commons, .start id settings enrichers auditing, .start⟩ engine)
    (tenant : TenantId) (ids : List RuleId) :
    Deleted engine.newCall tenant ids (delete tenant ids engine.newCall) ∧
    (enrichers = [] → ¬ faulty → ∀ later,
      Relation.ReflTransGen (Fares faulty) (delete tenant ids engine.newCall).2 later →
      ∀ (other : TenantId) (caller : Principal) (query : PermissionQuery) (another : Uuid),
        ∃ reply fresh : Decision,
          ((checkPermission other caller query : Act Engine Empty Decision) later.newCall).1 =
            .ok reply ∧
          ((checkPermission other caller query : Act Engine Empty Decision)
            ⟨later.commons, .start another settings [] auditing, .start⟩).1 = .ok fresh ∧
          (reply.Agrees fresh ∨ settings.checkTimeout ≠ none ∧
            (reply = Decision.deny Reason.deadline ∨ fresh = Decision.deny Reason.deadline))) := by
  refine ⟨deleted_of_regular (regular_of_fares run (regular_start sound id settings _ auditing)) tenant
    ids, ?_⟩
  rintro rfl reliable later more other caller query another
  have start : Coherent (Regime.steady True) ⟨commons, .start id settings [] auditing, .start⟩ :=
    coherent_start sound id settings [] auditing fun _ => rfl
  have deletes : Fares faulty engine (delete tenant ids engine.newCall).2 :=
    .step (.call (.delete tenant ids) trivial)
  have whole := run_of_fares reliable ((run.tail deletes).trans more)
  obtain ⟨coherent, same⟩ := coherent_of_run whole (fun _ => reliable) start
  have agrees := coherent.agrees_start other caller query another auditing
  rw [same] at agrees
  exact agrees

theorem delete_of_answered : started.commons.store.Sound ∧
    Relation.ReflTransGen (Fares False) started answered ∧
    Deleted answered.newCall ⟨1⟩ [⟨7⟩, ⟨1⟩, ⟨1⟩] (delete ⟨1⟩ [⟨7⟩, ⟨1⟩, ⟨1⟩] answered.newCall) ∧
    ∃ reply fresh : Decision,
      ((checkPermission ⟨1⟩ ⟨"clerk", []⟩ mayAnnRead : Act Engine Empty Decision)
        (delete ⟨1⟩ [⟨7⟩, ⟨1⟩, ⟨1⟩] answered.newCall).2.newCall).1 = .ok reply ∧
      ((checkPermission ⟨1⟩ ⟨"clerk", []⟩ mayAnnRead : Act Engine Empty Decision)
        ⟨(delete ⟨1⟩ [⟨7⟩, ⟨1⟩, ⟨1⟩] answered.newCall).2.commons, .start ⟨2⟩ .default [] false,
          .start⟩).1 = .ok fresh ∧
      (reply.Agrees fresh ∨ Settings.default.checkTimeout ≠ none ∧
        (reply = Decision.deny Reason.deadline ∨ fresh = Decision.deny Reason.deadline)) := by
  have sound : started.commons.store.Sound := RuleStore.sound_empty
  have run : Relation.ReflTransGen (Fares False) started answered :=
    (run_answered False).lift id fun _ _ => .step
  obtain ⟨deleted, answers⟩ := delete_of_run sound run ⟨1⟩ [⟨7⟩, ⟨1⟩, ⟨1⟩]
  exact ⟨sound, run, deleted, answers rfl not_false _ .refl ⟨1⟩ ⟨"clerk", []⟩ mayAnnRead ⟨2⟩⟩

/-- Checks may take five milliseconds. -/
def brisk : Engine :=
  ⟨⟨.empty, .empty, false, .epoch, 0⟩,
    .start ⟨1⟩ { Settings.default with checkTimeout := some 5 } [] false, .start⟩

/-- The engine listens, and Ann may read. -/
def heedful : Engine :=
  (Command.create ⟨1⟩ annReads).perform
    ((listen : Act Engine Empty Unit) brisk.newCall).2.newCall

theorem run_heedful : Relation.ReflTransGen (Step False) brisk heedful := by
  have admissible : (Command.create ⟨1⟩ annReads).Admissible
      ((listen : Act Engine Empty Unit) brisk.newCall).2.commons.store := ⟨by decide, rfl⟩
  exact (Relation.ReflTransGen.single .listen).tail (.call _ admissible)

theorem hasRoom_heedful : heedful.commons.store.HasRoom := by
  unfold RuleStore.HasRoom
  decide +kernel

def bobReads : Rule :=
  Rule.ofPermission ⟨1⟩ "orders" ⟨"bob", "*", "read", .allow⟩ .epoch

/-- Bob may read as well, the bus is down, and searches take ten milliseconds. -/
def strained : Engine :=
  (((Command.create ⟨1⟩ bobReads).perform heedful.newCall).setBusDown true).setFindDelay 10

theorem run_strained : Relation.ReflTransGen (Fares False) brisk strained := by
  have admissible : (Command.create ⟨1⟩ bobReads).Admissible heedful.commons.store :=
    ⟨by decide, hasRoom_heedful⟩
  have run : Relation.ReflTransGen (Step False) brisk strained :=
    ((run_heedful.tail (.call _ admissible)).tail (.bus true)).tail (.delay 10)
  exact run.lift id fun _ _ => .step

/-- A bus that is down hears of nothing, and with a time limit an engine may be in time where one that
has just been started is not. -/
theorem unheard_and_in_time : Relation.ReflTransGen (Fares False) brisk strained ∧
    (strained.commons.store.rows.get? ⟨2⟩).isSome = true ∧
    (delete ⟨1⟩ [⟨2⟩] strained.newCall).1.isOk = true ∧
    ((delete ⟨1⟩ [⟨2⟩] strained.newCall).2.commons.store.rows.get? ⟨2⟩).isSome = false ∧
    strained.commons.bus.subscriberCount = 1 ∧
    (delete ⟨1⟩ [⟨2⟩] strained.newCall).2.commons.bus.waiting 0 = strained.commons.bus.waiting 0 ∧
    allowed? ((checkPermission ⟨1⟩ ⟨"clerk", []⟩ mayAnnRead : Act Engine Empty Decision)
      (delete ⟨1⟩ [⟨2⟩] strained.newCall).2.newCall).1 = some true ∧
    allowed? ((checkPermission ⟨1⟩ ⟨"clerk", []⟩ mayAnnRead : Act Engine Empty Decision)
      ⟨(delete ⟨1⟩ [⟨2⟩] strained.newCall).2.commons, .start ⟨2⟩ strained.own.settings [] false,
        .start⟩).1 = some false := by
  refine ⟨run_strained, ?_, ?_, ?_, ?_, ?_, ?_, ?_⟩
  all_goals decide +kernel

end Answering

end Engine

end AccessPolicy
