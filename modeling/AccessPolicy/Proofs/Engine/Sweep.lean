import AccessPolicy.Proofs.Engine.Accounts
import AccessPolicy.Proofs.Engine.AtHand
import AccessPolicy.Proofs.Engine.Deletion
import AccessPolicy.Proofs.RuleStore.Expiry

/-!
The expiry sweep. It disables the rules that have lapsed and no others, announces their tenants, and
leaves every decision as it was, since a lapsed rule does not count any more.
-/
namespace AccessPolicy

namespace Engine

open Act hiding pure bind state

variable {ε : Type} {faulty : Prop} {engine : Engine} {rules : List Rule} {now : Instant}

section Sweeping

theorem ensures_find (available : engine.commons.store.available = true)
    (unhurried : engine.Unhurried) (filter : RuleFilter) :
    Ensures (find filter) engine (fun found after =>
      engine.commons.store.find filter = .ok found ∧ Idle engine after) := by
  obtain ⟨timing, _, ends⟩ := find_of_unhurried unhurried filter
  unfold Ensures Leads
  rw [ends]
  unfold RuleStore.find
  simp only [available, Bool.not_true, Bool.false_eq_true, if_false]
  exact ⟨rfl, rfl, rfl⟩

theorem ensures_disableEach_putRows (available : engine.commons.store.available = true)
    (stand : engine.commons.store.Stand rules) (now : Instant) :
    Ensures (disableEach now rules : Act Engine ε (List Rule)) engine (fun disabled after =>
      disabled = rules ∧ Shares { engine.commons with
        store := engine.commons.store.putRows (rules.map (Engine.disabled · now)) }
          engine.own.id after) := by
  induction rules generalizing engine with
  | nil => exact leads_pure ⟨rfl, rfl, rfl⟩
  | cons rule rest ih =>
    have updates : engine.commons.store.update (disabled rule now) =
        (.ok (), engine.commons.store.putRow (disabled rule now)) :=
      RuleStore.update_of_present available (stand.present rule List.mem_cons_self) rfl
    refine leads_bind (leads_attempt ((leads_onStore _ engine).mono ?_ ?_ fun _ h => h))
    · rintro _ _ ⟨_, rfl⟩
      rw [updates]
      let next := engine.withStore (engine.commons.store.putRow (disabled rule now))
      have reached : next.commons.store.available = true := available
      have onward : next.commons.store.Stand rest := stand.rest now
      refine (ih reached onward).bind ?_
      rintro _ after ⟨rfl, shares⟩
      exact leads_pure ⟨rfl, shares⟩
    · rintro _ _ ⟨refused, _⟩
      rw [updates] at refused
      cases refused

/-- A call that sweeps disables what has lapsed, announces each of the tenants, and reports both. -/
def Swept (before : Engine) (result : Outcome ServiceError ExpiryReport × Engine) : Prop :=
  ∃ report : ExpiryReport, report.Lists before.commons.store before.now ∧ result.1 = .ok report ∧
    result.2.commons =
      { before.commons with store := before.commons.store.sweep before.now }.tellAll
        (announcements before.own.id report.tenants .rulesExpired)

/-- The sweep goes over what has lapsed. -/
theorem ensures_candidates (sound : engine.commons.store.Sound) (unhurried : engine.Unhurried) :
    Ensures ((find { RuleFilter.allTenants with
        temporary := some true
        status := some .enabled }).mapError ServiceError.store) engine (fun candidates after =>
      candidates.filter (·.isLapsed engine.now) = engine.commons.store.lapsed engine.now ∧
        Idle engine after) := by
  obtain ⟨listed, finds, lapsed⟩ := sound.find_temporary engine.now
  refine ((ensures_find sound.available unhurried _).mapError _).mono ?_
  rintro candidates after ⟨found, idle⟩
  rw [finds] at found
  cases found
  exact ⟨lapsed, idle⟩

theorem leads_expire_swept (sound : engine.commons.store.Sound) (unhurried : engine.Unhurried) :
    Leads expire engine (fun report after => Swept engine (.ok report, after)) (fun _ _ => False)
      (fun _ => True) := by
  apply leads_read
  refine (ensures_candidates sound unhurried).bind ?_
  rintro candidates middle ⟨lapsed, idle⟩
  have available : middle.commons.store.available = true := by
    rw [idle.commons]
    exact sound.available
  have stand : middle.commons.store.Stand (engine.commons.store.lapsed engine.now) := by
    rw [idle.commons]
    exact sound.stand_lapsed engine.now
  dsimp only
  rw [lapsed]
  refine (ensures_disableEach_putRows available stand engine.now).bind ?_
  rintro _ after ⟨rfl, shares⟩
  rw [idle.commons, idle.own, sound.putRows_lapsed] at shares
  apply Leads.bind (leads_settleExpiries _ shares)
  · exact fun _ _ told => leads_pure ⟨_, sound.lists_lapsed engine.now, rfl, told.commons⟩
  · exact fun _ _ impossible => impossible
  · exact fun _ _ => trivial

/-- Where nothing has lapsed a sweep does nothing. -/
theorem ensures_expire_idle (sound : engine.commons.store.Sound) (unhurried : engine.Unhurried)
    (nothing : engine.commons.store.lapsed engine.now = []) :
    Ensures expire engine (fun report after => report = ⟨[], []⟩ ∧ Idle engine after) := by
  apply leads_read
  refine (ensures_candidates sound unhurried).bind ?_
  rintro candidates middle ⟨lapsed, idle⟩
  dsimp only
  rw [lapsed, nothing]
  exact leads_pure ⟨rfl, idle⟩

/-- Over a store that is in order a call that sweeps always returns. -/
theorem exists_expired (sound : engine.commons.store.Sound) : ∃ report after,
    expire engine.newCall = (.ok report, after) ∧ Settles .lax engine.newCall after := by
  have bare : Tracks Regime.lax.current engine.commons.store.law engine.now engine.own.evaluators :=
    fun _ impossible => impossible.elim
  have coherent : Coherent .lax engine.newCall :=
    coherent_of sound bare (fun cached => cached.elim) (paced_start .lax)
  exact Leads.exists_ok (settles_expire coherent not_hurried_lax)

theorem swept_of_sound (sound : engine.commons.store.Sound) :
    Swept engine.newCall (expire engine.newCall) := by
  obtain ⟨report, after, ends, _⟩ := exists_expired sound
  have soundToo : engine.newCall.commons.store.Sound := sound
  rw [ends]
  exact Leads.of_eq_ok (leads_expire_swept soundToo (unhurried_newCall engine)) ends

theorem Swept.store {result : Outcome ServiceError ExpiryReport × Engine}
    (swept : Swept engine result) :
    result.2.commons.store = engine.commons.store.sweep engine.now := by
  obtain ⟨report, _, _, commons⟩ := swept
  rw [commons, Commons.tellAll_store]

theorem store_expire (sound : engine.commons.store.Sound) :
    (Command.expire.perform engine.newCall).commons.store =
      engine.commons.store.sweep engine.now :=
  (swept_of_sound sound).store

/-- A second sweep at the same instant finds nothing and leaves everything as it is. -/
theorem expire_again (sound : engine.commons.store.Sound) : ∃ last,
    expire (expire engine.newCall).2.newCall = (.ok ⟨[], []⟩, last) ∧
      Idle (expire engine.newCall).2.newCall last := by
  obtain ⟨report, after, ends, settles⟩ := exists_expired sound
  have store : (expire engine.newCall).2.commons.store =
      engine.commons.store.sweep engine.now := store_expire sound
  have now : after.now = engine.now := congrArg Fixed.now settles.fixed
  rw [ends] at store ⊢
  have soundToo : after.newCall.commons.store.Sound := by
    change after.commons.store.Sound
    rw [store]
    exact RuleStore.sound_sweep sound engine.now
  have nothing : after.newCall.commons.store.lapsed after.newCall.now = [] := by
    change after.commons.store.lapsed after.now = []
    rw [store, now]
    exact RuleStore.lapsed_sweep _ _
  obtain ⟨_, last, again, rfl, idle⟩ :=
    Leads.exists_ok (ensures_expire_idle soundToo (unhurried_newCall after) nothing)
  exact ⟨last, again, idle⟩

end Sweeping

section Answering

theorem covers_uncached {query : PermissionQuery} (uncached : query.useCache = false)
    (request : CheckRequest) :
    (Regime.steady False).Covers request query.useCache query.expandRoles := by
  rw [uncached]
  exact ⟨nofun, trivial, nofun, nofun⟩

/-- Asked anew after a sweep, an engine that has decided requests in between answers as before, unless
it runs out of time. -/
theorem Coherent.agrees_swept (coherent : Coherent (Regime.steady False) engine) {asked : Engine}
    (serves : Serves (Regime.steady False) engine asked) (tenant : TenantId) (caller : Principal)
    {query : PermissionQuery} (uncached : query.useCache = false) :
    ∃ before after : Decision,
      ((checkPermission tenant caller query : Act Engine Empty Decision) engine.newCall).1 =
        .ok before ∧
      ((checkPermission tenant caller query : Act Engine Empty Decision)
        (Command.expire.perform asked.newCall).newCall).1 = .ok after ∧
      (before.Agrees after ∨ engine.own.settings.checkTimeout ≠ none ∧
        (before = Decision.deny Reason.deadline ∨ after = Decision.deny Reason.deadline)) := by
  have leisure := not_hurried_steady False
  have asks : Settles (Regime.steady False) engine asked := serves.settles
  have sweeps : Settles (Regime.steady False) asked.newCall (Command.expire.perform asked.newCall) :=
    asks.coherent.newCall.perform leisure trivial
  have store := store_expire asks.coherent.sound
  generalize Command.expire.perform asked.newCall = swept at sweeps store ⊢
  have fixed : swept.fixed = engine.fixed := sweeps.fixed.trans asks.fixed
  have same : asked.now = engine.now := congrArg Fixed.now asks.fixed
  have alike : RuleStore.Alike engine.now engine.commons.store swept.commons.store := by
    refine RuleStore.Alike.trans serves.alike ?_
    rw [store, same]
    exact RuleStore.alike_sweep asked.commons.store engine.now
  have enrich : swept.enrich = engine.enrich := by
    funext request decision
    have enrichers : swept.own.enrichers = engine.own.enrichers := congrArg Fixed.enrichers fixed
    unfold Engine.enrich
    rw [enrichers]
  have covers := covers_uncached uncached (query.toRequest tenant caller)
  exact coherent.agrees sweeps.coherent leisure leisure covers covers (alike tenant)
    (congrArg Fixed.now fixed) (congrArg Fixed.settings fixed) enrich

/-- A sweep disables the rules that have lapsed and no others, and announces and reports them; a second
one finds nothing. No check of a run can tell whether there has been a sweep. -/
theorem expire_of_sound (sound : engine.commons.store.Sound) :
    Swept engine.newCall (expire engine.newCall) ∧
    (∃ last, expire (expire engine.newCall).2.newCall = (.ok ⟨[], []⟩, last) ∧
      Idle (expire engine.newCall).2.newCall last) ∧
    ∀ (commons : Commons) (id : Uuid) (settings : Settings) (enrichers : Table String Enricher)
      (auditing : Bool), commons.store.Sound →
      Relation.ReflTransGen (Fares faulty)
        ⟨commons, .start id settings enrichers auditing, .start⟩ engine →
      ∀ (tenant : TenantId) (caller : Principal) (query : PermissionQuery), query.useCache = false →
        let asked := (Command.checkPermission tenant caller query).perform engine.newCall
        let swept := Command.expire.perform asked.newCall
        ∃ before after : Decision,
          ((checkPermission tenant caller query : Act Engine Empty Decision) engine.newCall).1 =
            .ok before ∧
          ((checkPermission tenant caller query : Act Engine Empty Decision) swept.newCall).1 =
            .ok after ∧
          (before.Agrees after ∨ engine.own.settings.checkTimeout ≠ none ∧
            (before = Decision.deny Reason.deadline ∨ after = Decision.deny Reason.deadline)) := by
  refine ⟨swept_of_sound sound, expire_again sound, ?_⟩
  intro commons id settings enrichers auditing ordered run tenant caller query uncached
  have regular : Regular (Regime.steady False).current engine :=
    regular_of_fares run (regular_start ordered id settings enrichers auditing)
  have coherent : Coherent (Regime.steady False) engine.newCall :=
    regular.coherent_newCall sound.available fun cached => cached
  have serves : Serves (Regime.steady False) engine.newCall
      ((Command.checkPermission tenant caller query).perform engine.newCall) :=
    (yields_checkPermission coherent tenant caller query).settled
  exact coherent.agrees_swept serves tenant caller uncached

/-- The cache is left aside. -/
def mayAnnReadNow : PermissionQuery :=
  { mayAnnRead with useCache := false }

theorem run_lapsed : Relation.ReflTransGen (Step False) started lapsed := by
  have admissible : (Command.create ⟨1⟩ annReadsAtFirst).Admissible listening.commons.store :=
    ⟨by decide, rfl⟩
  have created : Relation.ReflTransGen (Step False) started granted :=
    (Relation.ReflTransGen.single .listen).tail (.call _ admissible)
  exact created.tail (.clock afterwards (by decide) (by decide))

theorem expire_of_lapsed : lapsed.commons.store.Sound ∧ started.commons.store.Sound ∧
    Relation.ReflTransGen (Fares False) started lapsed ∧
    mayAnnReadNow.useCache = false ∧
    Swept lapsed.newCall (expire lapsed.newCall) ∧
    (∃ last, expire (expire lapsed.newCall).2.newCall = (.ok ⟨[], []⟩, last) ∧
      Idle (expire lapsed.newCall).2.newCall last) ∧
    ∃ before after : Decision,
      ((checkPermission ⟨1⟩ ⟨"clerk", []⟩ mayAnnReadNow : Act Engine Empty Decision)
        lapsed.newCall).1 = .ok before ∧
      ((checkPermission ⟨1⟩ ⟨"clerk", []⟩ mayAnnReadNow : Act Engine Empty Decision)
        (Command.expire.perform ((Command.checkPermission ⟨1⟩ ⟨"clerk", []⟩ mayAnnReadNow).perform
          lapsed.newCall).newCall).newCall).1 = .ok after ∧
      (before.Agrees after ∨ lapsed.own.settings.checkTimeout ≠ none ∧
        (before = Decision.deny Reason.deadline ∨ after = Decision.deny Reason.deadline)) := by
  have empty : started.commons.store.Sound := RuleStore.sound_empty
  have start : Coherent (Regime.steady False) started :=
    coherent_start empty _ _ _ _ fun impossible => impossible.elim
  have sound : lapsed.commons.store.Sound :=
    (coherent_of_run run_lapsed (fun impossible => impossible.elim) start).1.sound
  have run : Relation.ReflTransGen (Fares False) started lapsed :=
    run_lapsed.lift id fun _ _ => .step
  obtain ⟨swept, again, answers⟩ := expire_of_sound sound
  exact ⟨sound, empty, run, rfl, swept, again,
    answers started.commons ⟨1⟩ .default [] false empty run ⟨1⟩ ⟨"clerk", []⟩ mayAnnReadNow rfl⟩

/-- One of two rules has lapsed, the bus is down, and searches take ten milliseconds. -/
def overdue : Engine :=
  ((((Command.create ⟨1⟩ annReadsAtFirst).perform heedful.newCall).setClock
    afterwards).setBusDown true).setFindDelay 10

theorem run_overdue : Relation.ReflTransGen (Fares False) brisk overdue := by
  have admissible : (Command.create ⟨1⟩ annReadsAtFirst).Admissible heedful.commons.store :=
    ⟨by decide, hasRoom_heedful⟩
  have clock : Step False ((Command.create ⟨1⟩ annReadsAtFirst).perform heedful.newCall) _ :=
    .clock afterwards (by decide +kernel) (by decide)
  have run : Relation.ReflTransGen (Step False) brisk overdue :=
    (((run_heedful.tail (.call _ admissible)).tail clock).tail (.bus true)).tail (.delay 10)
  exact run.lift id fun _ _ => .step

/-- A bus that is down hears of nothing, and with a time limit the sweep may bring an evaluator up to
date for which the check before had no time. -/
theorem unheard_and_out_of_time : Relation.ReflTransGen (Fares False) brisk overdue ∧
    let asked := (Command.checkPermission ⟨1⟩ ⟨"clerk", []⟩ mayAnnReadNow).perform overdue.newCall
    let swept := Command.expire.perform asked.newCall
    (asked.commons.store.rows.get? ⟨2⟩).map Rule.status = some .enabled ∧
    (swept.commons.store.rows.get? ⟨2⟩).map Rule.status = some .disabled ∧
    asked.commons.bus.subscriberCount = 1 ∧
    swept.commons.bus.waiting 0 = asked.commons.bus.waiting 0 ∧
    allowed? ((checkPermission ⟨1⟩ ⟨"clerk", []⟩ mayAnnReadNow : Act Engine Empty Decision)
      overdue.newCall).1 = some false ∧
    allowed? ((checkPermission ⟨1⟩ ⟨"clerk", []⟩ mayAnnReadNow : Act Engine Empty Decision)
      swept.newCall).1 = some true := by
  refine ⟨run_overdue, ?_, ?_, ?_, ?_, ?_, ?_⟩
  all_goals decide +kernel

end Answering

end Engine

end AccessPolicy
