import AccessPolicy.Proofs.Bus
import AccessPolicy.Proofs.Engine.Run

/-!
Engines that listen to each other. An engine is right about every tenant but those that a waiting
change asks it to take up: its own calls keep it so, the calls of others let changes wait for it, and
a change that is taken from its queue is applied.
-/
namespace AccessPolicy

namespace Engine

open Act hiding pure bind state

/-- The changes that wait for an engine. -/
def pending (engine : Engine) : List Change :=
  match engine.own.listener with
  | some listener => engine.commons.bus.waiting listener.subscription
  | none => []

def withBus (engine : Engine) (bus : Bus Change) : Engine :=
  { engine with commons := { engine.commons with bus := bus } }

/-- A change leaves the queue of the engine, wherever it stands there, and is applied. -/
def takeChange {ε : Type} (change : Change) : Act Engine ε Bool := do
  let engine ← Act.state
  match engine.own.listener with
  | some listener =>
    Act.modify (fun engine => { engine with commons := { engine.commons with
      bus := engine.commons.bus.requeue listener.subscription (·.erase change) } })
    applyChange change
  | none => pure false

/-- What an engine that listens is held to. -/
structure Duty where
  /-- The tenants that it has to be right about. -/
  tenants : TenantId → Prop
  /-- What it has cached has to be right, too. -/
  cached : Prop
  /-- Its checks have no time limit. -/
  unlimited : Prop

def Duty.full : Duty := ⟨fun _ => True, True, True⟩

/-- Of its tenants an engine has to be right about those that no waiting change asks it to take
up. -/
def settled (duty : Duty) (engine : Engine) : Regime where
  current tenant := duty.tenants tenant ∧
    ∀ change ∈ engine.pending, ¬ change.AsksFor engine.own.id tenant
  cached := duty.cached
  stale := NoneStale
  enriched := False
  timed := False
  brief := False

/-- An engine that listens and is right about what it has been told. -/
structure Attuned (duty : Duty) (engine : Engine) : Prop where
  hears : ∃ number, engine.own.listener = some ⟨number, true⟩ ∧ engine.commons.bus.Reaches number
  prompt : duty.unlimited → engine.own.settings.checkTimeout = none
  serves : Coherent (engine.settled duty) engine

variable {duty : Duty} {engine after : Engine}

theorem Attuned.unlimited (attuned : engine.Attuned .full) :
    engine.own.settings.checkTimeout = none :=
  attuned.prompt trivial

theorem Attuned.coherent (attuned : engine.Attuned .full) :
    Coherent { engine.settled .full with
      current := fun tenant => ∀ change ∈ engine.pending, ¬ change.AsksFor engine.own.id tenant }
      engine :=
  attuned.serves.mono fun _ quiet => ⟨trivial, quiet⟩

theorem pending_of_listener {listener : Listener} (listens : engine.own.listener = some listener) :
    engine.pending = engine.commons.bus.waiting listener.subscription := by
  rw [pending, listens]

/-- A change that is taken leaves the queue before it is applied. -/
theorem takeChange_of_listener {ε : Type} {listener : Listener}
    (listens : engine.own.listener = some listener) (change : Change) :
    (takeChange change : Act Engine ε Bool) engine = applyChange change
      (engine.withBus (engine.commons.bus.requeue listener.subscription (·.erase change))) := by
  unfold takeChange
  rw [bind_apply, state_apply]
  dsimp only
  rw [listens]
  rfl

theorem takeChanges_of_listener {ε : Type} {number : Nat}
    (listens : engine.own.listener = some ⟨number, true⟩) :
    (takeChanges : Act Engine ε Unit) engine = applyEach ⟨number, true⟩
      (engine.commons.bus.waiting number) (engine.withBus (engine.commons.bus.clear number)) := by
  unfold takeChanges
  rw [bind_apply, state_apply]
  dsimp only
  rw [listens]
  rfl

theorem announce_of_up (up : engine.commons.busDown = false) (tenant : Option TenantId)
    (reason : ChangeReason) : announce tenant reason engine =
      (.ok (), engine.withBus (engine.commons.bus.publish ⟨engine.own.id, tenant, reason⟩)) := by
  unfold announce
  rw [bind_apply, state_apply]
  dsimp only
  rw [up]
  rfl

theorem leisure_settled (duty : Duty) (engine : Engine) : ¬ (engine.settled duty).hurried := by
  simp [settled, Regime.hurried]

/-- What an engine is right about grows with what it is told and with what waits for it. -/
theorem attuned_of {number : Nat} (listens : after.own.listener = some ⟨number, true⟩)
    (reaches : after.commons.bus.Reaches number)
    (prompt : duty.unlimited → after.own.settings.checkTimeout = none) {current : TenantId → Prop}
    (coherent : Coherent ⟨current, duty.cached, NoneStale, False, False, False⟩ after)
    (told : ∀ tenant, duty.tenants tenant → (∀ change ∈ after.commons.bus.waiting number,
      ¬ change.AsksFor after.own.id tenant) → current tenant) : after.Attuned duty := by
  refine ⟨⟨number, listens, reaches⟩, prompt, coherent.mono fun tenant ⟨own, quiet⟩ => ?_⟩
  rw [pending_of_listener listens] at quiet
  exact told tenant own quiet

theorem Coherent.alike {regime : Regime} {commons after : Commons} {own : Replica} {timing : Timing}
    (coherent : Coherent regime ⟨commons, own, timing⟩) (sound : after.store.Sound)
    (now : after.now = commons.now) (alike : ∀ tenant, regime.current tenant →
      AlikeRules commons.now (commons.store.law tenant) (after.store.law tenant)) :
    Coherent regime ⟨after, own, timing⟩ := by
  have current : Engine.now ⟨after, own, timing⟩ = Engine.now ⟨commons, own, timing⟩ := now
  refine coherent_of sound ?_ (fun cached => ?_) coherent.paced
  · rw [current]
    exact coherent.tracks.alike alike
  · rw [current]
    exact (coherent.recollects cached).alike alike

theorem Coherent.withBus {regime : Regime} (coherent : Coherent regime engine) (bus : Bus Change) :
    Coherent regime (engine.withBus bus) :=
  coherent_of coherent.sound coherent.tracks coherent.recollects coherent.paced

/-- A replica stays attuned to what others do, as long as it is told whose rules are not alike. -/
theorem Attuned.overhear {commons after : Commons} {own : Replica}
    (attuned : Attuned duty ⟨commons, own, .start⟩) (sound : after.store.Sound)
    (now : after.now = commons.now) (more : List Change)
    (hears : ∀ number, own.listener = some ⟨number, true⟩ → commons.bus.Reaches number →
      after.bus.Reaches number ∧ after.bus.waiting number = commons.bus.waiting number ++ more)
    (alike : ∀ tenant, (∃ change ∈ more, change.AsksFor own.id tenant) ∨
      AlikeRules commons.now (commons.store.law tenant) (after.store.law tenant)) :
    Attuned duty ⟨after, own, .start⟩ := by
  obtain ⟨number, listens, reaches⟩ := attuned.hears
  obtain ⟨reached, waits⟩ := hears number listens reaches
  have known : ∀ tenant, (duty.tenants tenant ∧
      ∀ change ∈ after.bus.waiting number, ¬ change.AsksFor own.id tenant) →
      (settled duty ⟨commons, own, .start⟩).current tenant ∧
        AlikeRules commons.now (commons.store.law tenant) (after.store.law tenant) := by
    rintro tenant ⟨held, quiet⟩
    rw [waits] at quiet
    constructor
    · refine ⟨held, fun change waiting => ?_⟩
      rw [pending_of_listener listens] at waiting
      exact quiet change (List.mem_append_left _ waiting)
    · refine (alike tenant).resolve_left ?_
      rintro ⟨change, member, asks⟩
      exact quiet change (List.mem_append_right _ member) asks
  have less := attuned.serves.mono fun tenant quiet => (known tenant quiet).1
  have coherent := less.alike sound now fun tenant quiet => (known tenant quiet).2
  exact attuned_of listens reached attuned.prompt coherent fun _ held quiet => ⟨held, quiet⟩

section Applying

variable {regime : Regime} {base : Engine} {changes : List Change} {wanted : TenantId → Prop}

/-- Changes that have been applied have made an engine right about what they ask for, as far as it is
wanted. -/
structure Applied (regime : Regime) (wanted : TenantId → Prop) (changes : List Change)
    (base after : Engine) : Prop where
  coherent : Coherent { regime with current := fun tenant =>
    (regime.current tenant ∨ wanted tenant ∧ ∃ change ∈ changes, change.AsksFor base.own.id tenant) }
    after
  commons : after.commons = base.commons
  fixed : after.fixed = base.fixed

theorem applied_nil (coherent : Coherent regime base) : Applied regime wanted [] base base := by
  refine ⟨coherent.mono fun tenant member => ?_, rfl, rfl⟩
  simpa using member

theorem exists_applyChange {ε : Type} (coherent : Coherent regime base) (leisure : ¬ regime.hurried)
    (wanted : TenantId → Prop) (change : Change) : ∃ applied after,
      (Engine.applyChange change : Act Engine ε Bool) base = (.ok applied, after) ∧
        Applied regime wanted [change] base after := by
  obtain ⟨applied, after, ends, right, commons, fixed⟩ :=
    Leads.exists_ok (ensures_applyChange (ε := ε) coherent leisure change)
  refine ⟨applied, after, ends, right.mono fun tenant member => ?_, commons, fixed⟩
  refine member.imp_right fun asked => ?_
  simpa using asked.2

theorem exists_applyEach {ε : Type} (listener : Listener) (wanted : TenantId → Prop)
    (changes : List Change) :
    ∀ {regime : Regime} {base : Engine}, Coherent regime base → ¬ regime.hurried →
      ∃ after, (applyEach listener changes : Act Engine ε Unit) base = (.ok (), after) ∧
        Applied regime wanted changes base after := by
  induction changes with
  | nil => exact fun coherent _ => ⟨_, rfl, applied_nil coherent⟩
  | cons change rest ih =>
    intro regime base coherent leisure
    obtain ⟨_, next, first, applied⟩ := exists_applyChange (ε := ε) coherent leisure wanted change
    obtain ⟨after, ends, more⟩ := ih applied.coherent leisure
    have id : next.own.id = base.own.id := congrArg Fixed.id applied.fixed
    refine ⟨after, ?_, more.coherent.mono fun tenant member => ?_, more.commons.trans applied.commons,
      more.fixed.trans applied.fixed⟩
    · unfold applyEach
      dsimp only
      rw [first]
      exact ends
    · simpa [id, or_assoc, and_or_left] using member

end Applying

theorem mem_singleton_or_mem_erase {change other : Change} {changes : List Change}
    (member : other ∈ changes) : other ∈ [change] ∨ other ∈ changes.erase change := by
  rw [List.mem_singleton]
  by_cases same : other = change
  · exact Or.inl same
  · exact Or.inr ((List.mem_erase_of_ne same).mpr member)

/-- An engine has gone on, and the engines beside it stay attuned. -/
structure Proceeds (duty : Duty) (base after : Engine) : Prop where
  attuned : after.Attuned duty
  fixed : after.fixed = base.fixed
  beside : ∀ (other : Duty) (one : Replica), one.id ≠ base.own.id →
    one.listener ≠ base.own.listener → Attuned other ⟨base.commons, one, .start⟩ →
      Attuned other ⟨after.commons, one, .start⟩

section Steps

variable (attuned : engine.Attuned duty)

include attuned

/-- A call leaves an engine as right as it was, and tells the others what it has changed. -/
theorem Attuned.perform (up : engine.commons.busDown = false) {command : Command}
    (admissible : command.Admissible engine.commons.store) :
    Proceeds duty engine (command.perform engine) := by
  obtain ⟨coherent, fixed, published, announces, told⟩ :=
    attuned.serves.perform (leisure_settled duty engine) admissible
  obtain ⟨changes, bus, origins, named⟩ := announces up
  have own : (command.perform engine).own.id = engine.own.id := congrArg Fixed.id fixed
  have listener := congrArg Fixed.listener fixed
  have settings := congrArg Fixed.settings fixed
  have now : (command.perform engine).commons.now = engine.commons.now := congrArg Fixed.now fixed
  refine ⟨?_, fixed, fun _ one different _ beside => ?_⟩
  · obtain ⟨number, listens, reaches⟩ := attuned.hears
    obtain ⟨reached, waits⟩ := reaches.publishEach changes
    rw [← bus] at reached waits
    refine attuned_of (listener.trans listens) reached
      (fun bounded => (congrArg Settings.checkTimeout settings).trans (attuned.prompt bounded))
      coherent ?_
    refine fun tenant held quiet => ⟨held, fun change waiting => ?_⟩
    rw [pending_of_listener listens] at waiting
    rw [← own]
    refine quiet change ?_
    rw [waits]
    exact List.mem_append_left _ waiting
  -- A tenant whose rules are not alike is named in a change, which is not the other engine's own.
  · refine beside.overhear coherent.sound now changes ?_ fun tenant => ?_
    · intro number _ reaches
      rw [bus]
      exact reaches.publishEach changes
    · refine (told tenant).imp (fun announced => ?_) id
      obtain ⟨change, member, tenants⟩ := named tenant announced
      refine ⟨change, member, fun own => different ?_, Or.inr tenants⟩
      exact own.symm.trans (origins change member)

/-- The queue of an engine may lose the changes that the engine applies. -/
theorem Attuned.apply {number : Nat} (listens : engine.own.listener = some ⟨number, true⟩)
    (reaches : engine.commons.bus.Reaches number) (edit : List Change → List Change)
    (changes : List Change)
    (kept : ∀ change ∈ engine.commons.bus.waiting number,
      change ∈ changes ∨ change ∈ edit (engine.commons.bus.waiting number))
    (applied : Applied (engine.settled duty) duty.tenants changes
      (engine.withBus (engine.commons.bus.requeue number edit)) after) :
    Proceeds duty engine after := by
  obtain ⟨coherent, commons, fixed⟩ := applied
  obtain ⟨reached, waits⟩ := reaches.requeue edit
  have bus : after.commons.bus = engine.commons.bus.requeue number edit := by rw [commons, withBus]
  have now : after.commons.now = engine.commons.now := by rw [commons, withBus]
  have store : after.commons.store = engine.commons.store := by rw [commons, withBus]
  have own : after.own.id = engine.own.id := congrArg Fixed.id fixed
  have listener : after.own.listener = engine.own.listener := congrArg Fixed.listener fixed
  have settings : after.own.settings = engine.own.settings := congrArg Fixed.settings fixed
  rw [← bus] at reached waits
  refine ⟨?_, fixed, fun _ one _ elsewhere beside => ?_⟩
  · refine attuned_of (listener.trans listens) reached (settings ▸ attuned.prompt) coherent ?_
    intro tenant held quiet
    rw [waits, own] at quiet
    by_cases asked : ∃ change ∈ changes, change.AsksFor engine.own.id tenant
    · exact Or.inr ⟨held, asked⟩
    · refine Or.inl ⟨held, fun change waiting asks => ?_⟩
      rw [pending_of_listener listens] at waiting
      rcases kept change waiting with taken | left
      · exact asked ⟨change, taken, asks⟩
      · exact quiet change left asks
  · refine beside.overhear coherent.sound now [] (fun other heard reaches => ?_)
      fun tenant => Or.inr ?_
    · have different : number ≠ other := by
        rintro rfl
        exact elsewhere (heard.trans listens.symm)
      rw [bus, List.append_nil]
      exact reaches.requeue_other different edit
    · rw [store]
      exact .refl _ _

/-- Applying a change once more does no harm. -/
theorem Attuned.applyChange (change : Change) :
    Proceeds duty engine ((Engine.applyChange change : Act Engine Empty Bool) engine).2 := by
  obtain ⟨number, listens, reaches⟩ := attuned.hears
  obtain ⟨_, after, ends, applied⟩ :=
    exists_applyChange (ε := Empty) attuned.serves (leisure_settled duty engine)
      duty.tenants change
  have same : engine.withBus (engine.commons.bus.requeue number id) = engine := by
    rw [Bus.requeue_id, withBus]
  rw [ends]
  refine attuned.apply listens reaches id [change] (fun _ => Or.inr) ?_
  rw [same]
  exact applied

theorem Attuned.takeChange (change : Change) :
    Proceeds duty engine ((Engine.takeChange change : Act Engine Empty Bool) engine).2 := by
  obtain ⟨number, listens, reaches⟩ := attuned.hears
  obtain ⟨_, after, ends, applied⟩ := exists_applyChange (ε := Empty)
    (attuned.serves.withBus (engine.commons.bus.requeue number (·.erase change)))
    (leisure_settled duty engine) duty.tenants change
  rw [takeChange_of_listener listens, ends]
  exact attuned.apply listens reaches (·.erase change) [change]
    (fun _ => mem_singleton_or_mem_erase) applied

theorem Attuned.takeChanges :
    Proceeds duty engine ((Engine.takeChanges : Act Engine Empty Unit) engine).2 := by
  obtain ⟨number, listens, reaches⟩ := attuned.hears
  obtain ⟨after, ends, applied⟩ := exists_applyEach (ε := Empty) ⟨number, true⟩ duty.tenants
    (engine.commons.bus.waiting number)
    (attuned.serves.withBus (engine.commons.bus.clear number)) (leisure_settled duty engine)
  rw [takeChanges_of_listener listens, ends]
  exact attuned.apply listens reaches (fun _ => []) _ (fun _ => Or.inl) applied

/-- An engine that announces a change leaves it to the others to take it up. -/
theorem Attuned.announce (up : engine.commons.busDown = false) (tenant : Option TenantId)
    (reason : ChangeReason) : Proceeds duty engine (Engine.announce tenant reason engine).2 := by
  rw [announce_of_up up]
  refine ⟨?_, rfl, fun _ one _ _ beside => ?_⟩
  · obtain ⟨number, listens, reaches⟩ := attuned.hears
    obtain ⟨reached, waits⟩ := reaches.publish ⟨engine.own.id, tenant, reason⟩
    refine attuned_of listens reached attuned.prompt (attuned.serves.withBus _) ?_
    refine fun tenant held quiet => ⟨held, fun change waiting => quiet change ?_⟩
    rw [pending_of_listener listens] at waiting
    exact waits ▸ List.mem_append_left _ waiting
  · exact beside.overhear attuned.serves.sound rfl [⟨engine.own.id, tenant, reason⟩]
      (fun _ _ reaches => reaches.publish _) fun _ => Or.inr (.refl _ _)

theorem Attuned.withBackend {backend : CacheBackend}
    (narrows : duty.cached → backend.Narrows engine.own.cache.backend) :
    Proceeds duty engine (engine.withBackend backend) :=
  ⟨⟨attuned.hears, attuned.prompt, attuned.serves.withBackend narrows⟩, rfl,
    fun _ _ _ _ beside => beside⟩

theorem Attuned.setClock {now : Instant} (order : engine.now ≤ now) (ordinary : now.isLeap = false) :
    (engine.setClock now).Attuned duty :=
  ⟨attuned.hears, attuned.prompt, attuned.serves.setClock order ordinary⟩

theorem Attuned.newCall : engine.newCall.Attuned duty :=
  ⟨attuned.hears, attuned.prompt, attuned.serves.newCall⟩

end Steps

section Joining

variable {commons : Commons}

/-- A new engine listens, by a subscription that no engine has had. -/
theorem attuned_listen (sound : commons.store.Sound) (id : Uuid) {settings : Settings}
    {enrichers : Table String Enricher} (prompt : duty.unlimited → settings.checkTimeout = none)
    (plain : duty.cached → enrichers = []) (auditing : Bool) :
    ((listen : Act Engine Empty Unit)
      ⟨commons, Replica.start id settings enrichers auditing, .start⟩).2.Attuned duty := by
  have start : Coherent (Regime.steady duty.cached)
      ⟨commons, Replica.start id settings enrichers auditing, .start⟩ :=
    coherent_start sound id settings enrichers auditing plain
  exact attuned_of rfl (Bus.reaches_subscribe commons.bus) prompt start.listen
    fun _ _ _ => trivial

theorem listen_of_none {own : Replica} (new : own.listener = none) :
    ((listen : Act Engine Empty Unit) ⟨commons, own, .start⟩).2 =
      ⟨{ commons with bus := commons.bus.subscribe.2 },
        { own with listener := some ⟨commons.bus.subscribe.1, true⟩ }, .start⟩ := by
  unfold Engine.listen
  rw [bind_apply, state_apply]
  dsimp only
  rw [new]
  rfl

theorem Attuned.beside_subscribe {own : Replica} (attuned : Attuned duty ⟨commons, own, .start⟩) :
    Attuned duty ⟨{ commons with bus := commons.bus.subscribe.2 }, own, .start⟩ := by
  refine attuned.overhear attuned.serves.sound rfl [] (fun number _ reaches => ?_)
    fun tenant => Or.inr (.refl _ _)
  rw [List.append_nil]
  exact reaches.subscribe

end Joining

end Engine

end AccessPolicy
