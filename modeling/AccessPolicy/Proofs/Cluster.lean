import AccessPolicy.Cluster
import AccessPolicy.Proofs.Engine.Attuned

/-!
Engines over one store converge. Whatever they do, and however the changes they announce reach each
other, an engine for which no change of another waits replies as one that has just been started.
-/
namespace AccessPolicy

namespace Cluster

open Engine

/-- A replica that has been started joins, and listens from then on. -/
def join (cluster : Cluster) (own : Replica) : Cluster :=
  let engine := ((listen : Act Engine Empty Unit) ⟨cluster.commons, own, .start⟩).2
  ⟨engine.commons, cluster.replicas ++ [engine.own]⟩

/-- What happens to a cluster. A change may be taken out of turn, and applied again at any time; the
clock moves to ordinary instants that are not earlier. -/
inductive Step : Cluster → Cluster → Prop
  | join {cluster : Cluster} (id : Uuid) (settings : Settings) (auditing : Bool)
      (fresh : ∀ own ∈ cluster.replicas, own.id ≠ id) (unlimited : settings.checkTimeout = none) :
      Step cluster (cluster.join (.start id settings [] auditing))
  | call {cluster : Cluster} {number : Nat} {engine : Engine}
      (present : cluster.engine? number = some engine) (command : Command)
      (admissible : command.Admissible engine.commons.store) :
      Step cluster (cluster.accept number (command.perform engine))
  | take {cluster : Cluster} {number : Nat} {engine : Engine}
      (present : cluster.engine? number = some engine) (change : Change)
      (waiting : change ∈ engine.pending) :
      Step cluster (cluster.accept number ((takeChange change : Act Engine Empty Bool) engine).2)
  | again {cluster : Cluster} {number : Nat} {engine : Engine}
      (present : cluster.engine? number = some engine) (change : Change) :
      Step cluster (cluster.accept number ((applyChange change : Act Engine Empty Bool) engine).2)
  | deliver {cluster : Cluster} (number : Nat) : Step cluster (cluster.deliverTo number)
  | clock {cluster : Cluster} (now : Instant) (order : cluster.commons.now ≤ now)
      (ordinary : now.isLeap = false) : Step cluster (cluster.setClock now)
  | elapse {cluster : Cluster} {number : Nat} {engine : Engine}
      (present : cluster.engine? number = some engine) (nanos : Nat) :
      Step cluster
        (cluster.accept number (engine.withBackend (engine.own.cache.backend.elapse nanos)))

/-- The engines are told apart by their ids and by their subscriptions. -/
structure Apart (cluster : Cluster) : Prop where
  ids : (cluster.replicas.map (·.id)).Nodup
  listeners : (cluster.replicas.map (·.listener)).Nodup

/-- Each engine is right about what it has been told, as far as it has a duty to be. -/
structure Attuned (duties : Nat → Duty) (cluster : Cluster) : Prop where
  sound : cluster.commons.store.Sound
  up : cluster.commons.busDown = false
  apart : cluster.Apart
  attuned : ∀ (number : Nat) (own : Replica), cluster.replicas[number]? = some own →
    Engine.Attuned (duties number) ⟨cluster.commons, own, .start⟩

variable {duties : Nat → Duty} {cluster after : Cluster} {number : Nat} {engine : Engine}

section Replicas

variable {β : Type} {replicas : List Replica} {own one : Replica} {other : Nat} {name : Replica → β}

theorem map_set_of_eq (present : replicas[number]? = some own) (same : name one = name own) :
    (replicas.set number one).map name = replicas.map name := by
  obtain ⟨bound, rfl⟩ := List.getElem?_eq_some_iff.mp present
  have inside : number < (replicas.map name).length := by
    rw [List.length_map]
    exact bound
  rw [List.map_set, same, ← List.getElem_map name (h := inside)]
  exact List.set_getElem_self inside

theorem ne_of_nodup_map (distinct : (replicas.map name).Nodup)
    (present : replicas[number]? = some own) (presentToo : replicas[other]? = some one)
    (different : number ≠ other) : name own ≠ name one := by
  intro same
  have named : (replicas.map name)[number]? = (replicas.map name)[other]? := by
    rw [List.getElem?_map, List.getElem?_map, present, presentToo, Option.map_some, Option.map_some,
      same]
  have bound : number < (replicas.map name).length := by
    rw [List.length_map]
    exact (List.getElem?_eq_some_iff.mp present).1
  exact different ((List.getElem?_inj bound distinct).mp named)

end Replicas

theorem engine?_eq_some (present : cluster.engine? number = some engine) :
    ∃ own, cluster.replicas[number]? = some own ∧ engine = ⟨cluster.commons, own, .start⟩ := by
  obtain ⟨own, member, same⟩ := Option.map_eq_some_iff.mp present
  exact ⟨own, member, same.symm⟩

namespace Attuned

variable (attuned : cluster.Attuned duties)

include attuned

theorem of_engine? (present : cluster.engine? number = some engine) :
    engine.Attuned (duties number) := by
  obtain ⟨own, member, rfl⟩ := engine?_eq_some present
  exact attuned.attuned number own member

theorem accept (present : cluster.engine? number = some engine) {after : Engine}
    (proceeds : Proceeds (duties number) engine after) :
    (cluster.accept number after).Attuned duties := by
  obtain ⟨own, member, rfl⟩ := engine?_eq_some present
  have id : after.own.id = own.id := congrArg Fixed.id proceeds.fixed
  have listener : after.own.listener = own.listener := congrArg Fixed.listener proceeds.fixed
  have down : after.commons.busDown = cluster.commons.busDown := congrArg Fixed.busDown proceeds.fixed
  refine ⟨proceeds.attuned.serves.sound, down.trans attuned.up, ⟨?_, ?_⟩, ?_⟩
  · exact (map_set_of_eq member id).symm ▸ attuned.apart.ids
  · exact (map_set_of_eq member listener).symm ▸ attuned.apart.listeners
  · intro other one found
    -- The engine that has gone on stands at its number, the others where they stood.
    by_cases same : number = other
    · subst same
      have bound := (List.getElem?_eq_some_iff.mp member).1
      have own : after.own = one := by
        simpa [Cluster.accept, bound] using found
      exact own ▸ proceeds.attuned.newCall
    · have kept : cluster.replicas[other]? = some one := by
        simpa [Cluster.accept, same] using found
      have ids := ne_of_nodup_map attuned.apart.ids kept member (Ne.symm same)
      have listeners := ne_of_nodup_map attuned.apart.listeners kept member (Ne.symm same)
      exact proceeds.beside _ one ids listeners (attuned.attuned other one kept)

theorem join {own : Replica} (new : own.listener = none)
    (fresh : ∀ one ∈ cluster.replicas, one.id ≠ own.id)
    (right : Engine.Attuned (duties cluster.replicas.length)
      ((listen : Act Engine Empty Unit) ⟨cluster.commons, own, .start⟩).2) :
    (cluster.join own).Attuned duties := by
  unfold Cluster.join
  rw [listen_of_none new] at right ⊢
  refine ⟨right.serves.sound, attuned.up, ⟨?_, ?_⟩, ?_⟩
  · simpa [List.nodup_append, attuned.apart.ids] using fresh
  · have unheard : ∀ one ∈ cluster.replicas,
        one.listener ≠ some ⟨cluster.commons.bus.subscribe.1, true⟩ := by
      intro one member same
      obtain ⟨place, present⟩ := List.mem_iff_getElem?.mp member
      obtain ⟨number, listens, reaches⟩ := (attuned.attuned place one present).hears
      have last : number = cluster.commons.bus.subscriptions.length := by
        simpa [Bus.subscribe] using listens.symm.trans same
      exact absurd reaches.lt_length (by simp [last])
    simpa [List.nodup_append, attuned.apart.listeners] using unheard
  · intro place one present
    rcases Nat.lt_or_ge place cluster.replicas.length with old | new
    · rw [List.getElem?_append_left old] at present
      exact (attuned.attuned place one present).beside_subscribe
    · rw [List.getElem?_append_right new, List.getElem?_singleton] at present
      obtain ⟨last, same⟩ := Option.ite_none_right_eq_some.mp present
      obtain rfl : place = cluster.replicas.length := by omega
      exact Option.some.inj same ▸ right

theorem setClock {now : Instant} (order : cluster.commons.now ≤ now)
    (ordinary : now.isLeap = false) : (cluster.setClock now).Attuned duties :=
  ⟨attuned.sound, attuned.up, ⟨attuned.apart.ids, attuned.apart.listeners⟩,
    fun number own present => (attuned.attuned number own present).setClock order ordinary⟩

end Attuned

theorem Attuned.step (attuned : cluster.Attuned fun _ => .full) {after : Cluster}
    (step : Step cluster after) : after.Attuned fun _ => .full := by
  cases step with
  | join id settings auditing fresh unlimited =>
    exact attuned.join rfl fresh
      (attuned_listen attuned.sound id (fun _ => unlimited) (fun _ => rfl) auditing)
  | call present command admissible =>
    have right := attuned.of_engine? present
    obtain ⟨own, _, rfl⟩ := engine?_eq_some present
    exact attuned.accept present (right.perform attuned.up admissible)
  | take present change _ =>
    exact attuned.accept present ((attuned.of_engine? present).takeChange change)
  | again present change =>
    exact attuned.accept present ((attuned.of_engine? present).applyChange change)
  | deliver number =>
    unfold deliverTo act?
    cases present : cluster.engine? number with
    | none => exact attuned
    | some engine => exact attuned.accept present (attuned.of_engine? present).takeChanges
  | clock now order ordinary => exact attuned.setClock order ordinary
  | elapse present nanos =>
    exact attuned.accept present
      ((attuned.of_engine? present).withBackend fun _ => CacheBackend.narrows_elapse _ nanos)

theorem attuned_nil {commons : Commons} (sound : commons.store.Sound) (up : commons.busDown = false) :
    Attuned duties ⟨commons, []⟩ :=
  ⟨sound, up, ⟨List.nodup_nil, List.nodup_nil⟩, fun _ _ impossible => nomatch impossible⟩

theorem attuned_of_run {commons : Commons} (sound : commons.store.Sound) (up : commons.busDown = false)
    (run : Relation.ReflTransGen Step ⟨commons, []⟩ cluster) : cluster.Attuned fun _ => .full := by
  induction run with
  | refl => exact attuned_nil sound up
  | tail _ step ih => exact ih.step step

/-- In every state of a run an engine for which no change of another waits replies as one that has
just been started over the store. -/
theorem agrees_start_of_run {commons : Commons} (sound : commons.store.Sound)
    (up : commons.busDown = false) (run : Relation.ReflTransGen Step ⟨commons, []⟩ cluster)
    (present : cluster.engine? number = some engine)
    (idle : ∀ change ∈ engine.pending, change.origin = engine.own.id)
    (tenant : TenantId) (caller : Principal) (query : PermissionQuery)
    (id : Uuid) {settings : Settings} (unlimited : settings.checkTimeout = none)
    (superadmin : settings.superadminRole = engine.own.settings.superadminRole) (auditing : Bool) :
    ∃ reply fresh : Decision,
      ((checkPermission tenant caller query : Act Engine Empty Decision) engine).1 = .ok reply ∧
      ((checkPermission tenant caller query : Act Engine Empty Decision)
        ⟨cluster.commons, .start id settings [] auditing, .start⟩).1 = .ok fresh ∧
      reply.Agrees fresh := by
  have attuned := attuned_of_run sound up run
  have right := attuned.of_engine? present
  obtain ⟨own, _, rfl⟩ := engine?_eq_some present
  have coherent : Coherent (Regime.steady True) ⟨cluster.commons, own, .start⟩ :=
    right.coherent.mono fun tenant _ change waiting asks => asks.1 (idle change waiting)
  have start : Coherent (Regime.steady True)
      ⟨cluster.commons, .start id settings [] auditing, .start⟩ :=
    coherent_start attuned.sound id settings [] auditing fun _ => rfl
  obtain ⟨reply, replied, known⟩ := coherent.replies right.unlimited tenant caller query
  obtain ⟨fresh, repliedToo, knownToo⟩ := start.replies unlimited tenant caller query
  refine ⟨reply, fresh, replied, repliedToo, Decision.agrees_of_unmarked_eq (known.trans ?_)⟩
  rw [knownToo]
  exact congrArg (fun role => (Engine.reference ⟨cluster.commons, own, .start⟩ tenant).reply role
    (query.toRequest tenant caller) query.expandRoles) superadmin.symm

section Pair

/-- Two engines over an empty store. -/
def pair : Cluster :=
  (join ⟨started.commons, []⟩ (.start ⟨1⟩ .default [] false)).join (.start ⟨2⟩ .default [] false)

def first (cluster : Cluster) : Engine :=
  (cluster.engine? 0).getD started

def second (cluster : Cluster) : Engine :=
  (cluster.engine? 1).getD started

/-- The second engine does not let Ann read, and caches that. -/
def pairRefusing : Cluster :=
  pair.accept 1 ((Command.checkPermission ⟨1⟩ ⟨"clerk", []⟩ mayAnnRead).perform pair.second)

/-- The first engine has learned that Ann may read. -/
def pairGranting : Cluster :=
  pairRefusing.accept 0 ((Command.create ⟨1⟩ annReads).perform pairRefusing.first)

/-- The second engine has heard of it. -/
def pairAgreed : Cluster :=
  pairGranting.deliverTo 1

theorem run_pairAgreed : Relation.ReflTransGen Step ⟨started.commons, []⟩ pairAgreed := by
  have one : Step ⟨started.commons, []⟩ (join ⟨started.commons, []⟩ (.start ⟨1⟩ .default [] false)) :=
    .join ⟨1⟩ .default false (by decide) rfl
  have two : Step (join ⟨started.commons, []⟩ (.start ⟨1⟩ .default [] false)) pair :=
    .join ⟨2⟩ .default false (by decide) rfl
  have refused : Step pair pairRefusing := .call rfl _ trivial
  have admissible : (Command.create ⟨1⟩ annReads).Admissible pairRefusing.first.commons.store := by
    refine ⟨by decide, ?_⟩
    unfold RuleStore.HasRoom
    decide +kernel
  have granted : Step pairRefusing pairGranting := .call rfl _ admissible
  exact ((((Relation.ReflTransGen.single one).tail two).tail refused).tail granted).tail (.deliver 1)

theorem agrees_start_of_pairAgreed : started.commons.store.Sound ∧
    started.commons.busDown = false ∧ Relation.ReflTransGen Step ⟨started.commons, []⟩ pairAgreed ∧
    pairAgreed.engine? 1 = some pairAgreed.second ∧
    (∀ change ∈ pairAgreed.second.pending, change.origin = pairAgreed.second.own.id) ∧
    Settings.default.checkTimeout = none ∧
    Settings.default.superadminRole = pairAgreed.second.own.settings.superadminRole ∧
    ∃ reply fresh : Decision,
      ((checkPermission ⟨1⟩ ⟨"clerk", []⟩ mayAnnRead : Act Engine Empty Decision)
        pairAgreed.second).1 = .ok reply ∧
      ((checkPermission ⟨1⟩ ⟨"clerk", []⟩ mayAnnRead : Act Engine Empty Decision)
        ⟨pairAgreed.commons, .start ⟨3⟩ .default [] false, .start⟩).1 = .ok fresh ∧
      reply.Agrees fresh :=
  have sound : started.commons.store.Sound := RuleStore.sound_empty
  have up : started.commons.busDown = false := rfl
  have run := run_pairAgreed
  have present : pairAgreed.engine? 1 = some pairAgreed.second := rfl
  have idle : ∀ change ∈ pairAgreed.second.pending, change.origin = pairAgreed.second.own.id := by
    decide +kernel
  have unlimited : Settings.default.checkTimeout = none := rfl
  have superadmin : Settings.default.superadminRole =
      pairAgreed.second.own.settings.superadminRole := by decide +kernel
  ⟨sound, up, run, present, idle, unlimited, superadmin, agrees_start_of_run sound up run present
    idle ⟨1⟩ ⟨"clerk", []⟩ mayAnnRead ⟨3⟩ unlimited superadmin false⟩

end Pair

end Cluster

end AccessPolicy
