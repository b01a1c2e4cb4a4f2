import AccessPolicy.Proofs.Engine.Sync

/-!
Writes. Between its commit and its end a write goes through states in which the evaluators follow
the new rules and the cache still recalls the old ones; what it drops from the cache is what the
changed rules can concern, so that what is left lasts by the new rules.
-/
namespace AccessPolicy

/-- What is known, of answers that the changed rules do not concern. -/
def Spares (current : TenantId → Prop) (laws : TenantId → List Rule) (now : Instant)
    (changed : List Rule) (known : Knowledge) : Knowledge :=
  fun tenant subject bound answer => known tenant subject bound answer ∧
    (current tenant → ∀ rule ∈ changed, rule.tenant = tenant →
      ¬ rule.Concerns ((Evaluator.exact (laws tenant) now).Reaches .roles subject))

/-- Answers that the changed rules do not concern last by the new rules. -/
theorem Lasts.of_spares {current : TenantId → Prop} {laws others : TenantId → List Rule}
    {now : Instant} {changed : List Rule} {tenant : TenantId} {subject : String}
    {bound : Option Instant} {answer : Evaluator → Prop}
    (shared : Evaluator.LocalTo subject answer) (differ : Differ changed laws others)
    (spares : Spares current others now changed (Lasts current laws now) tenant subject bound answer) :
    Lasts current others now tenant subject bound answer := by
  obtain ⟨lasts, spared⟩ := spares
  intro member
  refine (lasts member).untouched shared (fun rule old absent => ?_) (fun rule new absent => ?_)
  · obtain ⟨listed, owned⟩ := differ tenant rule fun same => absent (same.mp old)
    exact spared member rule listed owned
  · obtain ⟨listed, owned⟩ := differ tenant rule fun same => absent (same.mpr new)
    exact spared member rule listed owned

namespace Engine

open Act hiding pure bind state

/-- A call that began at an earlier state is under way: the evaluators follow the rules stored now,
something is known of the cache, and changes of some tenants are published. -/
structure Underway (regime : Regime) (base : Engine) (store : RuleStore) (known : Knowledge)
    (published : TenantId → Prop) (engine : Engine) : Prop where
  stored : engine.commons.store = store
  fixed : engine.fixed = base.fixed
  sound : store.Sound
  tracks : Tracks regime.current store.law base.now engine.own.evaluators
  recollects : regime.cached → Recollects engine.own regime.enriched regime.stale known
  paced : Paced regime engine.timing
  announces : Announces base engine published

variable {ε : Type} {regime : Regime} {base engine : Engine} {store : RuleStore}
variable {known less : Knowledge} {published : TenantId → Prop} {tenant : TenantId} {rule : Rule}

theorem Coherent.underway (coherent : Coherent regime base) :
    Underway regime base base.commons.store (Lasts regime.current base.commons.store.law base.now)
      (fun _ => False) base :=
  ⟨rfl, rfl, coherent.sound, coherent.tracks, coherent.recollects, coherent.paced, announces_refl base⟩

namespace Underway

variable (underway : Underway regime base store known published engine)
include underway

theorem now : engine.now = base.now :=
  congrArg Fixed.now underway.fixed

theorem attends : Attends regime engine engine where
  evolves := ⟨engine.own.evaluators, engine.timing, rfl⟩
  tracks := by
    rw [underway.stored, underway.now]
    exact underway.tracks
  paced := underway.paced

theorem of_attends {after : Engine} (attends : Attends regime engine after) :
    Underway regime base store known published after := by
  have tracks := attends.tracks
  rw [underway.stored, underway.now] at tracks
  have paced := attends.paced
  obtain ⟨evaluators, timing, rfl⟩ := attends.evolves
  exact ⟨underway.stored, underway.fixed, underway.sound, tracks,
    fun cached => (underway.recollects cached).of_cache_eq rfl rfl, paced, underway.announces⟩

theorem store_sound : engine.commons.store.Sound :=
  underway.stored ▸ underway.sound

theorem withCache {cache : DecisionCache}
    (keeps : regime.cached → cache.backend.available = true ∧
      cache.Recalls (Enricher.adds engine.own.enrichers) regime.stale less) :
    Underway regime base store less published (engine.withCache cache) :=
  ⟨underway.stored, underway.fixed, underway.sound, underway.tracks,
    fun cached => ⟨(underway.recollects cached).enrichers, (keeps cached).1, (keeps cached).2⟩,
    underway.paced, underway.announces⟩

theorem weaken (weaken : ∀ tenant subject bound answer, Evaluator.LocalTo subject answer →
    known tenant subject bound answer → less tenant subject bound answer) :
    Underway regime base store less published engine :=
  ⟨underway.stored, underway.fixed, underway.sound, underway.tracks,
    fun cached => (underway.recollects cached).weaken weaken, underway.paced, underway.announces⟩

theorem tracks_without {changed : List Rule} {after : RuleStore} (tenant : TenantId)
    (differ : Differ changed store.law after.law) (owned : ∀ rule ∈ changed, rule.tenant = tenant) :
    Tracks (Without regime.current tenant) after.law engine.now engine.own.evaluators := by
  rw [underway.now]
  refine (underway.tracks.without tenant).alike fun other member => ?_
  exact differ.alike base.now fun rule listed same => member.2 (same.symm.trans (owned rule listed))

theorem heeds (tenant : TenantId) : Heeds regime.current engine tenant (store.law tenant) := by
  intro member evaluator present
  rw [underway.now]
  exact underway.tracks tenant member evaluator present

theorem spares_nil (laws : TenantId → List Rule) (now : Instant) : Underway regime base store
    (Spares regime.current laws now [] known) published engine :=
  underway.weaken fun _ _ _ _ _ lasts => ⟨lasts, by simp⟩

end Underway

/-- A call ends well when what is still cached is spared by the changes, and they are published. -/
theorem Underway.settles {changed : List Rule}
    (underway : Underway regime base store (Spares regime.current store.law base.now changed
      (Lasts regime.current base.commons.store.law base.now)) published engine)
    (differ : Differ changed base.commons.store.law store.law)
    (announced : ∀ rule ∈ changed, published rule.tenant) : Settles regime base engine := by
  refine ⟨coherent_of underway.store_sound ?_ (fun cached => ?_) underway.paced, underway.fixed,
    published, underway.announces, fun tenant => ?_⟩
  · exact underway.attends.tracks
  · rw [underway.stored, underway.now]
    exact (underway.recollects cached).weaken
      fun _ _ _ _ shared spares => Lasts.of_spares shared differ spares
  · by_cases told : published tenant
    · exact Or.inl told
    · refine Or.inr ?_
      rw [underway.stored]
      refine differ.alike base.now fun rule member owned => told ?_
      exact owned ▸ announced rule member

/-- A call that leaves the rules alike ends well, whatever it publishes. -/
theorem Underway.alike_settles (underway : Underway regime base store
      (Lasts regime.current base.commons.store.law base.now) published engine)
    (alike : RuleStore.Alike base.now base.commons.store store) : Settles regime base engine := by
  refine ⟨coherent_of underway.store_sound underway.attends.tracks (fun cached => ?_) underway.paced,
    underway.fixed, published, underway.announces, fun tenant => Or.inr ?_⟩
  · rw [underway.stored, underway.now]
    exact (underway.recollects cached).alike fun tenant _ => alike tenant
  · rw [underway.stored]
    exact alike tenant

theorem Underway.unchanged_settles (underway : Underway regime base base.commons.store
    (Lasts regime.current base.commons.store.law base.now) published engine) :
    Settles regime base engine :=
  underway.alike_settles (.refl _ _)

section Steps

/-- A change of the tenant is published, unless the bus is down. -/
theorem ensures_broadcast (underway : Underway regime base store known published engine)
    (tenant : TenantId) (reason : ChangeReason) :
    Ensures (broadcast tenant reason : Act Engine ε Unit) engine (fun _ => Underway regime base store
      known (fun other => published other ∨ other = tenant)) := by
  refine leads_bind (leads_attempt (leads_read ?_))
  have busDown : engine.commons.busDown = base.commons.busDown :=
    congrArg Fixed.busDown underway.fixed
  have id : engine.own.id = base.own.id := congrArg Fixed.id underway.fixed
  split
  · rename_i down
    refine leads_fail (leads_pure ⟨underway.stored, underway.fixed, underway.sound, underway.tracks,
      underway.recollects, underway.paced, fun up => ?_⟩)
    rw [busDown, up] at down
    cases down
  · refine leads_modify (leads_pure ⟨underway.stored, underway.fixed, underway.sound, underway.tracks,
      underway.recollects, underway.paced, fun up => ?_⟩)
    obtain ⟨changes, bus, mine, told⟩ := underway.announces up
    refine ⟨changes ++ [⟨engine.own.id, some tenant, reason⟩], ?_, ?_, ?_⟩
    · rw [List.foldl_append, ← bus]
      rfl
    · intro change member
      rcases List.mem_append.mp member with old | new
      · exact mine change old
      · rw [List.mem_singleton.mp new]
        exact id
    · rintro other (before | rfl)
      · obtain ⟨change, member, named⟩ := told other before
        exact ⟨change, List.mem_append_left _ member, named⟩
      · exact ⟨_, List.mem_append_right _ (List.mem_singleton.mpr rfl), rfl⟩

theorem mem_dependents_iff {evaluator : Evaluator} {subject name : String} :
    name ∈ subject :: evaluator.dependentsOf subject ↔ evaluator.Reaches .roles name subject := by
  rw [Evaluator.dependentsOf, Hierarchy.mem_cons_reach_iff, Hierarchy.reaches_reverse_iff]
  rfl

/-- What is still cached after a rule's subjects are invalidated is not concerned by the rule. -/
theorem ensures_invalidateFor {changed : List Rule} (underway : Underway regime base store
      (Spares regime.current store.law base.now changed known) published engine)
    (leisure : ¬ regime.hurried) (rule : Rule) :
    Ensures (invalidateFor rule : Act Engine ε Unit) engine (fun _ => Underway regime base store
      (Spares regime.current store.law base.now (rule :: changed) known) published) := by
  have wholly {after : Engine} (kept : Underway regime base store
      (Spares regime.current store.law base.now changed known) published after) :
      Underway regime base store (Spares regime.current store.law base.now (rule :: changed) known)
        published (after.withCache (after.own.cache.invalidateTenant rule.tenant).2) := by
    refine kept.withCache fun cached => ?_
    have recollects := kept.recollects cached
    refine ⟨(DecisionCache.invalidateTenant_narrows ..).available.trans recollects.available, ?_⟩
    refine (recollects.recalls.invalidateTenant recollects.available rule.tenant).weaken ?_
    rintro owner subject bound answer _ ⟨⟨lasts, spared⟩, different⟩
    refine ⟨lasts, fun member other listed owned => ?_⟩
    rcases List.mem_cons.mp listed with rfl | later
    · exact absurd owned.symm different
    · exact spared member other later owned
  unfold invalidateFor
  cases affected : affectedSubject? rule with
  | none => exact leads_bind (leads_onCache (leads_pure (wholly underway)))
  | some subject =>
    have asked := (yields_ask underway.store_sound underway.attends rule.tenant
      (fun evaluator => subject :: evaluator.dependentsOf subject)).ensures leisure
    refine asked.attempt.bind ?_
    rintro _ after ⟨_, rfl, ⟨evaluator, rfl, renders⟩, attends⟩
    have kept := underway.of_attends attends
    rw [underway.stored, underway.now] at renders
    refine leads_bind (leads_onCache (leads_pure ?_))
    refine kept.withCache fun cached => ?_
    have recollects := kept.recollects cached
    refine ⟨(DecisionCache.invalidateSubjects_narrows ..).available.trans recollects.available, ?_⟩
    refine (recollects.recalls.invalidateSubjects recollects.available rule.tenant _).weaken ?_
    rintro owner name bound answer _ ⟨⟨lasts, spared⟩, apart⟩
    refine ⟨lasts, fun member other listed owned => ?_⟩
    rcases List.mem_cons.mp listed with rfl | later
    · intro concerns
      refine apart ⟨owned.symm, mem_dependents_iff.mpr ?_⟩
      subst owned
      -- The dependents are asked of an evaluator that renders the rules stored now.
      have agree := (renders member).mirrors.agree
        (Evaluator.mirrors_exact (store.law other.tenant) base.now)
      exact ((agree _).reaches subject).mpr (concerns subject affected)
    · exact spared member other later owned

theorem ensures_invalidateEach {changed : List Rule} (underway : Underway regime base store
      (Spares regime.current store.law base.now changed known) published engine)
    (leisure : ¬ regime.hurried) (rules : List Rule) :
    Ensures (invalidateEach rules : Act Engine ε Unit) engine (fun _ => Underway regime base store
      (Spares regime.current store.law base.now (rules ++ changed) known) published) := by
  induction rules generalizing engine changed with
  | nil => exact leads_pure underway
  | cons rule rest ih =>
    refine (ensures_invalidateFor underway leisure rule).bind fun _ after kept => ?_
    refine (ih kept).mono fun _ final kept => kept.weaken ?_
    rintro tenant subject bound answer _ ⟨lasts, spared⟩
    refine ⟨lasts, fun member other listed => spared member other ?_⟩
    simp only [List.mem_append, List.mem_cons] at listed ⊢
    rcases listed with (same | later) | before
    · exact Or.inr (Or.inl same)
    · exact Or.inl later
    · exact Or.inr (Or.inr before)

theorem leads_onStore {α : Type} (step : RuleStore → Except StoreError α × RuleStore)
    (engine : Engine) : Leads (onStore step) engine
      (fun value after => step engine.commons.store = (.ok value, (step engine.commons.store).2) ∧
        after = engine.withStore (step engine.commons.store).2)
      (fun cause after => step engine.commons.store = (.error cause, (step engine.commons.store).2) ∧
        after = engine.withStore (step engine.commons.store).2) (fun _ => False) := by
  unfold Leads onStore
  obtain ⟨result, store⟩ := step engine.commons.store
  cases result with
  | ok value => exact ⟨rfl, rfl⟩
  | error cause => exact ⟨rfl, rfl⟩

/-- A commit is carried into the evaluators; one that cannot follow is dropped. -/
theorem ensures_carry (underway : Underway regime base store known published engine)
    {after : RuleStore} (sound : after.Sound) {change : Act Engine EvaluatorError Bool}
    (leads : Leads change (engine.withStore after)
      (fun _ => Carried regime.current after.law (engine.withStore after))
      (fun _ => Carried (Without regime.current tenant) after.law (engine.withStore after))
      (fun _ => False)) :
    Ensures (carry tenant change : Act Engine ε Unit) (engine.withStore after)
      (fun _ => Underway regime base after known published) := by
  have carried {final : Engine} (kept : Carried regime.current after.law (engine.withStore after) final) :
      Underway regime base after known published final := by
    obtain ⟨evaluators, rfl, tracks⟩ := kept
    have now : (engine.withStore after).now = base.now := underway.now
    rw [now] at tracks
    exact ⟨rfl, underway.fixed, sound, tracks,
      fun cached => (underway.recollects cached).of_cache_eq rfl rfl, underway.paced,
      underway.announces⟩
  refine leads_bind (leads_attempt (leads.mono ?_ ?_ fun _ impossible => impossible))
  · exact fun _ final kept => leads_pure (carried kept)
  · rintro _ _ ⟨evaluators, rfl, tracks⟩
    exact leads_bind (leads_read (leads_bind (leads_modify (leads_pure
      (leads_pure (carried ⟨_, rfl, tracks.erase⟩))))))

theorem leads_requireTenant (tenant : TenantId) (rule : Rule) (engine : Engine) :
    Leads (requireTenant tenant rule) engine (fun _ after => after = engine ∧ rule.tenant = tenant)
      (fun _ after => after = engine) (fun _ => False) := by
  unfold requireTenant
  split
  · rename_i owned
    exact leads_pure ⟨rfl, owned⟩
  · exact leads_fail rfl

theorem ensures_validate (underway : Underway regime base store known published engine)
    (leisure : ¬ regime.hurried) (tenant : TenantId) (rule : Rule) (conflicts : Bool) :
    Ensures (validate tenant rule conflicts) engine
      (fun _ => Underway regime base store known published) := by
  refine leads_read ?_
  split
  · have found := yields_find underway.store_sound underway.attends
      { RuleFilter.ofTenant tenant with service := some rule.service }
    refine ((found.ensures leisure).mapError _).bind fun _ _ ends => ?_
    exact leads_pure (underway.of_attends ends.2)
  · exact leads_pure underway

theorem leads_requireValid (underway : Underway regime base store known published engine)
    (leisure : ¬ regime.hurried) (tenant : TenantId) (rule : Rule) :
    Leads (requireValid tenant rule) engine (fun _ => Underway regime base store known published)
      (fun _ => Underway regime base store known published) (fun _ => False) := by
  refine (ensures_validate underway leisure tenant rule true).bind fun report after kept => ?_
  split
  · exact leads_pure kept
  · exact leads_fail kept

theorem leads_load (tenant : TenantId) (id : RuleId) (engine : Engine) :
    Leads (load tenant id) engine
      (fun rule after => after = engine ∧ engine.commons.store.rows.get? id = some rule ∧
        rule.tenant = tenant) (fun _ after => after = engine) (fun _ => False) := by
  refine leads_bind (leads_mapError ((leads_onStore _ engine).mono ?_ ?_ fun _ h => h))
  · rintro found _ ⟨found_eq, rfl⟩
    simp only [Prod.mk.injEq, and_true] at found_eq
    cases found with
    | some rule => exact leads_pure ⟨rfl, RuleStore.get_eq_some found_eq⟩
    | none => exact leads_fail rfl
  · rintro _ _ ⟨_, rfl⟩
    rfl

end Steps

section Commands

variable (coherent : Coherent regime base) (leisure : ¬ regime.hurried)
include coherent leisure

theorem settles_create (closing : rule.closes) (room : base.commons.store.HasRoom) :
    Leads (create tenant rule) base (fun _ => Settles regime base) (fun _ => Settles regime base)
      (fun _ => False) := by
  have start := coherent.underway
  refine Leads.bind (leads_requireTenant tenant rule base) ?_ ?_ fun _ h => h
  · intro _ _ ⟨same, _⟩
    rw [same]
    refine Leads.bind (leads_requireValid start leisure tenant rule) ?_
      (fun _ _ kept => kept.unchanged_settles) fun _ h => h
    intro _ engine kept
    refine leads_read ?_
    refine leads_bind (leads_mapError ((leads_onStore _ engine).mono ?_ ?_ fun _ h => h))
    · rintro stored _ ⟨inserted, rfl⟩
      obtain ⟨named, after⟩ := RuleStore.insert_eq_ok inserted
      rw [kept.stored] at named after
      rw [kept.stored, after]
      have closing : stored.closes := by rw [named]; exact closing
      have room : base.commons.store.rows.get? stored.id = none := by rw [named]; exact room
      have sound := (RuleStore.sound_putRow kept.sound closing).withNextId
        ⟨base.commons.store.nextId.value + 1⟩
      have differ := kept.sound.differ_insert closing room
      refine (ensures_carry kept sound (leads_addRule closing
        (kept.tracks_without stored.tenant differ (by simp)) (kept.heeds stored.tenant) ?_)).bind ?_
      · intro other
        exact (kept.sound.mem_law_insert closing room).trans (by simp)
      intro _ _ kept
      refine (ensures_broadcast kept stored.tenant .ruleCreated).bind fun _ _ kept => ?_
      refine (ensures_invalidateFor (kept.spares_nil _ _) leisure stored).bind fun _ _ kept => ?_
      exact leads_pure (kept.settles differ (by simp))
    · rintro cause _ ⟨refused, rfl⟩
      rw [RuleStore.insert_eq_error refused]
      exact kept.unchanged_settles
  · intro _ _ same
    exact same ▸ start.unchanged_settles

omit coherent in
theorem settles_replace {previous current : Rule} (closing : current.closes)
    (present : base.commons.store.rows.get? previous.id = some previous)
    (same : current.id = previous.id) (owned : current.tenant = previous.tenant)
    (kept : Underway regime base base.commons.store
      (Lasts regime.current base.commons.store.law base.now) published engine)
    (reason : ChangeReason) :
    Leads (replace previous current reason) engine (fun _ => Settles regime base)
      (fun _ => Settles regime base) (fun _ => False) := by
  refine leads_bind (leads_mapError ((leads_onStore _ engine).mono ?_ ?_ fun _ h => h))
  · rintro _ _ ⟨updated, rfl⟩
    obtain ⟨after, _⟩ := RuleStore.update_eq_ok updated
    rw [kept.stored] at after
    rw [kept.stored, after]
    have sound := RuleStore.sound_putRow kept.sound closing
    have differ := kept.sound.differ_replace closing present same
    have tenants : ∀ rule ∈ [current, previous], rule.tenant = current.tenant := by
      simp [owned]
    refine (ensures_carry kept sound (leads_replaceRule closing
      (kept.tracks_without current.tenant differ tenants) (kept.heeds current.tenant)
      (fun one member other => kept.sound.single member) ?_)).bind ?_
    · intro other
      rw [kept.sound.mem_law_putRow closing, same]
      simp
    intro _ _ kept
    refine (ensures_broadcast kept current.tenant reason).bind fun _ _ kept => ?_
    refine (ensures_invalidateFor (kept.spares_nil _ _) leisure previous).bind fun _ _ kept => ?_
    refine (ensures_invalidateFor kept leisure current).bind fun _ _ kept => ?_
    exact leads_pure (kept.settles differ fun rule member => Or.inr (tenants rule member))
  · rintro cause _ ⟨refused, rfl⟩
    rw [RuleStore.update_eq_error refused]
    exact kept.unchanged_settles

theorem settles_update (closing : rule.closes) :
    Leads (update tenant rule) base (fun _ => Settles regime base) (fun _ => Settles regime base)
      (fun _ => False) := by
  have start := coherent.underway
  have settled := start.unchanged_settles
  refine Leads.bind (leads_requireTenant tenant rule base) ?_ (fun _ _ same => same ▸ settled)
    fun _ h => h
  intro _ _ ⟨same, owned⟩
  rw [same]
  refine Leads.bind (leads_load tenant rule.id base) ?_ (fun _ _ same => same ▸ settled) fun _ h => h
  intro previous _ ⟨same, present, mine⟩
  rw [same]
  refine Leads.bind (leads_requireValid start leisure tenant rule) ?_
    (fun _ _ kept => kept.unchanged_settles) fun _ h => h
  intro _ engine kept
  have named : previous.id = rule.id := coherent.sound.keyed rule.id previous present
  refine leads_read ?_
  refine settles_replace leisure ?_ ?_ ?_ ?_ kept .ruleUpdated
  · exact closing
  · rw [named]
    exact present
  · exact named.symm
  · exact owned.trans mine.symm

/-- An approval or a rejection changes neither whose rule it is nor its window. -/
theorem settles_decideApproval (id : RuleId) (approver : Principal)
    (decided : Rule → String → Instant → Rule) (reason : ChangeReason)
    (same : ∀ rule name now, (decided rule name now).id = rule.id ∧
      (decided rule name now).tenant = rule.tenant ∧
        (decided rule name now).effectiveTo = rule.effectiveTo) :
    Leads (decideApproval tenant id approver decided reason) base (fun _ => Settles regime base)
      (fun _ => Settles regime base) (fun _ => False) := by
  have start := coherent.underway
  have settled := start.unchanged_settles
  refine Leads.bind (leads_load tenant id base) ?_ (fun _ _ same => same ▸ settled) fun _ h => h
  intro previous _ ⟨unchanged, present, _⟩
  rw [unchanged]
  have named : previous.id = id := coherent.sound.keyed id previous present
  have closing : previous.closes := coherent.sound.closing id previous present
  split
  · refine leads_read ?_
    obtain ⟨same_id, same_tenant, same_window⟩ := same previous approver.id base.now
    refine settles_replace leisure ?_ ?_ same_id same_tenant start reason
    · unfold Rule.closes at closing ⊢
      rwa [same_window]
    · rwa [named]
  · exact leads_fail settled

omit coherent leisure in
/-- Deleting rules one after the other changes no others. -/
theorem ensures_removeEach (start : Underway regime base store known published engine)
    (tenant : TenantId) (ids : List RuleId) :
    Ensures (removeEach tenant ids : Act Engine ε (List Rule × Option StoreError)) engine
      (fun result after => ∃ final, Underway regime base final known published after ∧
        Differ result.1 store.law final.law ∧ ∀ rule ∈ result.1, rule.tenant = tenant) := by
  induction ids generalizing engine store with
  | nil => exact leads_pure ⟨store, start, .refl _, by simp⟩
  | cons id rest ih =>
    refine leads_bind (leads_attempt ((leads_onStore _ engine).mono ?_ ?_ fun _ h => h))
    · rintro deleted _ ⟨deletes, rfl⟩
      cases deleted with
      | none =>
        rw [RuleStore.delete_eq_of_ne_some deletes (by simp)]
        exact ih start
      | some rule =>
        obtain ⟨after, present, owned⟩ := RuleStore.delete_eq_some deletes
        rw [start.stored] at after present
        rw [start.stored, after]
        have named : rule.id = id := start.sound.keyed id rule present
        subst named owned
        have sound := RuleStore.sound_eraseRow start.sound rule.id
        have differ := start.sound.differ_erase present
        refine (ensures_carry start sound (leads_removeRule
          (start.tracks_without rule.tenant differ (by simp)) (start.heeds rule.tenant)
          (fun one member other => start.sound.single member)
          fun other => start.sound.mem_law_eraseRow)).bind fun _ _ kept => ?_
        refine (ih kept).bind fun result _ ends => ?_
        obtain ⟨final, kept, later, owned⟩ := ends
        refine leads_pure ⟨final, kept, differ.trans later, ?_⟩
        intro other member
        rcases List.mem_cons.mp member with rfl | member
        · rfl
        · exact owned other member
    · rintro cause _ ⟨refused, rfl⟩
      rw [RuleStore.delete_eq_of_ne_some refused (by simp)]
      exact leads_pure ⟨store, start, .refl _, by simp⟩

omit coherent leisure in
theorem leads_failure {α : Type} (settles : Settles regime base engine)
    (failure : Option StoreError) (value : α) :
    Leads (match failure with
      | some fault => Act.fail (.store fault)
      | none => Pure.pure value : Act Engine ServiceError α) engine
      (fun _ => Settles regime base) (fun _ => Settles regime base) (fun _ => False) := by
  cases failure with
  | some fault => exact leads_fail settles
  | none => exact leads_pure settles

theorem settles_delete (tenant : TenantId) (ids : List RuleId) :
    Leads (delete tenant ids) base (fun _ => Settles regime base) (fun _ => Settles regime base)
      (fun _ => False) := by
  refine (ensures_removeEach coherent.underway tenant ids).bind ?_
  rintro ⟨removed, failure⟩ engine ⟨final, kept, differ, owned⟩
  cases removed with
  | nil => exact leads_failure ((kept.spares_nil _ _).settles differ (by simp)) failure _
  | cons rule rest =>
    refine (ensures_broadcast kept tenant .rulesDeleted).bind fun _ _ kept => ?_
    refine (ensures_invalidateEach (kept.spares_nil _ _) leisure (rule :: rest)).bind fun _ _ kept => ?_
    rw [List.append_nil] at kept
    exact leads_failure (kept.settles differ fun rule member => Or.inr (owned rule member)) failure _

end Commands

end Engine

end AccessPolicy
