import AccessPolicy.Proofs.Engine.Write

/-!
Upkeep leaves the rules alike: the sweep disables rules that do not count any more, and what else it
does, like synchronising and refreshing, only builds evaluators anew and drops what is cached.
-/
namespace AccessPolicy.Engine

open Act hiding pure bind state

variable {ε : Type} {regime : Regime} {base engine : Engine} {store : RuleStore}
variable {known : Knowledge} {published : TenantId → Prop}

theorem Underway.withStore (underway : Underway regime base store known published engine)
    {after : RuleStore} (sound : after.Sound) (alike : RuleStore.Alike base.now store after) :
    Underway regime base after known published (engine.withStore after) :=
  ⟨rfl, underway.fixed, sound, underway.tracks.alike fun tenant _ => alike tenant,
    underway.recollects, underway.paced, underway.announces⟩

theorem Underway.narrowed (underway : Underway regime base store known published engine)
    {cache : DecisionCache} (narrows : cache.backend.Narrows engine.own.cache.backend) :
    Underway regime base store known published (engine.withCache cache) :=
  underway.withCache fun cached => ⟨narrows.available.trans (underway.recollects cached).available,
    (underway.recollects cached).recalls.of_narrows narrows⟩

section Expiry

/-- The row under the rule's id is like the disabled rule. -/
def Expirable (store : RuleStore) (now : Instant) (rule : Rule) : Prop :=
  rule.closes ∧ ∃ stored, store.rows.get? stored.id = some stored ∧
    stored.Alike now (disabled rule now)

theorem Expirable.putRow {now : Instant} {rule other : Rule} (expirable : Expirable store now rule)
    (also : Expirable store now other) :
    Expirable (store.putRow (disabled rule now)) now other := by
  obtain ⟨_, stored, present, alike⟩ := expirable
  obtain ⟨closing, kept, found, like⟩ := also
  refine ⟨closing, ?_⟩
  by_cases same : kept.id = (disabled rule now).id
  · rw [same, ← alike.id, present] at found
    cases found
    refine ⟨disabled rule now, ?_, alike.symm.trans like⟩
    rw [RuleStore.putRow, Table.get?_put_self]
  · refine ⟨kept, ?_, like⟩
    rw [RuleStore.putRow, Table.get?_put_of_ne _ _ same]
    exact found

theorem ensures_disableEach (underway : Underway regime base store known published engine)
    {rules : List Rule} (expirable : ∀ rule ∈ rules, Expirable store base.now rule) :
    Ensures (disableEach base.now rules : Act Engine ε (List Rule)) engine (fun _ after =>
      ∃ final, Underway regime base final known published after ∧
        RuleStore.Alike base.now store final) := by
  induction rules generalizing engine store with
  | nil => exact leads_pure ⟨store, underway, .refl _ _⟩
  | cons rule rest ih =>
    have head := expirable rule (by simp)
    have tail (other : Rule) (member : other ∈ rest) := expirable other (List.mem_cons_of_mem _ member)
    refine leads_bind (leads_attempt ((leads_onStore _ engine).mono ?_ ?_ fun _ h => h))
    · rintro _ _ ⟨updated, rfl⟩
      obtain ⟨after, _⟩ := RuleStore.update_eq_ok updated
      rw [underway.stored] at after
      rw [underway.stored, after]
      obtain ⟨_, stored, present, alike⟩ := expirable rule (by simp)
      have closing : (disabled rule base.now).closes := head.1
      have alike (tenant : TenantId) := underway.sound.alike_putRow present alike closing tenant
      have kept := underway.withStore (RuleStore.sound_putRow underway.sound closing) alike
      refine (ih kept fun other member => head.putRow (tail other member)).bind ?_
      rintro others last ⟨final, kept, later⟩
      exact leads_pure ⟨final, kept, RuleStore.Alike.trans alike later⟩
    · rintro cause _ ⟨refused, rfl⟩
      rw [RuleStore.update_eq_error refused]
      refine (ih underway tail).bind ?_
      rintro others last ⟨final, kept, later⟩
      exact leads_pure ⟨final, kept, later⟩

theorem ensures_settleExpiry (underway : Underway regime base store known published engine)
    (leisure : ¬ regime.hurried) (tenant : TenantId) :
    Ensures (settleExpiry tenant : Act Engine ε Unit) engine (fun _ => Underway regime base store
      known (fun other => published other ∨ other = tenant)) := by
  have reloaded := (yields_reload underway.store_sound underway.attends tenant).ensures leisure
  have carried : Ensures (carry tenant (reload tenant) : Act Engine ε Unit) engine
      (fun _ => Underway regime base store known published) := by
    refine reloaded.attempt.bind ?_
    rintro _ after ⟨_, rfl, _, attends⟩
    exact leads_pure (underway.of_attends attends)
  refine carried.bind fun _ _ kept => ?_
  refine (ensures_broadcast kept tenant .rulesExpired).bind fun _ _ kept => ?_
  exact leads_bind (leads_onCache (leads_pure
    (kept.narrowed (DecisionCache.invalidateTenant_narrows _ _))))

theorem ensures_settleExpiries (underway : Underway regime base store known published engine)
    (leisure : ¬ regime.hurried) (tenants : List TenantId) :
    Ensures (settleExpiries tenants : Act Engine ε Unit) engine (fun _ after =>
      ∃ published, Underway regime base store known published after) := by
  induction tenants generalizing engine published with
  | nil => exact leads_pure ⟨published, underway⟩
  | cons tenant rest ih =>
    exact (ensures_settleExpiry underway leisure tenant).bind fun _ _ kept => ih kept

end Expiry

section Commands

variable (coherent : Coherent regime base) (leisure : ¬ regime.hurried)
include coherent leisure

theorem settles_expire : Ensures expire base (fun _ => Settles regime base) := by
  have start := coherent.underway
  refine leads_read ?_
  have found := yields_find coherent.sound start.attends { RuleFilter.allTenants with
    temporary := some true
    status := some .enabled }
  refine ((found.ensures leisure).mapError _).bind ?_
  rintro candidates engine ⟨found, attends⟩
  have kept := start.of_attends attends
  have expirable (rule : Rule) (member : rule ∈ candidates.filter (·.isLapsed base.now)) :
      Expirable base.commons.store base.now rule := by
    obtain ⟨listed, lapsed⟩ := List.mem_filter.mp member
    rw [found] at listed
    obtain ⟨⟨id, row⟩, present, rfl⟩ := List.mem_map.mp (List.mem_filter.mp listed).1
    have row_found := (Table.mem_iff_get? coherent.sound.ordered).mp present
    have named : row.id = id := coherent.sound.keyed id row row_found
    exact ⟨coherent.sound.closing id row row_found, row, named ▸ row_found,
      RuleStore.alike_disabled lapsed⟩
  refine (ensures_disableEach kept expirable).bind ?_
  rintro expired _ ⟨final, kept, alike⟩
  refine (ensures_settleExpiries kept leisure _).bind ?_
  rintro _ _ ⟨published, kept⟩
  exact leads_pure (kept.alike_settles alike)

theorem settles_sync (tenant : TenantId) (service : Option String) (force : Bool) :
    Ensures (sync tenant service force) base (fun _ => Settles regime base) := by
  have start := coherent.underway
  have reloaded : Ensures (if force then (reload tenant).mapError ServiceError.evaluator
      else Pure.pure false) base (fun _ => Underway regime base base.commons.store
        (Lasts regime.current base.commons.store.law base.now) (fun _ => False)) := by
    split
    · refine ((yields_reload coherent.sound start.attends tenant).ensures leisure).mapError _ |>.mono ?_
      exact fun _ _ ends => start.of_attends ends.2
    · exact leads_pure start
  refine leads_either reloaded fun reloaded engine kept => ?_
  refine leads_when (fun _ => ?_) (fun _ => kept) fun engine kept => leads_read ?_
  · refine ((yields_evaluator kept.store_sound kept.attends tenant).ensures leisure).mapError _ |>.mono ?_
    exact fun _ _ ends => kept.of_attends ends.2
  have found := yields_find kept.store_sound kept.attends { RuleFilter.ofTenant tenant with
    service := service
    activeAt := some engine.now }
  refine ((found.ensures leisure).mapError _).bind fun active engine ends => ?_
  have kept := kept.of_attends ends.2
  refine leads_bind (leads_onCache ?_)
  have narrowed := kept.narrowed (DecisionCache.invalidate_narrows engine.own.cache tenant service)
  refine leads_when (fun _ => ?_) (fun _ => narrowed.unchanged_settles) fun _ settles =>
    leads_pure settles
  exact (ensures_broadcast narrowed tenant .forceSync).mono fun _ _ kept => kept.unchanged_settles

theorem settles_summary (tenant : TenantId) (user : String) (service : Option String)
    (inherited : Bool) :
    Ensures (summary tenant user service inherited) base (fun _ => Settles regime base) := by
  have asked := (yields_ask coherent.sound coherent.attends tenant
    (·.permissionsOf user service inherited)).ensures leisure
  refine (asked.mapError _).bind fun _ _ ends => ?_
  exact leads_pure (coherent.underway.of_attends ends.2).unchanged_settles

theorem settles_refresh (tenant : TenantId) (type : CacheType) (service : Option String) :
    Ensures (refresh tenant type service : Act Engine ε RefreshReport) base
      (fun _ => Settles regime base) := by
  have start := coherent.underway
  have cleared : Ensures (if type = .rule then Pure.pure 0
      else onCache (fun cache => cache.invalidate tenant service) : Act Engine ε Nat) base
      (fun _ => Underway regime base base.commons.store
        (Lasts regime.current base.commons.store.law base.now) (fun _ => False)) := by
    split
    · exact leads_pure start
    · exact leads_onCache (start.narrowed (DecisionCache.invalidate_narrows _ _ _))
  have reloaded (engine : Engine) (kept : Underway regime base base.commons.store
      (Lasts regime.current base.commons.store.law base.now) (fun _ => False) engine) :
      Ensures (if type = .decision then Pure.pure (.ok false) else (reload tenant).attempt :
        Act Engine ε (Except EvaluatorError Bool)) engine (fun _ => Settles regime base) := by
    split
    · exact leads_pure kept.unchanged_settles
    · refine ((yields_reload kept.store_sound kept.attends tenant).ensures leisure).attempt.mono ?_
      rintro _ _ ⟨_, rfl, _, attends⟩
      exact (kept.of_attends attends).unchanged_settles
  refine leads_either cleared fun cleared engine kept => ?_
  refine leads_either (reloaded engine kept) fun reloaded engine settles => ?_
  cases reloaded with
  | ok flag => exact leads_pure settles
  | error fault => exact leads_pure settles

theorem settles_validate (tenant : TenantId) (rule : Rule) (conflicts : Bool) :
    Ensures (validate tenant rule conflicts) base (fun _ => Settles regime base) :=
  (ensures_validate coherent.underway leisure tenant rule conflicts).mono fun _ _ kept =>
    kept.unchanged_settles

end Commands

end AccessPolicy.Engine
