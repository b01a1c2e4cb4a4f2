import AccessPolicy.Engine.Codec
import AccessPolicy.Proofs.Engine.Run
import AccessPolicy.Proofs.Evaluator.Explanation

/-!
The summary of a user's permissions. Merging splits what is listed into entries of one service,
resource, effect and source each, and loses nothing; sources tell holders apart unless the user has
a role whose name is the word for what the user has itself.
-/
namespace AccessPolicy

namespace PermissionEntry

/-- The entries are of one service, resource, effect and source. -/
structure Together (one other : PermissionEntry) : Prop where
  service : one.service = other.service
  resource : one.resource = other.resource
  effect : one.effect = other.effect
  source : one.source = other.source

section Merging

variable {permissions : List GrantedPermission} {permission : GrantedPermission}

theorem groupOf_eq_iff {one other : GrantedPermission} : groupOf one = groupOf other ↔
    one.service = other.service ∧ one.object = other.object ∧ one.effect = other.effect ∧
      one.source = other.source := by
  simp only [groupOf, List.cons.injEq, and_true]
  constructor
  · rintro ⟨_, source, service, object, effect⟩
    exact ⟨service, object, Evaluator.Effect.text_injective effect, source⟩
  · rintro ⟨service, object, effect, source⟩
    exact ⟨by rw [source], source, service, object, congrArg Effect.text effect⟩

/-- The permissions that are merged with one of them. -/
def fellows (permissions : List GrantedPermission) (permission : GrantedPermission) :
    List GrantedPermission :=
  permissions.filter (fun other => groupOf other = groupOf permission)

theorem mem_fellows_iff {other : GrantedPermission} : other ∈ fellows permissions permission ↔
    other ∈ permissions ∧ groupOf other = groupOf permission := by
  rw [fellows, List.mem_filter, decide_eq_true_eq]

/-- The entry that a permission is merged into. -/
def entryOf (permissions : List GrantedPermission) (permission : GrantedPermission) :
    PermissionEntry where
  service := permission.service
  resource := permission.object
  actions := Ascending.ofList ((fellows permissions permission).map (·.action))
  effect := permission.effect
  source := permission.source
  ruleId := leastRule (fellows permissions permission)

theorem entryOf_congr {other : GrantedPermission} (same : groupOf permission = groupOf other) :
    entryOf permissions permission = entryOf permissions other := by
  have fellows_eq : fellows permissions permission = fellows permissions other := by
    rw [fellows, fellows, same]
  obtain ⟨service, object, effect, source⟩ := groupOf_eq_iff.mp same
  simp only [entryOf, fellows_eq, service, object, effect, source]

/-- Every member of a group stands for it. -/
theorem ofGroup?_fellows (member : permission ∈ permissions) :
    ofGroup? (fellows permissions permission) = some (entryOf permissions permission) := by
  have present : permission ∈ fellows permissions permission :=
    mem_fellows_iff.mpr ⟨member, rfl⟩
  obtain ⟨first, rest, listed⟩ := List.exists_cons_of_ne_nil (List.ne_nil_of_mem present)
  have same : groupOf first = groupOf permission :=
    (mem_fellows_iff.mp (listed ▸ List.mem_cons_self)).2
  rw [← entryOf_congr same, ofGroup?, listed, List.head?_cons, Option.map_some, entryOf]
  have fellows_eq : fellows permissions first = first :: rest := by
    rw [← listed, fellows, fellows, same]
  rw [fellows_eq]

theorem mem_merge_iff {entry : PermissionEntry} : entry ∈ merge permissions ↔
    ∃ permission ∈ permissions, entryOf permissions permission = entry := by
  simp only [merge, List.mem_filterMap, Ascending.mem_ofList_iff, List.mem_map]
  constructor
  · rintro ⟨_, ⟨permission, member, rfl⟩, found⟩
    exact ⟨permission, member, Option.some.inj ((ofGroup?_fellows member).symm.trans found)⟩
  · rintro ⟨permission, member, rfl⟩
    exact ⟨_, ⟨permission, member, rfl⟩, ofGroup?_fellows member⟩

theorem pairwise_merge (permissions : List GrantedPermission) :
    (merge permissions).Pairwise (fun one other => ¬ one.Together other) := by
  rw [merge, List.pairwise_filterMap]
  refine (Ascending.pairwise_ofList (permissions.map groupOf)).imp_of_mem ?_
  intro group groupOther member memberOther before one first other second together
  obtain ⟨permission, present, rfl⟩ := List.mem_map.mp (Ascending.mem_ofList_iff.mp member)
  obtain ⟨permissionOther, presentOther, rfl⟩ :=
    List.mem_map.mp (Ascending.mem_ofList_iff.mp memberOther)
  obtain rfl := Option.some.inj ((ofGroup?_fellows present).symm.trans first)
  obtain rfl := Option.some.inj ((ofGroup?_fellows presentOther).symm.trans second)
  have same : groupOf permission = groupOf permissionOther :=
    groupOf_eq_iff.mpr ⟨together.service, together.resource, together.effect, together.source⟩
  rw [same] at before
  exact Std.Asymm.asymm (r := (· < ·)) _ _ before before

/-- The least of the rules behind permissions, where none of the rules is unassigned. -/
theorem leastRule_spec (ascending : ∀ permission ∈ permissions, permission.ruleIds.Pairwise (· < ·))
    (assigned : ∀ permission ∈ permissions, ∀ id ∈ permission.ruleIds, id.isAssigned = true)
    (some_rule : ∃ permission ∈ permissions, permission.ruleIds ≠ []) :
    (∃ permission ∈ permissions, leastRule permissions ∈ permission.ruleIds) ∧
      ∀ permission ∈ permissions, ∀ id ∈ permission.ruleIds, ¬ id < leastRule permissions := by
  have firsts (id : RuleId) : id ∈ (permissions.filterMap (·.ruleIds.head?)).filter (·.isAssigned) ↔
      ∃ permission ∈ permissions, permission.ruleIds.head? = some id := by
    rw [List.mem_filter, List.mem_filterMap, and_iff_left_of_imp]
    rintro ⟨permission, member, first⟩
    exact assigned permission member id (List.mem_of_head? first)
  have nonempty : (permissions.filterMap (·.ruleIds.head?)).filter (·.isAssigned) ≠ [] := by
    obtain ⟨permission, member, some_id⟩ := some_rule
    obtain ⟨first, rest, listed⟩ := List.exists_cons_of_ne_nil some_id
    exact List.ne_nil_of_mem ((firsts first).mpr ⟨permission, member, by rw [listed]; rfl⟩)
  obtain ⟨least, found⟩ := Ascending.exists_least? nonempty
  have least_eq : leastRule permissions = least := by rw [leastRule, found, Option.getD_some]
  obtain ⟨behind, minimal⟩ := Ascending.least?_eq_some_iff.mp found
  rw [least_eq]
  obtain ⟨permission, member, first⟩ := (firsts least).mp behind
  refine ⟨⟨permission, member, List.mem_of_head? first⟩, fun other memberOther id present below => ?_⟩
  -- The first id of the permission is no greater than the given one, and no less than the least.
  obtain ⟨head, rest, listed⟩ := List.exists_cons_of_ne_nil (List.ne_nil_of_mem present)
  have not_less := minimal head ((firsts head).mpr ⟨other, memberOther, by rw [listed]; rfl⟩)
  have sorted := ascending other memberOther
  rw [listed] at sorted present
  rcases List.mem_cons.mp present with rfl | later
  · exact not_less below
  · exact not_less (Trans.trans (List.rel_of_pairwise_cons sorted later) below)

end Merging

/-- The entry is one for the grant's service, object and effect, and names its holder. -/
structure IsFor (entry : PermissionEntry) (user : String) (grant : Grant) : Prop where
  service : entry.service = grant.service
  resource : entry.resource = grant.object
  effect : entry.effect = grant.effect
  source : entry.source = if grant.subject = user then GrantedPermission.direct else grant.subject

end PermissionEntry

namespace Evaluator

open PermissionEntry

/-- Entries are a lossless partition of the grants that a user's summary is about: those of one
service, object, effect and source share an entry, which has their actions and no other. -/
structure Summarizes (evaluator : Evaluator) (user : String) (service : Option String)
    (inherited : Bool) (entries : List PermissionEntry) : Prop where
  /-- The action of a grant is in the only entry for it. -/
  lists : ∀ grant, evaluator.Shows user service inherited grant → ∃ entry ∈ entries,
    entry.IsFor user grant ∧ grant.action ∈ entry.actions ∧
      ∀ other ∈ entries, other.IsFor user grant → other = entry
  /-- Every entry has an action, and for each of them there is a grant. -/
  backed : ∀ entry ∈ entries, entry.actions ≠ [] ∧ ∀ action ∈ entry.actions, ∃ grant,
    evaluator.Shows user service inherited grant ∧ entry.IsFor user grant ∧ grant.action = action
  ascending : ∀ entry ∈ entries, entry.actions.Pairwise (· < ·)
  apart : entries.Pairwise (fun one other => ¬ one.Together other)
  /-- The rule that an entry names is the least of those that make its grants. -/
  least : ∀ entry ∈ entries,
    (∃ grant, evaluator.Shows user service inherited grant ∧ entry.IsFor user grant ∧
      evaluator.Holds (.grant grant) entry.ruleId) ∧
    ∀ grant id, evaluator.Shows user service inherited grant → entry.IsFor user grant →
      evaluator.Holds (.grant grant) id → ¬ id < entry.ruleId

section Summaries

variable {evaluator : Evaluator} {user : String} {service : Option String} {inherited : Bool}

theorem isFor_entryOf_iff {permissions : List GrantedPermission} {one other : Grant} :
    (entryOf permissions (evaluator.entryFor user one)).IsFor user other ↔
      groupOf (evaluator.entryFor user one) = groupOf (evaluator.entryFor user other) := by
  rw [groupOf_eq_iff]
  constructor
  · rintro ⟨service, resource, effect, source⟩
    exact ⟨service, resource, effect, source⟩
  · rintro ⟨service, object, effect, source⟩
    exact ⟨service, object, effect, source⟩

/-- The permissions that are merged are those of the grants that the entry is for. -/
theorem mem_fellows_permissionsOf_iff {grant : Grant} {permission : GrantedPermission} :
    permission ∈ fellows (evaluator.permissionsOf user service inherited)
        (evaluator.entryFor user grant) ↔
      ∃ other, evaluator.Shows user service inherited other ∧
        (entryOf (evaluator.permissionsOf user service inherited)
          (evaluator.entryFor user grant)).IsFor user other ∧
        evaluator.entryFor user other = permission := by
  obtain ⟨grants, _, shown, listing⟩ :=
    evaluator.exists_permissionsOf_eq_map user service inherited
  simp only [mem_fellows_iff, isFor_entryOf_iff]
  rw [listing, List.mem_map]
  constructor
  · rintro ⟨⟨other, member, rfl⟩, same⟩
    exact ⟨other, (shown other).mp member, same.symm, rfl⟩
  · rintro ⟨other, shows, same, rfl⟩
    exact ⟨⟨other, (shown other).mpr shows, rfl⟩, same.symm⟩

theorem mem_merge_permissionsOf_iff {entry : PermissionEntry} :
    entry ∈ merge (evaluator.permissionsOf user service inherited) ↔
      ∃ grant, evaluator.Shows user service inherited grant ∧
        entryOf (evaluator.permissionsOf user service inherited)
          (evaluator.entryFor user grant) = entry := by
  obtain ⟨grants, _, shown, listing⟩ :=
    evaluator.exists_permissionsOf_eq_map user service inherited
  rw [mem_merge_iff, listing]
  simp only [List.mem_map, ← shown]
  constructor
  · rintro ⟨_, ⟨grant, member, rfl⟩, same⟩
    exact ⟨grant, member, same⟩
  · rintro ⟨grant, member, same⟩
    exact ⟨_, ⟨grant, member, rfl⟩, same⟩

/-- Merging what is listed loses nothing and adds nothing. -/
theorem summarizes_merge (assigned : ∀ grant id, evaluator.Holds (.grant grant) id →
      id.isAssigned = true) :
    evaluator.Summarizes user service inherited
      (merge (evaluator.permissionsOf user service inherited)) := by
  have fellow {grant : Grant} {permission : GrantedPermission} :=
    @mem_fellows_permissionsOf_iff evaluator user service inherited grant permission
  have self (grant : Grant) : (entryOf (evaluator.permissionsOf user service inherited)
      (evaluator.entryFor user grant)).IsFor user grant := isFor_entryOf_iff.mpr rfl
  refine ⟨fun grant shows => ?_, fun entry member => ?_, fun entry member => ?_,
    pairwise_merge _, fun entry member => ?_⟩
  · refine ⟨_, mem_merge_permissionsOf_iff.mpr ⟨grant, shows, rfl⟩, self grant, ?_, ?_⟩
    · exact Ascending.mem_ofList_iff.mpr
        (List.mem_map.mpr ⟨_, fellow.mpr ⟨grant, shows, self grant, rfl⟩, rfl⟩)
    · intro other member isFor
      obtain ⟨another, _, rfl⟩ := mem_merge_permissionsOf_iff.mp member
      exact entryOf_congr (isFor_entryOf_iff.mp isFor)
  · obtain ⟨grant, shows, rfl⟩ := mem_merge_permissionsOf_iff.mp member
    constructor
    · exact List.ne_nil_of_mem (Ascending.mem_ofList_iff.mpr
        (List.mem_map.mpr ⟨_, fellow.mpr ⟨grant, shows, self grant, rfl⟩, rfl⟩))
    · intro action listed
      obtain ⟨_, present, rfl⟩ := List.mem_map.mp (Ascending.mem_ofList_iff.mp listed)
      obtain ⟨other, showsOther, isFor, rfl⟩ := fellow.mp present
      exact ⟨other, showsOther, isFor, rfl⟩
  · obtain ⟨grant, _, rfl⟩ := mem_merge_permissionsOf_iff.mp member
    exact Ascending.pairwise_ofList _
  · obtain ⟨grant, shows, rfl⟩ := mem_merge_permissionsOf_iff.mp member
    obtain ⟨⟨permission, present, behind⟩, minimal⟩ := @leastRule_spec
      (fellows (evaluator.permissionsOf user service inherited) (evaluator.entryFor user grant))
      (fun permission present => by
        obtain ⟨other, _, _, rfl⟩ := fellow.mp present
        exact pairwise_rulesOf evaluator other)
      (fun permission present id behind => by
        obtain ⟨other, _, _, rfl⟩ := fellow.mp present
        exact assigned other id (mem_rulesOf_iff.mp behind))
      ⟨_, fellow.mpr ⟨grant, shows, self grant, rfl⟩, by
        obtain ⟨id, held⟩ := shows.held
        exact List.ne_nil_of_mem (mem_rulesOf_iff.mpr held)⟩
    obtain ⟨other, showsOther, isFor, rfl⟩ := fellow.mp present
    refine ⟨⟨other, showsOther, isFor, mem_rulesOf_iff.mp behind⟩, ?_⟩
    intro another id showsAnother isForAnother held
    exact minimal _ (fellow.mpr ⟨another, showsAnother, isForAnother, rfl⟩) id
      (mem_rulesOf_iff.mpr held)

end Summaries

/-- The user has no role whose name is the word for what the user has itself. -/
def Unequivocal (evaluator : Evaluator) (user : String) (inherited : Bool) : Prop :=
  inherited = true → user ≠ GrantedPermission.direct →
    ¬ evaluator.Reaches .roles user GrantedPermission.direct

/-- Each entry is of one holder: the user, then its source is `direct`, or else the role that its
source names. No two entries agree on service, resource, effect and holder. -/
structure NamesHolders (evaluator : Evaluator) (user : String) (service : Option String)
    (inherited : Bool) (entries : List PermissionEntry) (holderOf : PermissionEntry → String) :
    Prop where
  holder : ∀ entry ∈ entries, ∀ grant, evaluator.Shows user service inherited grant →
    entry.IsFor user grant → grant.subject = holderOf entry
  direct_iff : ∀ entry ∈ entries,
    (entry.source = GrantedPermission.direct ↔ holderOf entry = user)
  role : ∀ entry ∈ entries, holderOf entry ≠ user → entry.source = holderOf entry
  apart : entries.Pairwise (fun one other => ¬ (one.service = other.service ∧
    one.resource = other.resource ∧ one.effect = other.effect ∧ holderOf one = holderOf other))

/-- Where no role is called `direct`, an entry's source tells whose grants it is for. -/
theorem Summarizes.namesHolders {evaluator : Evaluator} {user : String} {service : Option String}
    {inherited : Bool} {entries : List PermissionEntry}
    (summarizes : evaluator.Summarizes user service inherited entries)
    (plain : evaluator.Unequivocal user inherited) :
    evaluator.NamesHolders user service inherited entries
      (fun entry => if entry.source = GrantedPermission.direct then user else entry.source) := by
  -- The source of an entry is `direct` only for grants that the user has itself.
  have own {entry : PermissionEntry} {grant : Grant}
      (shows : evaluator.Shows user service inherited grant) (isFor : entry.IsFor user grant) :
      entry.source = GrantedPermission.direct ↔ grant.subject = user := by
    rw [isFor.source]
    refine ⟨fun named => ?_, fun same => if_pos same⟩
    split at named
    · assumption
    · rename_i away
      rcases shows.holder with same | ⟨inherits, reached⟩
      · exact same
      · rw [named] at reached away
        exact absurd reached (plain inherits fun same => away same.symm)
  have holder {entry : PermissionEntry} {grant : Grant}
      (shows : evaluator.Shows user service inherited grant) (isFor : entry.IsFor user grant) :
      grant.subject =
        if entry.source = GrantedPermission.direct then user else entry.source := by
    split
    · exact (own shows isFor).mp ‹_›
    · rename_i inheritedSource
      rw [isFor.source, if_neg fun same => inheritedSource ((own shows isFor).mpr same)]
  have exists_grant {entry : PermissionEntry} (member : entry ∈ entries) :
      ∃ grant, evaluator.Shows user service inherited grant ∧ entry.IsFor user grant := by
    obtain ⟨grant, shows, isFor, _⟩ := (summarizes.least entry member).1
    exact ⟨grant, shows, isFor⟩
  refine ⟨fun entry _ grant => holder, fun entry member => ?_, fun entry member => ?_, ?_⟩
  · obtain ⟨grant, shows, isFor⟩ := exists_grant member
    rw [← holder shows isFor]
    exact own shows isFor
  · intro away
    split at away
    · exact absurd rfl away
    · rename_i named
      rw [if_neg named]
  · refine summarizes.apart.imp_of_mem fun member memberOther apart => ?_
    rintro ⟨service, resource, effect, same⟩
    obtain ⟨grant, shows, isFor⟩ := exists_grant member
    obtain ⟨other, showsOther, isForOther⟩ := exists_grant memberOther
    refine apart ⟨service, resource, effect, ?_⟩
    rw [← holder shows isFor, ← holder showsOther isForOther] at same
    rw [isFor.source, isForOther.source, same]

end Evaluator

namespace Engine

open Act hiding pure bind state

variable {engine : Engine}

/-- Where no row is stored under the unassigned id, an evaluator of stored rules names none. -/
theorem isAssigned_of_mirrors {store : RuleStore} (sound : store.Sound)
    (unassigned : store.rows.get? .unassigned = none) {tenant : TenantId} {now : Instant}
    {evaluator : Evaluator} (mirrors : evaluator.Mirrors (store.law tenant) now)
    {compiled : Compiled} {id : RuleId} (held : evaluator.Holds compiled id) :
    id.isAssigned = true := by
  obtain ⟨rule, member, _, _, rfl⟩ := (mirrors.holds_iff compiled id).mp held
  have stored := (sound.mem_law_iff.mp member).1
  rw [RuleId.isAssigned, decide_eq_true_eq]
  intro same
  rw [same, unassigned] at stored
  cases stored

/-- A coherent engine sums up what an evaluator of the stored rules lists. -/
theorem Coherent.summary_eq (coherent : Coherent (Regime.steady False) engine) {tenant : TenantId}
    {reference : Evaluator}
    (mirrors : reference.Mirrors (engine.commons.store.law tenant) engine.now) (user : String)
    (service : Option String) (inherited : Bool) :
    (summary tenant user service inherited engine.newCall).1 =
      .ok (PermissionEntry.merge (reference.permissionsOf user service inherited)) := by
  obtain ⟨evaluator, renders, listed⟩ := coherent.asked tenant
    (·.permissionsOf user service inherited)
  rw [renders.mirrors.permissionsOf_eq mirrors] at listed
  rw [summary, bind_pure_apply, mapError_apply, permissionsOf, listed]
  rfl

/-- In every state of a run a user's summary is a lossless partition of what the stored rules grant
the user, and where no role is called `direct` it tells the holders apart. Its count is the number of
its entries. -/
theorem summary_lossless_of_run {commons : Commons} (sound : commons.store.Sound) {id : Uuid}
    {settings : Settings} {enrichers : Table String Enricher} {auditing : Bool}
    (run : Relation.ReflTransGen (Step True)
      ⟨commons, Replica.start id settings enrichers auditing, .start⟩ engine)
    (unassigned : engine.commons.store.rows.get? .unassigned = none) (tenant : TenantId)
    (user : String) (service : Option String) (inherited : Bool) :
    ∃ rules reference entries,
      engine.commons.store.find (RuleFilter.ofTenant tenant) = .ok rules ∧
      Evaluator.build tenant rules engine.now = .ok reference ∧
      (summary tenant user service inherited engine.newCall).1 = .ok entries ∧
      reference.Summarizes user service inherited entries ∧
      (reference.Unequivocal user inherited →
        ∃ holderOf, reference.NamesHolders user service inherited entries holderOf) ∧
      ∃ listed : List Json, PermissionEntry.summaryJson entries =
        .obj [("permissions", .arr listed), ("total_count", Json.ofNat listed.length)] := by
  have start : Coherent (Regime.steady False)
      ⟨commons, Replica.start id settings enrichers auditing, .start⟩ :=
    coherent_start sound id settings enrichers auditing fun impossible => impossible.elim
  have coherent := (coherent_of_run run (fun impossible => impossible.elim) start).1
  have stored := coherent.sound
  obtain ⟨reference, built⟩ := Evaluator.build_of_closes
    (fun _ member => stored.closes_of_mem_law member) tenant engine.now
  have mirrors : reference.Mirrors (engine.commons.store.law tenant) engine.now :=
    RuleStore.filter_law engine.commons.store tenant ▸ Evaluator.mirrors_of_build built
  have summarizes : reference.Summarizes user service inherited
      (PermissionEntry.merge (reference.permissionsOf user service inherited)) :=
    Evaluator.summarizes_merge fun _ _ => isAssigned_of_mirrors stored unassigned mirrors
  refine ⟨_, reference, _, stored.find_ofTenant tenant, built,
    coherent.summary_eq mirrors user service inherited, summarizes,
    fun plain => ⟨_, summarizes.namesHolders plain⟩,
    (PermissionEntry.merge (reference.permissionsOf user service inherited)).map
      PermissionEntry.toJson, ?_⟩
  rw [PermissionEntry.summaryJson, List.length_map]

theorem summary_lossless_of_answered : started.commons.store.Sound ∧
    Relation.ReflTransGen (Step True) started answered ∧
    answered.commons.store.rows.get? .unassigned = none ∧ ∃ rules reference entries,
      answered.commons.store.find (RuleFilter.ofTenant ⟨1⟩) = .ok rules ∧
      Evaluator.build ⟨1⟩ rules answered.now = .ok reference ∧
      (summary ⟨1⟩ "ann" none true answered.newCall).1 = .ok entries ∧
      reference.Summarizes "ann" none true entries ∧
      (reference.Unequivocal "ann" true →
        ∃ holderOf, reference.NamesHolders "ann" none true entries holderOf) ∧
      ∃ listed : List Json, PermissionEntry.summaryJson entries =
        .obj [("permissions", .arr listed), ("total_count", Json.ofNat listed.length)] :=
  have sound : started.commons.store.Sound := RuleStore.sound_empty
  have run := run_answered True
  have unassigned : answered.commons.store.rows.get? .unassigned = none := by decide +kernel
  ⟨sound, run, unassigned, summary_lossless_of_run sound run unassigned ⟨1⟩ "ann" none true⟩

section Confusion

def annIsDirect : Rule :=
  Rule.ofGrouping ⟨1⟩ "orders" "g" "ann" "direct" .epoch

def annEdits : Rule :=
  Rule.ofPermission ⟨1⟩ "orders" ⟨"ann", "*", "write", .allow⟩ .epoch

def directReads : Rule :=
  Rule.ofPermission ⟨1⟩ "orders" ⟨"direct", "*", "read", .allow⟩ .epoch

def joining : Engine :=
  (Command.create ⟨1⟩ annIsDirect).perform started.newCall

def editing : Engine :=
  (Command.create ⟨1⟩ annEdits).perform joining.newCall

/-- Ann may write orders and has a role called `direct`, which may read them. -/
def confusing : Engine :=
  (Command.create ⟨1⟩ directReads).perform editing.newCall

theorem run_confusing : Relation.ReflTransGen (Step True) started confusing := by
  have joined : Step True started joining := .call (.create ⟨1⟩ annIsDirect) ⟨by decide, rfl⟩
  have edits : Step True joining editing :=
    .call (.create ⟨1⟩ annEdits) ⟨by decide, by unfold RuleStore.HasRoom; decide +kernel⟩
  have reads : Step True editing confusing :=
    .call (.create ⟨1⟩ directReads) ⟨by decide, by unfold RuleStore.HasRoom; decide +kernel⟩
  exact ((Relation.ReflTransGen.single joined).tail edits).tail reads

theorem shows_confusing {grant : Grant} (id : RuleId)
    (held : (grant, id) ∈ (confusing.reference ⟨1⟩).grants)
    (holder : grant.subject = "ann" ∨ grant.subject = "direct") :
    (confusing.reference ⟨1⟩).Shows "ann" none true grant := by
  refine ⟨⟨id, held⟩, holder.imp_right fun same => ⟨rfl, ?_⟩, fun _ impossible => nomatch impossible⟩
  have edge : ("ann", "direct") ∈ (confusing.reference ⟨1⟩).edges .roles := by decide +kernel
  rw [same]
  exact (Hierarchy.Reaches.refl _ "ann").step edge

theorem permissionsOf_confusing : (confusing.reference ⟨1⟩).permissionsOf "ann" none true =
    [⟨"orders", "*", "read", .allow, "direct", [⟨3⟩]⟩,
      ⟨"orders", "*", "write", .allow, "direct", [⟨2⟩]⟩] := by
  have held : (confusing.reference ⟨1⟩).heldBy "ann" GrantedPermission.direct none =
      [⟨"orders", "*", "write", .allow, "direct", [⟨2⟩]⟩] := by decide +kernel
  have inherited : ((confusing.reference ⟨1⟩).rolesOf "ann").flatMap
      (fun role => (confusing.reference ⟨1⟩).heldBy role role none) =
      [⟨"orders", "*", "read", .allow, "direct", [⟨3⟩]⟩] := by decide +kernel
  have order : GrantedPermission.notAfter ⟨"orders", "*", "write", .allow, "direct", [⟨2⟩]⟩
      ⟨"orders", "*", "read", .allow, "direct", [⟨3⟩]⟩ = false := by decide +kernel
  rw [Evaluator.permissionsOf, if_pos rfl, held, inherited]
  simp [List.mergeSort, order]

/-- What the role grants is summed up with what Ann has herself, in one entry: the summary does not
tell the two apart. -/
theorem role_taken_for_user : Relation.ReflTransGen (Step True) started confusing ∧
    (confusing.reference ⟨1⟩).Shows "ann" none false ⟨"ann", "orders", "*", "write", .allow⟩ ∧
    ¬ (confusing.reference ⟨1⟩).Shows "ann" none false ⟨"direct", "orders", "*", "read", .allow⟩ ∧
    (summary ⟨1⟩ "ann" none true confusing.newCall).1 =
      .ok [⟨"orders", "*", ["read", "write"], .allow, "direct", ⟨2⟩⟩] ∧
    ¬ ∃ holderOf, (confusing.reference ⟨1⟩).NamesHolders "ann" none true
      [⟨"orders", "*", ["read", "write"], .allow, "direct", ⟨2⟩⟩] holderOf := by
  have coherent : Coherent (Regime.steady False) confusing :=
    (coherent_of_run run_confusing (fun impossible => impossible.elim)
      (coherent_start RuleStore.sound_empty _ _ _ _ fun impossible => impossible.elim)).1
  have own : ((⟨"ann", "orders", "*", "write", .allow⟩ : Grant), (⟨2⟩ : RuleId)) ∈
      (confusing.reference ⟨1⟩).grants := by decide +kernel
  have inherited : ((⟨"direct", "orders", "*", "read", .allow⟩ : Grant), (⟨3⟩ : RuleId)) ∈
      (confusing.reference ⟨1⟩).grants := by decide +kernel
  refine ⟨run_confusing, ⟨⟨⟨2⟩, own⟩, Or.inl rfl, fun _ impossible => nomatch impossible⟩, ?_, ?_, ?_⟩
  · rintro ⟨_, same | ⟨impossible, _⟩, _⟩
    · exact absurd same (by decide)
    · cases impossible
  · rw [coherent.summary_eq (mirrors_reference confusing ⟨1⟩), permissionsOf_confusing]
    exact congrArg Outcome.ok (by decide +kernel)
  · rintro ⟨holderOf, names⟩
    have ann := names.holder _ List.mem_cons_self _ (shows_confusing ⟨2⟩ own (Or.inl rfl))
      ⟨rfl, rfl, rfl, rfl⟩
    have role := names.holder _ List.mem_cons_self _ (shows_confusing ⟨3⟩ inherited (Or.inr rfl))
      ⟨rfl, rfl, rfl, rfl⟩
    exact absurd (ann.trans role.symm) (by decide)

end Confusion

end Engine

end AccessPolicy
