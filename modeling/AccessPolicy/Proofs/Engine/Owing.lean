import AccessPolicy.Proofs.Engine.Drifts

/-!
Engines that owe registry calls. What is stored and what the evaluators follow differ by what is owed.
Each call that is made takes one debt away, whatever else is owed; a call that fails leaves its debt,
until the evaluator is dropped.
-/
namespace AccessPolicy

theorem RuleStore.Sound.owned {store : RuleStore} {tenant : TenantId} (sound : store.Sound) :
    ∀ rule ∈ store.law tenant, rule.tenant = tenant :=
  fun _ member => (sound.mem_law_iff.mp member).2

namespace Engine

open Act hiding pure bind state

/-- What a tenant's evaluator may follow while calls are owed. -/
def Goes (owes : Owed → Prop) (excused : Rule → Prop) (engine : Engine) (tenant : TenantId)
    (evaluator : Evaluator) : Prop :=
  ∃ rules, evaluator.Follows rules engine.now ∧
    Drifts owes excused engine.now tenant rules (engine.commons.store.law tenant)

/-- An engine that owes registry calls, and whose evaluators are right but for those. -/
structure Owing (owes : Owed → Prop) (excused : Rule → Prop) (engine : Engine) : Prop where
  sound : engine.commons.store.Sound
  paced : Paced (Regime.steady False) engine.timing
  fair : Fair excused engine.now
  proper : ∀ owed, owes owed → owed.Proper
  honest : ∀ tenant, Drifts.Honest owes engine.now tenant (engine.commons.store.law tenant)
  pardoned : ∀ owed, owes owed → ∀ row, owed.row? = some row → excused row
  goes : ∀ tenant evaluator, engine.evaluator? tenant = some evaluator →
    Goes owes excused engine tenant evaluator

variable {owes fewer more : Owed → Prop} {excused wider : Rule → Prop} {engine after : Engine}
variable {tenant : TenantId} {owed : Owed}

theorem Coherent.owing {cached : Prop} (coherent : Coherent (Regime.steady cached) engine)
    (nothing : ∀ owed, ¬ owes owed) (fair : Fair excused engine.now) :
    Owing owes excused engine where
  sound := coherent.sound
  paced := ⟨coherent.paced.deadline, coherent.paced.last⟩
  fair := fair
  proper := fun owed owing => absurd owing (nothing owed)
  honest := fun _ owed owing => absurd owing (nothing owed)
  pardoned := fun owed owing => absurd owing (nothing owed)
  goes := fun tenant evaluator resident =>
    ⟨_, coherent.tracks tenant trivial evaluator resident,
      Drifts.refl (fun owed owing => absurd owing (nothing owed))
        (fun _ member _ => coherent.sound.single member) coherent.sound.owned⟩

namespace Owing

variable (owing : Owing owes excused engine)
include owing

/-- Where nothing is owed the evaluators follow the stored rules. -/
theorem tracks (nothing : ∀ owed, ¬ owes owed) :
    Tracks (fun _ => True) engine.commons.store.law engine.now engine.own.evaluators := by
  intro tenant _ evaluator resident
  obtain ⟨rules, follows, drifts⟩ := owing.goes tenant evaluator resident
  exact follows.alike (drifts.of_none nothing)

theorem coherent (nothing : ∀ owed, ¬ owes owed) : Coherent (Regime.steady False) engine :=
  coherent_of owing.sound (owing.tracks nothing) (fun impossible => impossible.elim) owing.paced

theorem of_same (store : after.commons.store = engine.commons.store) (now : after.now = engine.now)
    (evaluators : after.own.evaluators = engine.own.evaluators)
    (paced : Paced (Regime.steady False) after.timing) : Owing owes excused after := by
  refine ⟨store ▸ owing.sound, paced, now ▸ owing.fair, owing.proper, ?_, owing.pardoned, ?_⟩
  · rw [store, now]
    exact owing.honest
  · intro tenant evaluator resident
    unfold evaluator? at resident
    rw [evaluators] at resident
    unfold Goes
    rw [store, now]
    exact owing.goes tenant evaluator resident

/-- Whom a debt excuses is of no account where there is none. -/
theorem excusing (nothing : ∀ owed, ¬ owes owed) (fair : Fair wider engine.now) :
    Owing owes wider engine :=
  (owing.coherent nothing).owing nothing fair

/-- Counting uses leaves all as it is. -/
theorem recount {store : RuleStore} (sound : store.Sound)
    (alike : RuleStore.Alike engine.now engine.commons.store store) :
    Owing owes excused (engine.withStore store) := by
  refine ⟨sound, owing.paced, owing.fair, owing.proper, ?_, owing.pardoned, ?_⟩
  · intro tenant owed due owned
    exact (owing.honest tenant owed due owned).trans ((alike tenant).filter_id owed.id)
  · intro tenant evaluator resident
    obtain ⟨rules, follows, drifts⟩ := owing.goes tenant evaluator resident
    exact ⟨rules, follows, drifts.alike owing.fair (alike tenant)⟩

/-- A commit under an id of which no call is owed adds a debt. -/
theorem commit (owed : Owed) {store : RuleStore} (sound : store.Sound) {changed : List Rule}
    (differ : Differ changed engine.commons.store.law store.law)
    (listed : ∀ rule ∈ changed, rule.id = owed.id ∧ rule.tenant = owed.tenant ∧ wider rule)
    (proper : owed.Proper) (committed : owed.Committed engine.now (store.law owed.tenant))
    (room : ∀ rule, owed = .add rule → ∀ other ∈ engine.commons.store.law rule.tenant,
      other.id ≠ rule.id)
    (pardoned : ∀ row, owed.row? = some row → wider row)
    (apart : ∀ other, owes other → other.id ≠ owed.id)
    (debts : ∀ other, more other ↔ owes other ∨ other = owed)
    (fair : Fair wider engine.now) (contains : ∀ rule, excused rule → wider rule) :
    Owing more wider (engine.withStore store) := by
  have unchanged (tenant : TenantId) (rule : Rule) (away : ¬ (rule.id = owed.id ∧ wider rule ∧
      owed.tenant = tenant)) :
      rule ∈ engine.commons.store.law tenant ↔ rule ∈ store.law tenant := by
    refine Classical.byContradiction fun different => ?_
    obtain ⟨member, owned⟩ := differ tenant rule different
    obtain ⟨identified, mine, widely⟩ := listed rule member
    exact away ⟨identified, widely, mine.symm.trans owned⟩
  refine ⟨sound, owing.paced, fair, ?_, ?_, ?_, ?_⟩
  · intro other due
    rcases (debts other).mp due with old | rfl
    · exact owing.proper other old
    · exact proper
  · intro tenant
    apply (owing.honest tenant).commit apart debts (unchanged tenant)
    exact fun owned => owned ▸ committed
  · intro other due row put
    rcases (debts other).mp due with old | rfl
    · exact contains row (owing.pardoned other old row put)
    · exact pardoned row put
  · intro tenant evaluator resident
    obtain ⟨rules, follows, drifts⟩ := owing.goes tenant evaluator resident
    refine ⟨rules, follows, drifts.commit apart debts (unchanged tenant) fair contains ?_⟩
    exact fun rule new mine => mine ▸ room rule new

end Owing

section Commits

/-- What is put under an id is what is stored under it. -/
theorem committed_putRow {store : RuleStore} (sound : store.Sound) {row : Rule} (closing : row.closes)
    (now : Instant) : AlikeRules now [row]
      (((store.putRow row).law row.tenant).filter (·.id = row.id)) := by
  have only (found : Rule) : found ∈ ((store.putRow row).law row.tenant).filter (·.id = row.id) ↔
      found ∈ [row] := by
    simp only [List.mem_filter, decide_eq_true_eq, sound.mem_law_putRow closing, List.mem_singleton]
    constructor
    · rintro ⟨⟨_, away⟩ | ⟨same, _⟩, identified⟩
      · exact absurd identified away
      · exact same
    · rintro rfl
      simp
  exact .of_mem_iff only

theorem committed_eraseRow {store : RuleStore} (sound : store.Sound) (id : RuleId) (now : Instant)
    (tenant : TenantId) :
    AlikeRules now [] (((store.eraseRow id).law tenant).filter (·.id = id)) := by
  apply AlikeRules.of_mem_iff
  intro found
  simp only [List.mem_filter, decide_eq_true_eq, sound.mem_law_eraseRow, List.not_mem_nil, iff_false]
  exact fun ⟨⟨_, away⟩, identified⟩ => away identified

namespace Owing

variable {rule previous current : Rule} (owing : Owing owes excused engine)
variable (fair : Fair wider engine.now) (contains : ∀ rule, excused rule → wider rule)
include owing fair contains

theorem insert (room : engine.commons.store.HasRoom)
    (identified : rule.id = engine.commons.store.nextId) (closing : rule.closes)
    (apart : ∀ other, owes other → other.id ≠ rule.id)
    (debts : ∀ other, more other ↔ owes other ∨ other = .add rule) (pardon : wider rule) :
    Owing more wider (engine.withStore { engine.commons.store.putRow rule with
      nextId := ⟨engine.commons.store.nextId.value + 1⟩ }) := by
  have room : engine.commons.store.rows.get? rule.id = none := identified ▸ room
  have sound := (RuleStore.sound_putRow owing.sound closing).withNextId
    ⟨engine.commons.store.nextId.value + 1⟩
  apply owing.commit (.add rule) sound (owing.sound.differ_insert closing room)
  · intro other listed
    rw [List.mem_singleton.mp listed]
    exact ⟨rfl, rfl, pardon⟩
  · exact closing
  · exact committed_putRow owing.sound closing engine.now
  · intro other added found member clash
    cases added
    have present := (owing.sound.mem_law_iff.mp member).1
    rw [clash, room] at present
    cases present
  · intro row put
    cases put
    exact pardon
  · exact apart
  · exact debts
  · exact fair
  · exact contains

theorem update (closing : current.closes) (same : previous.id = current.id) {stored : Rule}
    (present : engine.commons.store.rows.get? current.id = some stored)
    (owned : stored.tenant = current.tenant)
    (apart : ∀ other, owes other → other.id ≠ current.id)
    (debts : ∀ other, more other ↔ owes other ∨ other = .replace previous current)
    (pardon : wider current) (pardonToo : wider stored) :
    Owing more wider (engine.withStore (engine.commons.store.putRow current)) := by
  have identified : stored.id = current.id := owing.sound.keyed current.id stored present
  have held : engine.commons.store.rows.get? stored.id = some stored := identified ▸ present
  apply owing.commit (.replace previous current) (RuleStore.sound_putRow owing.sound closing)
    (owing.sound.differ_replace closing held identified.symm)
  · intro other listed
    rcases List.mem_cons.mp listed with rfl | older
    · exact ⟨rfl, rfl, pardon⟩
    · rw [List.mem_singleton.mp older]
      exact ⟨identified, owned, pardonToo⟩
  · exact ⟨closing, same⟩
  · exact committed_putRow owing.sound closing engine.now
  · exact fun other added => nomatch added
  · intro row put
    cases put
    exact pardon
  · exact apart
  · exact debts
  · exact fair
  · exact contains

theorem delete (present : engine.commons.store.rows.get? rule.id = some rule)
    (apart : ∀ other, owes other → other.id ≠ rule.id)
    (debts : ∀ other, more other ↔ owes other ∨ other = .remove rule) (pardon : wider rule) :
    Owing more wider (engine.withStore (engine.commons.store.eraseRow rule.id)) := by
  apply owing.commit (.remove rule) (RuleStore.sound_eraseRow owing.sound rule.id) (owing.sound.differ_erase present)
  · intro other listed
    rw [List.mem_singleton.mp listed]
    exact ⟨rfl, rfl, pardon⟩
  · trivial
  · exact committed_eraseRow owing.sound rule.id engine.now rule.tenant
  · exact fun other added => nomatch added
  · exact fun row put => nomatch put
  · exact apart
  · exact debts
  · exact fair
  · exact contains

end Owing

end Commits

section Calls

/-- Nothing but a tenant's evaluator is another, and that one is right. -/
structure Recasts (tenant : TenantId) (right : Evaluator → Prop) (engine after : Engine) : Prop where
  evolves : ∃ evaluators, after = engine.withEvaluators evaluators
  others : ∀ other, other ≠ tenant → after.evaluator? other = engine.evaluator? other
  right : ∀ evaluator, after.evaluator? tenant = some evaluator → right evaluator

variable {right weaker : Evaluator → Prop} {evaluator : Evaluator}

theorem recasts_of_absent (absent : engine.evaluator? tenant = none) :
    Recasts tenant right engine engine := by
  refine ⟨⟨_, rfl⟩, fun _ _ => rfl, ?_⟩
  intro evaluator resident
  rw [absent] at resident
  cases resident

theorem recasts_refl (tenant : TenantId) (engine : Engine) :
    Recasts tenant (fun _ => True) engine engine :=
  ⟨⟨_, rfl⟩, fun _ _ => rfl, fun _ _ => trivial⟩

theorem Recasts.mono (recasts : Recasts tenant right engine after)
    (implies : ∀ evaluator, right evaluator → weaker evaluator) :
    Recasts tenant weaker engine after :=
  ⟨recasts.evolves, recasts.others, fun found resident => implies found (recasts.right found resident)⟩

theorem Recasts.put (recasts : Recasts tenant weaker engine after) (holds : right evaluator) :
    Recasts tenant right engine
      (after.withEvaluators (after.own.evaluators.put tenant evaluator)) := by
  obtain ⟨evaluators, same⟩ := recasts.evolves
  refine ⟨⟨after.own.evaluators.put tenant evaluator, by rw [same]; rfl⟩, ?_, ?_⟩
  · intro other different
    rw [← recasts.others other different]
    exact Table.get?_put_of_ne _ _ different
  · intro found resident
    have put : (after.own.evaluators.put tenant evaluator).get? tenant = some evaluator :=
      Table.get?_put_self ..
    have resident : (after.own.evaluators.put tenant evaluator).get? tenant = some found := resident
    rw [put] at resident
    exact Option.some.inj resident ▸ holds

theorem recasts_put (holds : right evaluator) : Recasts tenant right engine
    (engine.withEvaluators (engine.own.evaluators.put tenant evaluator)) :=
  (recasts_refl tenant engine).put holds

/-- The last part of a call that puts a rule in: the tracked evaluator is kept, and then the one with
the rule, if the rule counts now. -/
theorem recasts_enter {middle : Engine} {rule : Rule} {rules : List Rule}
    (recasts : Recasts tenant weaker engine middle)
    (put : (if rule.isActive engine.now then (evaluator.insert rule).2 else evaluator).Follows rules
      engine.now) (finish : Bool → Bool) (idle : Bool) :
    Leads (setEvaluator tenant evaluator >>= fun _ =>
        if rule.isActive engine.now then
          stepEvaluator tenant (evaluator.insert rule) >>= fun added => Pure.pure (finish added)
        else Pure.pure idle : Act Engine EvaluatorError Bool) middle
      (fun _ => Recasts tenant (·.Follows rules engine.now) engine)
      (fun _ => Recasts tenant (·.Follows rules engine.now) engine) (fun _ => False) := by
  have tracks : Recasts tenant (fun _ => True) engine
      (middle.withEvaluators (middle.own.evaluators.put tenant evaluator)) :=
    recasts.put trivial
  apply leads_bind
  apply leads_modify
  split
  · rename_i active
    rw [if_pos active] at put
    apply leads_bind
    apply leads_bind
    apply leads_modify
    apply leads_ofExcept
    · exact fun _ _ => leads_pure (tracks.put put)
    · exact fun _ _ => tracks.put put
  · rename_i inactive
    rw [if_neg inactive] at put
    exact leads_pure (recasts.put put)

theorem recasts_addRule {rule : Rule} {kept : Evaluator} {rules : List Rule} (closing : rule.closes)
    (resident : engine.evaluator? rule.tenant = some kept) (follows : kept.Follows rules engine.now)
    (fresh : ∀ other ∈ rules, other.id = rule.id → other.Alike engine.now rule) :
    Leads (addRule rule) engine
      (fun _ => Recasts rule.tenant (·.Follows ((Owed.add rule).settle rules) engine.now) engine)
      (fun _ => Recasts rule.tenant (·.Follows ((Owed.add rule).settle rules) engine.now) engine)
      (fun _ => False) := by
  obtain ⟨after, track, same⟩ := tracked_of_closes closing kept engine.now
  have put := follows.put fresh track
  apply leads_read
  rw [resident]
  dsimp only
  rw [same]
  apply leads_bind
  apply leads_pure
  rw [← bind_pure (stepEvaluator rule.tenant (after.insert rule))]
  exact recasts_enter (recasts_refl rule.tenant engine) put id false

theorem recasts_removeRule {rule : Rule} {kept : Evaluator} {rules : List Rule}
    (resident : engine.evaluator? rule.tenant = some kept) (follows : kept.Follows rules engine.now)
    (single : Single rules) :
    Leads (removeRule rule) engine
      (fun _ => Recasts rule.tenant (·.Follows (rules.filter (·.id ≠ rule.id)) engine.now) engine)
      (fun _ => Recasts rule.tenant (·.Follows (rules.filter (·.id ≠ rule.id)) engine.now) engine)
      (fun _ => False) := by
  have left : (kept.remove rule).2.Follows (rules.filter (·.id ≠ rule.id)) engine.now :=
    follows.without single _
  apply leads_read
  rw [resident]
  apply leads_bind
  apply leads_modify
  apply leads_ofExcept
  · exact fun _ _ => recasts_put left
  · exact fun _ _ => recasts_put left

theorem recasts_replaceRule {previous current : Rule} {kept : Evaluator} {rules : List Rule}
    (closing : current.closes) (same : previous.id = current.id)
    (resident : engine.evaluator? current.tenant = some kept)
    (follows : kept.Follows rules engine.now) (single : Single rules) :
    Leads (replaceRule previous current) engine
      (fun _ => Recasts current.tenant
        (·.Follows ((Owed.replace previous current).settle rules) engine.now) engine)
      (fun _ => Recasts current.tenant
        (fun evaluator => evaluator.Follows ((Owed.replace previous current).settle rules) engine.now ∨
          evaluator.Follows (rules.filter (·.id ≠ current.id)) engine.now) engine)
      (fun _ => False) := by
  let rest := (kept.remove previous).2
  have left : rest.Follows (rules.filter (·.id ≠ current.id)) engine.now := by
    rw [← same]
    exact follows.without single _
  have fresh : ∀ other ∈ rules.filter (·.id ≠ current.id), other.id = current.id →
      other.Alike engine.now current := by
    intro other member clash
    exact absurd clash (by simpa using (List.mem_filter.mp member).2)
  obtain ⟨after, track, tracks⟩ := tracked_of_closes closing rest engine.now
  have put := left.put fresh track
  have settled : (rules.filter (·.id ≠ current.id)).filter (·.id ≠ current.id) ++ [current] =
      (Owed.replace previous current).settle rules := by
    simp only [List.filter_filter, Bool.and_self]
    rfl
  rw [settled] at put
  have removes : Recasts current.tenant (·.Follows (rules.filter (·.id ≠ current.id)) engine.now)
      engine (engine.withEvaluators (engine.own.evaluators.put current.tenant rest)) :=
    recasts_put left
  apply leads_read
  rw [resident]
  dsimp only
  apply leads_bind
  apply leads_modify
  apply leads_bind
  apply leads_ofExcept
  · intro removed _
    rw [tracks]
    apply leads_bind
    apply leads_pure
    apply (recasts_enter removes put (removed || ·) removed).mono
    · exact fun _ _ ends => ends
    · exact fun _ _ ends => ends.mono fun _ => Or.inl
    · exact fun _ impossible => impossible
  · exact fun _ _ => removes.mono fun _ => Or.inr

theorem leads_call_of_absent (absent : engine.evaluator? owed.tenant = none) :
    Leads owed.call engine (fun _ after => after = engine) (fun _ after => after = engine)
      (fun _ => False) := by
  cases owed with
  | add rule =>
    replace absent : engine.evaluator? rule.tenant = none := absent
    apply leads_read
    rw [absent]
    exact leads_pure rfl
  | replace previous current =>
    replace absent : engine.evaluator? current.tenant = none := absent
    apply leads_read
    rw [absent]
    exact leads_pure rfl
  | remove rule =>
    replace absent : engine.evaluator? rule.tenant = none := absent
    apply leads_read
    rw [absent]
    exact leads_pure rfl

/-- A registry call leaves an evaluator that follows the settled rules; when it fails the old rule may
be taken out and the new one not be there. -/
theorem recasts_call {kept : Evaluator} {rules : List Rule} (proper : owed.Proper)
    (resident : engine.evaluator? owed.tenant = some kept)
    (follows : kept.Follows rules engine.now) (single : Single rules)
    (fresh : ∀ rule, owed = .add rule → ∀ other ∈ rules, other.id = rule.id →
      other.Alike engine.now rule) :
    Leads owed.call engine
      (fun _ => Recasts owed.tenant (·.Follows (owed.settle rules) engine.now) engine)
      (fun _ => Recasts owed.tenant
        (fun evaluator => evaluator.Follows (owed.settle rules) engine.now ∨
          evaluator.Follows (rules.filter (·.id ≠ owed.id)) engine.now) engine)
      (fun _ => False) := by
  cases owed with
  | add rule =>
    apply (recasts_addRule proper resident follows (fresh rule rfl)).mono
    · exact fun _ _ ends => ends
    · exact fun _ _ ends => ends.mono fun _ => Or.inl
    · exact fun _ impossible => impossible
  | replace previous current =>
    exact recasts_replaceRule proper.1 proper.2 resident follows single
  | remove rule =>
    have settled : (Owed.remove rule).settle rules = rules.filter (·.id ≠ rule.id) :=
      List.append_nil _
    rw [settled]
    apply (recasts_removeRule resident follows single).mono
    · exact fun _ _ ends => ends
    · exact fun _ _ ends => ends.mono fun _ => Or.inl
    · exact fun _ impossible => impossible

end Calls

namespace Owing

variable (owing : Owing owes excused engine)
include owing

/-- Where one evaluator is another and right, as much less is owed. -/
theorem recast (recasts : Recasts owed.tenant (Goes fewer excused engine owed.tenant) engine after)
    (less : ∀ other, fewer other → owes other)
    (rest : ∀ other, owes other → fewer other ∨ other = owed) : Owing fewer excused after := by
  obtain ⟨evaluators, same⟩ := recasts.evolves
  have elsewhere := recasts.others
  have here := recasts.right
  subst same
  refine ⟨owing.sound, owing.paced, owing.fair, ?_, ?_, ?_, ?_⟩
  · exact fun other due => owing.proper other (less other due)
  · exact fun tenant other due => owing.honest tenant other (less other due)
  · exact fun other due => owing.pardoned other (less other due)
  · intro tenant evaluator resident
    by_cases mine : tenant = owed.tenant
    · subst mine
      exact here evaluator resident
    · rw [elsewhere tenant mine] at resident
      obtain ⟨rules, follows, drifts⟩ := owing.goes tenant evaluator resident
      refine ⟨rules, follows, drifts.elsewhere less ?_⟩
      intro other due owned
      rcases rest other due with still | made
      · exact still
      · rw [made] at owned
        exact absurd owned.symm mine

/-- The registry call takes its debt away, or fails and leaves it. -/
theorem leads_call (due : owes owed) (less : ∀ other, fewer other → owes other)
    (rest : ∀ other, owes other → fewer other ∨ other = owed) :
    Leads owed.call engine
      (fun _ after => Owing fewer excused after ∧ ∃ evaluators, after = engine.withEvaluators evaluators)
      (fun _ after => Owing owes excused after ∧ ∃ evaluators, after = engine.withEvaluators evaluators)
      (fun _ => False) := by
  have honest := owing.honest owed.tenant
  cases resident : engine.evaluator? owed.tenant with
  | none =>
    apply (leads_call_of_absent resident).mono
    · intro _ after same
      rw [same]
      exact ⟨owing.recast (recasts_of_absent resident) less rest, _, rfl⟩
    · intro _ after same
      rw [same]
      exact ⟨owing, _, rfl⟩
    · exact fun _ impossible => impossible
  | some kept =>
    obtain ⟨rules, follows, drifts⟩ := owing.goes owed.tenant kept resident
    have fresh : ∀ rule, owed = .add rule → ∀ other ∈ rules, other.id = rule.id →
        other.Alike engine.now rule := by
      intro rule added
      subst added
      exact drifts.fresh rule due rfl
    have stays : ∀ other, owes other → owes other ∨ other = owed := fun _ => Or.inl
    apply (recasts_call (owing.proper owed due) resident follows drifts.single fresh).mono
    · intro _ after recasts
      refine ⟨owing.recast ⟨recasts.evolves, recasts.others, ?_⟩ less rest, recasts.evolves⟩
      intro evaluator found
      exact ⟨_, recasts.right evaluator found, drifts.settle honest rfl due less rest⟩
    · intro _ after recasts
      refine ⟨owing.recast ⟨recasts.evolves, recasts.others, ?_⟩ (fun _ => id) stays, recasts.evolves⟩
      intro evaluator found
      rcases recasts.right evaluator found with settled | halfway
      · exact ⟨_, settled, drifts.settle honest rfl due (fun _ => id) stays⟩
      · exact ⟨_, halfway, drifts.without honest owing.fair rfl due (owing.pardoned owed due)⟩
    · exact fun _ impossible => impossible

/-- So does dropping the evaluator. -/
theorem drop (less : ∀ other, fewer other → owes other)
    (rest : ∀ other, owes other → fewer other ∨ other = owed) :
    Owing fewer excused (engine.withEvaluators (engine.own.evaluators.erase owed.tenant)) := by
  refine owing.recast ⟨⟨_, rfl⟩, ?_, ?_⟩ less rest
  · exact fun other different => Table.get?_erase_of_ne _ different
  · intro evaluator resident
    have gone : (engine.own.evaluators.erase owed.tenant).get? owed.tenant = none :=
      Table.get?_erase_self ..
    have resident : (engine.own.evaluators.erase owed.tenant).get? owed.tenant = some evaluator := resident
    rw [gone] at resident
    cases resident

end Owing

end Engine

end AccessPolicy
