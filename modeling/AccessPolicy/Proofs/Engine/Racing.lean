import AccessPolicy.Proofs.Engine.CheckSteps
import AccessPolicy.Proofs.Engine.Tends
import AccessPolicy.Proofs.Engine.Upheld

/-!
A write and a check beside each other. What the check caches may be given by rules that the write has
not changed yet, or has changed; it is gone when the cache is invalidated for them, or is right all the
same. Only an answer that waits while the cache is invalidated can come too late.
-/
namespace AccessPolicy

/-- A rule for which the cache is still to be invalidated is pardoned, and, when all commits are made
and carried, one that does not concern what the subject reaches. -/
def Pardons (debt : Debt) (laws : TenantId → List Rule) (now : Instant) (tenant : TenantId)
    (subject : String) (rule : Rule) : Prop :=
  Named debt.left now rule ∨ debt.closing = true ∧
    ¬ rule.Concerns ((Evaluator.exact (laws tenant) now).Reaches .roles subject)

/-- The answer lasts by rules that are the tenant's stored ones, but for pardoned ones. -/
def Prone (debt : Debt) (laws : TenantId → List Rule) (now : Instant) : Knowledge :=
  fun tenant subject bound answer => ∃ rules, (∀ rule ∈ rules, rule.tenant = tenant) ∧
    Evaluator.Lasting rules now subject bound answer ∧
      Adrift (Pardons debt laws now tenant subject) now rules (laws tenant)

section Prone

variable {debt later : Debt} {laws others : TenantId → List Rule} {now : Instant}
variable {tenant : TenantId} {subject : String} {bound : Option Instant}
variable {answer : Evaluator → Prop}

theorem fair_pardons : Fair (Pardons debt laws now tenant subject) now := by
  rintro one other same (named | ⟨closing, apart⟩)
  · exact Or.inl (fair_named debt.left now one other same named)
  · exact Or.inr ⟨closing, fun concerns => apart (same.concerns_iff.mpr concerns)⟩

theorem prone_of_lasting (owned : ∀ rule ∈ laws tenant, rule.tenant = tenant)
    (lasting : Evaluator.Lasting (laws tenant) now subject bound answer) :
    Prone debt laws now tenant subject bound answer :=
  ⟨laws tenant, owned, lasting, .refl _ now (laws tenant)⟩

theorem Prone.mono (prone : Prone debt laws now tenant subject bound answer)
    (less : ∀ rule, rule.tenant = tenant → Pardons debt laws now tenant subject rule →
      Pardons later laws now tenant subject rule)
    (owned : ∀ rule ∈ laws tenant, rule.tenant = tenant) :
    Prone later laws now tenant subject bound answer := by
  obtain ⟨rules, mine, lasting, adrift⟩ := prone
  refine ⟨rules, mine, lasting, adrift.mono ?_⟩
  rintro rule (member | member) pardon
  · exact less rule (mine rule member) pardon
  · exact less rule (owned rule member) pardon

/-- A commit pardons the rules that it changes. -/
theorem Prone.commit (prone : Prone debt laws now tenant subject bound answer)
    (unclosed : debt.closing = false) {changed : List Rule} (differ : Differ changed laws others)
    (listed : ∀ rule ∈ changed, Named later.left now rule)
    (more : ∀ rule ∈ debt.left, rule ∈ later.left) :
    Prone later others now tenant subject bound answer := by
  obtain ⟨rules, mine, lasting, adrift⟩ := prone
  have before : Adrift (Pardons later others now tenant subject) now rules (laws tenant) := by
    apply adrift.mono
    rintro rule _ (named | ⟨closing, _⟩)
    · exact Or.inl (named.mono more)
    · rw [unclosed] at closing
      cases closing
  refine ⟨rules, mine, lasting, before.trans fair_pardons (.of_mem_iff ?_)⟩
  intro rule strict
  refine Classical.byContradiction fun different => ?_
  exact strict (Or.inl (listed rule (differ tenant rule different).1))

theorem Prone.alike (prone : Prone debt laws now tenant subject bound answer)
    (alike : AlikeRules now (laws tenant) (others tenant)) :
    Prone debt others now tenant subject bound answer := by
  obtain ⟨rules, mine, lasting, adrift⟩ := prone
  have agree (names : String → Prop) :=
    ((Evaluator.mirrors_exact (laws tenant) now).alike alike).agree
      (Evaluator.mirrors_exact (others tenant) now) names
  refine ⟨rules, mine, lasting, ?_⟩
  have before : Adrift (Pardons debt others now tenant subject) now rules (laws tenant) := by
    apply adrift.mono
    rintro rule _ (named | ⟨closing, apart⟩)
    · exact Or.inl named
    · refine Or.inr ⟨closing, fun concerns => apart fun name about => ?_⟩
      exact ((agree _).reaches name).mpr (concerns name about)
  exact before.trans fair_pardons (.of_alike alike _)

/-- When the cache has been invalidated for all changed rules, what is left lasts. -/
theorem Prone.lasting (prone : Prone debt laws now tenant subject bound answer)
    (shared : Evaluator.LocalTo subject answer) (done : debt.left = []) :
    Evaluator.Lasting (laws tenant) now subject bound answer := by
  obtain ⟨rules, _, lasting, adrift⟩ := prone
  apply lasting.adrift shared adrift
  rintro rule (named | ⟨_, apart⟩)
  · rw [done] at named
    exact absurd named (not_named_nil rule)
  · exact apart

/-- An answer about another tenant has nothing to do with the rule. -/
theorem Prone.drop_foreign {rule : Rule} {left : List Rule}
    (prone : Prone (.closed (rule :: left)) laws now tenant subject bound answer)
    (owned : ∀ rule ∈ laws tenant, rule.tenant = tenant) (foreign : tenant ≠ rule.tenant) :
    Prone (.closed left) laws now tenant subject bound answer := by
  apply prone.mono _ owned
  rintro other mine (⟨first, member, alike⟩ | apart)
  · rcases List.mem_cons.mp member with rfl | listed
    · exact absurd (mine.symm.trans alike.tenant.symm) foreign
    · exact Or.inl ⟨first, listed, alike⟩
  · exact Or.inr apart

/-- An answer that the rule does not concern need not be invalidated for it. -/
theorem Prone.drop_unconcerned {rule : Rule} {left : List Rule}
    (prone : Prone (.closed (rule :: left)) laws now tenant subject bound answer)
    (owned : ∀ rule ∈ laws tenant, rule.tenant = tenant)
    (apart : ¬ rule.Concerns ((Evaluator.exact (laws tenant) now).Reaches .roles subject)) :
    Prone (.closed left) laws now tenant subject bound answer := by
  apply prone.mono _ owned
  rintro other _ (⟨first, member, alike⟩ | apart)
  · rcases List.mem_cons.mp member with rfl | listed
    · exact Or.inr ⟨rfl, fun concerns => apart (alike.concerns_iff.mpr concerns)⟩
    · exact Or.inl ⟨first, listed, alike⟩
  · exact Or.inr apart

end Prone

namespace Engine

open Act hiding pure bind state

/-- The answer that waits to be cached. -/
def waiting? (due : Option (Option Answer)) : Option Answer :=
  due.join

/-- An engine on which a write, with what it has to make good, and a check, with an answer that waits
to be cached, are made beside each other. -/
structure Racing (debt : Debt) (waits : Option Answer) (engine : Engine) : Prop where
  owing : Owing (fun owed => debt.owed = some owed) (Named debt.left engine.now) engine
  recollects : Recollects engine.own False NoneStale (Prone debt engine.commons.store.law engine.now)
  waiting : ∀ answer, waits = some answer → Prone debt engine.commons.store.law engine.now
    answer.tenant answer.subject answer.bound answer.right
  read : ∀ rule, debt.read = some rule → ∀ stored,
    engine.commons.store.rows.get? rule.id = some stored → rule.Alike engine.now stored

/-- A new rule finds its id free, and an answer that waits while the cache is invalidated lasts by the
stored rules. -/
structure Attended (mark : WriteMark) (other : Option (Option Answer)) (engine : Engine) : Prop where
  room : mark.kind = .insert → engine.commons.store.HasRoom
  lasting : mark.kind = .invalidate → ∀ answer, waiting? other = some answer →
    Evaluator.Lasting (engine.commons.store.law answer.tenant) engine.now answer.subject
      answer.bound answer.right

variable {debt later : Debt} {waits : Option Answer} {engine after : Engine}

namespace Racing

theorem of_same (racing : Racing debt waits engine) (commons : after.commons.store = engine.commons.store)
    (now : after.now = engine.now) (own : after.own = engine.own)
    (paced : Paced (Regime.steady False) after.timing) : Racing debt waits after := by
  have owing := racing.owing.of_same commons now (congrArg Replica.evaluators own) paced
  refine ⟨now ▸ owing, ?_, ?_, ?_⟩
  · rw [commons, now, own]
    exact racing.recollects
  · rw [commons, now]
    exact racing.waiting
  · rw [commons, now]
    exact racing.read

theorem owned (racing : Racing debt waits engine) (tenant : TenantId) :
    ∀ rule ∈ engine.commons.store.law tenant, rule.tenant = tenant :=
  racing.owing.sound.owned

/-- What was known of answers is known of them still, with a debt and rules that are others. -/
theorem renew (racing : Racing debt waits engine)
    (owing : Owing (fun owed => later.owed = some owed) (Named later.left after.now) after)
    (own : after.own.enrichers = engine.own.enrichers ∧ after.own.cache = engine.own.cache)
    (prone : ∀ tenant subject bound answer, Evaluator.LocalTo subject answer →
      Prone debt engine.commons.store.law engine.now tenant subject bound answer →
      Prone later after.commons.store.law after.now tenant subject bound answer)
    (read : ∀ rule, later.read = some rule → ∀ stored,
      after.commons.store.rows.get? rule.id = some stored → rule.Alike after.now stored) :
    Racing later waits after where
  owing := owing
  recollects := (racing.recollects.of_cache_eq own.1 own.2).weaken prone
  waiting := fun answer present => prone _ _ _ _ answer.shared (racing.waiting answer present)
  read := read

/-- With no row that is about to be replaced. -/
theorem onward (racing : Racing debt waits engine)
    (owing : Owing (fun owed => later.owed = some owed) (Named later.left after.now) after)
    (own : after.own.enrichers = engine.own.enrichers ∧ after.own.cache = engine.own.cache)
    (prone : ∀ tenant subject bound answer, Evaluator.LocalTo subject answer →
      Prone debt engine.commons.store.law engine.now tenant subject bound answer →
      Prone later after.commons.store.law after.now tenant subject bound answer)
    (unread : later.read = none) : Racing later waits after := by
  apply racing.renew owing own prone
  intro rule present
  rw [unread] at present
  cases present

/-- The rules that a commit changes are left for the cache to be invalidated for them. -/
theorem commit (racing : Racing debt waits engine) (unclosed : debt.closing = false)
    {store : RuleStore} (owing : Owing (fun owed => later.owed = some owed)
      (Named later.left engine.now) (engine.withStore store)) {changed : List Rule}
    (differ : Differ changed engine.commons.store.law store.law)
    (listed : ∀ rule ∈ changed, Named later.left engine.now rule)
    (more : ∀ rule ∈ debt.left, rule ∈ later.left) (unread : later.read = none) :
    Racing later waits (engine.withStore store) := by
  refine racing.onward owing ⟨rfl, rfl⟩ ?_ unread
  exact fun _ _ _ _ _ prone => prone.commit unclosed differ listed more

end Racing

section Writing

theorem named_of_mem {listed : List Rule} {rule : Rule} (now : Instant) (member : rule ∈ listed) :
    Named listed now rule :=
  ⟨rule, member, .refl rule now⟩

/-- What is still cached after the subjects of a changed rule are invalidated is right but for the
rules that are left. -/
theorem Racing.ensures_invalidateFor {rule : Rule} {left : List Rule}
    (racing : Racing (.closed (rule :: left)) waits engine)
    (lasting : ∀ answer, waits = some answer → Evaluator.Lasting
      (engine.commons.store.law answer.tenant) engine.now answer.subject answer.bound answer.right) :
    Ensures (invalidateFor rule : Act Engine ServiceError Unit) engine
      (fun _ => Racing (.closed left) waits) := by
  have nothing : ∀ owed, ¬ (Debt.closed (rule :: left)).owed = some owed :=
    fun _ impossible => nomatch impossible
  have owned := racing.owned
  apply (racing.owing.ensures_invalidateFor rule).mono
  intro _ after ⟨middle, tends, ends⟩
  have owing : Owing (fun owed => (Debt.closed left).owed = some owed) (Named left engine.now) middle := by
    have now : middle.now = engine.now := congrArg Commons.now tends.commons
    exact (racing.owing.of_tends tends).excusing nothing (now ▸ fair_named left engine.now)
  obtain ⟨evaluators, timing, rfl⟩ := tends.evolves
  have recollects : Recollects ((engine.withEvaluators evaluators).withTiming timing).own
      False NoneStale (Prone (.closed (rule :: left)) engine.commons.store.law engine.now) :=
    racing.recollects.of_cache_eq rfl rfl
  have settles {cache : DecisionCache} {known : Knowledge}
      (available : cache.backend.available = true) (recalls : cache.Recalls (Enricher.adds engine.own.enrichers) NoneStale known)
      (prone : ∀ tenant subject bound answer, Evaluator.LocalTo subject answer →
        known tenant subject bound answer →
        Prone (.closed left) engine.commons.store.law engine.now tenant subject bound answer) :
      Racing (.closed left) waits (((engine.withEvaluators evaluators).withTiming timing).withCache
        cache) := by
    refine ⟨owing.of_same rfl rfl rfl owing.paced, ?_, ?_, fun _ impossible => nomatch impossible⟩
    · exact ⟨recollects.enrichers, available, recalls.weaken prone⟩
    · exact fun answer present => prone_of_lasting (owned answer.tenant) (lasting answer present)
  rcases ends with same | ⟨subject, evaluator, affected, goes, current, same⟩
  · rw [same]
    apply settles ((DecisionCache.invalidateTenant_narrows ..).available.trans recollects.available)
      (recollects.recalls.invalidateTenant recollects.available rule.tenant)
    intro tenant _ _ _ _ ⟨prone, foreign⟩
    exact prone.drop_foreign (owned tenant) foreign
  · rw [same]
    apply settles ((DecisionCache.invalidateSubjects_narrows ..).available.trans recollects.available)
      (recollects.recalls.invalidateSubjects recollects.available rule.tenant _)
    intro tenant name _ _ _ ⟨prone, spared⟩
    by_cases mine : tenant = rule.tenant
    · apply prone.drop_unconcerned (owned tenant)
      intro concerns
      apply spared
      refine ⟨mine, mem_dependents_iff.mpr ?_⟩
      -- The dependents are asked of an evaluator that follows the rules stored now.
      obtain ⟨rules, follows, drifts⟩ := goes
      have mirrors := (follows.mirrors current).alike (drifts.of_none nothing)
      have agree := mirrors.agree (Evaluator.mirrors_exact
        (engine.commons.store.law rule.tenant) engine.now)
      subst mine
      exact ((agree _).reaches subject).mpr (concerns subject affected)
    · exact prone.drop_foreign (owned tenant) mine

theorem upheld_racing : Upheld (fun debt other => Racing debt (waiting? other)) Attended where
  sound := fun racing => racing.owing.sound
  paced := fun racing => racing.owing.paced
  elapse := fun racing paced => racing.of_same rfl rfl rfl paced
  publish := fun _ racing => racing.of_same rfl rfl rfl racing.owing.paced
  read := by
    intro due engine rule racing present
    refine ⟨racing.owing, racing.recollects, racing.waiting, ?_⟩
    intro read same stored found
    cases same
    rw [present] at found
    cases found
    exact .refl rule engine.now
  unread := fun racing =>
    ⟨racing.owing, racing.recollects, racing.waiting, fun _ impossible => nomatch impossible⟩
  insert := by
    intro due engine stored racing attended identified closing
    have room := attended.room rfl
    have free : engine.commons.store.rows.get? stored.id = none := identified ▸ room
    have named := named_of_mem engine.now (List.mem_singleton_self stored)
    have owing := racing.owing.insert (fair_named _ _) (fun _ old => absurd old (not_named_nil _))
      room identified closing (fun _ impossible => nomatch impossible)
      (fun _ => Debt.owed_owing_iff _) named
    refine racing.commit rfl owing (racing.owing.sound.differ_insert closing free) ?_ ?_ rfl
    · exact fun rule listed => named_of_mem engine.now listed
    · exact fun _ impossible => nomatch impossible
  update := by
    intro due engine previous current racing _ closing same _ ⟨stored, present, owned⟩
    have alike := racing.read previous rfl stored (same ▸ present)
    have identified : stored.id = current.id := racing.owing.sound.keyed current.id stored present
    have held : engine.commons.store.rows.get? stored.id = some stored := identified ▸ present
    have named : Named [previous, current] engine.now current := named_of_mem engine.now (by simp)
    have namedToo : Named [previous, current] engine.now stored := ⟨previous, by simp, alike⟩
    have unowed : ∀ owed, (Debt.reading previous).owed = some owed → owed.id ≠ current.id :=
      fun _ impossible => nomatch impossible
    have owing := racing.owing.update (fair_named [previous, current] engine.now)
      (fun _ old => absurd old (not_named_nil _)) closing same present owned unowed
      (fun _ => Debt.owed_owing_iff [previous, current]) named namedToo
    refine racing.commit rfl owing
      (racing.owing.sound.differ_replace closing held identified.symm) ?_ ?_ rfl
    · intro rule listed
      rcases List.mem_cons.mp listed with rfl | older
      · exact named
      · exact List.mem_singleton.mp older ▸ namedToo
    · exact fun _ impossible => nomatch impossible
  delete := by
    intro left due engine rule racing _ present
    have more : ∀ other ∈ left, other ∈ left ++ [rule] := fun _ => List.mem_append_left _
    have named : Named (left ++ [rule]) engine.now rule := named_of_mem engine.now (by simp)
    have owing := racing.owing.delete (fair_named _ _) (fun _ old => old.mono more) present
      (fun _ impossible => nomatch impossible) (fun _ => Debt.owed_owing_iff _) named
    refine racing.commit rfl owing (racing.owing.sound.differ_erase present) ?_ more rfl
    exact fun other listed => List.mem_singleton.mp listed ▸ named
  call := by
    intro left owed due engine racing
    apply (racing.owing.leads_call rfl (fun _ impossible => nomatch impossible)
      fun _ => (Debt.owed_owing_iff _).mp).mono
    · intro _ after ⟨owing, evaluators, same⟩
      subst same
      exact racing.onward owing ⟨rfl, rfl⟩ (fun _ _ _ _ _ prone => prone) rfl
    · intro _ after ⟨owing, evaluators, same⟩
      subst same
      exact racing.onward owing ⟨rfl, rfl⟩ (fun _ _ _ _ _ prone => prone) rfl
    · exact fun _ impossible => impossible
  drop := by
    intro left owed due engine racing
    have owing := racing.owing.drop (fun _ impossible => nomatch impossible)
      fun _ => (Debt.owed_owing_iff _).mp
    exact racing.onward owing ⟨rfl, rfl⟩ (fun _ _ _ _ _ prone => prone) rfl
  close := by
    intro left due engine racing
    refine racing.onward racing.owing ⟨rfl, rfl⟩ ?_ rfl
    intro tenant _ _ _ _ prone
    apply prone.mono _ (racing.owned tenant)
    rintro rule _ (named | ⟨impossible, _⟩)
    · exact Or.inl named
    · cases impossible
  invalidate := fun racing attended => racing.ensures_invalidateFor (attended.lasting rfl)
  settle := by
    intro due engine racing
    refine racing.onward racing.owing ⟨rfl, rfl⟩ ?_ rfl
    intro tenant _ _ _ shared prone
    exact prone_of_lasting (racing.owned tenant) (prone.lasting shared rfl)

end Writing

end Engine

end AccessPolicy
