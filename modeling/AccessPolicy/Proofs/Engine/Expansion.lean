import AccessPolicy.Proofs.Engine.AtHand
import AccessPolicy.Proofs.Engine.Renewal
import AccessPolicy.Proofs.Evaluator.Expansion

/-!
Role expansion. Without the cache a check is decided by the evaluator at hand, with or without role
expansion, and the two decisions differ in nothing but the name of the granting role.
-/
namespace AccessPolicy.Engine

open Act hiding pure bind state

variable {engine : Engine} {evaluator : Evaluator} {request : CheckRequest}

section Deciding

/-- What a check without the cache starts from. -/
structure Straight (engine : Engine) (tenant : TenantId) (evaluator : Evaluator) : Prop where
  unhurried : engine.Unhurried
  plain : engine.own.enrichers = []
  given : engine.atHand tenant = .ok evaluator

theorem Straight.persists {after : Engine} {tenant : TenantId}
    (straight : engine.Straight tenant evaluator) (persists : Persists engine after) :
    after.Straight tenant evaluator :=
  ⟨persists.unhurried straight.unhurried, persists.enrichers.trans straight.plain,
    (persists.atHand tenant).trans straight.given⟩

theorem evaluate_of_straight (straight : engine.Straight request.tenant evaluator) :
    ∃ after, evaluate request engine =
      (.ok (evaluator.ruled request, evaluator.nextTransition), after) ∧ Persists engine after := by
  obtain ⟨middle, asked, persists, settles⟩ := ask_of_unhurried straight.unhurried request.tenant
    (·.enforce request.subject request.service request.object request.action)
  have ruled (after : Engine) (kept : Persists engine after) (evaluation : Evaluation) :
      (do pure ((← Act.state).enrich request (Decision.ofEvaluation evaluation),
        evaluation.validUntil) : Act Engine CheckError (Decision × Option Instant)) after =
          (.ok (Decision.ofEvaluation evaluation, evaluation.validUntil), after) := by
    rw [bind_apply, state_apply]
    dsimp only
    unfold enrich
    rw [(straight.persists kept).plain]
    rfl
  rw [straight.given] at asked
  unfold evaluate enforce
  rw [bind_apply, mapError_apply, asked]
  dsimp only [Outcome.map, Outcome.mapError]
  split
  · obtain ⟨after, counted, further⟩ := recordUse_of_settled (ε := CheckError)
      (settles ⟨evaluator, straight.given⟩) _
    rw [bind_apply, counted]
    refine ⟨after, ?_, persists.trans further⟩
    rw [← Evaluator.enforce_validUntil]
    exact ruled after (persists.trans further) _
  · refine ⟨middle, ?_, persists⟩
    rw [← Evaluator.enforce_validUntil]
    exact ruled middle persists _

theorem decide_of_straight (straight : engine.Straight request.tenant evaluator) :
    ∃ after, decide request false engine =
      (.ok (evaluator.verdict engine.own.settings.superadminRole request), after) ∧
        Persists engine after := by
  unfold decide Evaluator.verdict
  rw [bind_apply, state_apply]
  dsimp only
  by_cases super : request.callerRoles.contains engine.own.settings.superadminRole = true
  · have asked : engine.isSuperadmin request = true := super
    rw [if_pos asked, if_pos super]
    exact ⟨engine, rfl, .refl engine⟩
  · have unasked : ¬ engine.isSuperadmin request = true := super
    rw [if_neg unasked, if_neg super]
    obtain ⟨after, evaluated, persists⟩ := evaluate_of_straight straight
    refine ⟨after, ?_, persists⟩
    unfold decideFresh
    rw [if_neg Bool.false_ne_true, bind_apply, evaluated]
    unfold Evaluator.ruled
    rw [Decision.unmarked_ofEvaluation]
    rfl

theorem roles_of_straight {tenant : TenantId} (straight : engine.Straight tenant evaluator)
    (subject : String) : ∃ after, roles tenant subject false engine =
      (.ok (evaluator.rolesOf subject), after) ∧ Persists engine after := by
  obtain ⟨after, asked, persists, _⟩ := ask_of_unhurried straight.unhurried tenant
    (fun evaluator => (evaluator.rolesOf subject, evaluator.nextTransition))
  rw [straight.given] at asked
  refine ⟨after, ?_, persists⟩
  unfold roles rolesUntil
  rw [bind_apply, state_apply]
  dsimp only
  rw [if_neg Bool.false_ne_true, bind_apply, pure_apply]
  dsimp only
  rw [bind_apply, mapError_apply, asked]
  rfl

theorem firstAllowed_of_straight (straight : engine.Straight request.tenant evaluator)
    (roles : List String) : ∃ after, firstAllowed request false roles engine =
      (.ok (evaluator.roleVerdict? engine.own.settings.superadminRole request roles), after) ∧
        Persists engine after := by
  induction roles generalizing engine with
  | nil => exact ⟨engine, rfl, .refl engine⟩
  | cons role rest ih =>
    have asked : engine.Straight (request.asSubject role).tenant evaluator := straight
    obtain ⟨middle, decided, persists⟩ := decide_of_straight asked
    unfold firstAllowed
    rw [bind_apply, decided]
    dsimp only
    unfold Evaluator.roleVerdict?
    rw [List.find?_cons]
    cases allowed : (evaluator.verdict engine.own.settings.superadminRole
        (request.asSubject role)).allowed with
    | true => exact ⟨middle, rfl, persists⟩
    | false =>
      obtain ⟨after, others, further⟩ := ih (straight.persists persists)
      rw [persists.settings] at others
      exact ⟨after, others, persists.trans further⟩

theorem decideExpanded_of_straight (straight : engine.Straight request.tenant evaluator) :
    ∃ after, decideExpanded request false engine =
      (.ok (evaluator.expandedVerdict engine.own.settings.superadminRole request), after) ∧
        Persists engine after := by
  obtain ⟨middle, decided, persists⟩ := decide_of_straight straight
  unfold decideExpanded Evaluator.expandedVerdict
  rw [bind_apply, decided]
  dsimp only
  split
  · exact ⟨middle, rfl, persists⟩
  · split
    · exact ⟨middle, rfl, persists⟩
    · obtain ⟨next, listed, further⟩ := roles_of_straight (straight.persists persists) request.subject
      obtain ⟨after, found, last⟩ := firstAllowed_of_straight
        (straight.persists (persists.trans further)) (evaluator.rolesOf request.subject)
      rw [further.settings, persists.settings] at found
      refine ⟨after, ?_, persists.trans (further.trans last)⟩
      rw [bind_apply, listed]
      dsimp only
      rw [bind_apply, found]
      dsimp only
      cases evaluator.roleVerdict? engine.own.settings.superadminRole request
        (evaluator.rolesOf request.subject) <;> rfl

/-- An action without a time limit is the action. -/
theorem within_none {ε α : Type} (late : α) {action : Act Engine ε α} {outcome : Outcome ε α}
    {after : Engine} (unhurried : engine.Unhurried) (ends : action engine = (outcome, after))
    (unhurriedToo : after.Unhurried) (timely : outcome ≠ .halted .deadline) :
    within none late action engine = (outcome, after) := by
  have same (other : Engine) (free : other.Unhurried) : other.withDeadline none = other := by
    unfold withDeadline withTiming
    rw [← free.deadline]
  unfold within
  rw [Option.map_none, same engine unhurried, ends, unhurried.deadline]
  split
  · rename_i halted
    cases halted
    exact absurd rfl timely
  · rename_i halted
    cases halted
    rw [same after unhurriedToo]

/-- A check without the cache replies as the evaluator at hand does. -/
theorem check_of_straight {options : CheckOptions} (straight : engine.Straight request.tenant evaluator)
    (whole : request.missingField? = none) (uncached : options.useCache = false)
    (unlimited : options.deadline = none) (untimed : engine.own.settings.checkTimeout = none)
    (expand : Bool) : ∃ after, check request options expand engine =
      (.ok (evaluator.reply engine.own.settings.superadminRole request expand), after) ∧
        Persists engine after := by
  have decided : ∃ after, (if expand then decideExpanded request options.useCache
      else decide request options.useCache) engine =
        (.ok (evaluator.reply engine.own.settings.superadminRole request expand), after) ∧
          Persists engine after := by
    unfold Evaluator.reply
    rw [whole, uncached]
    cases expand with
    | true => exact decideExpanded_of_straight straight
    | false => exact decide_of_straight straight
  obtain ⟨after, ends, persists⟩ := decided
  have limited := within_none (Decision.deny Reason.deadline) straight.unhurried ends
    (persists.unhurried straight.unhurried) (by simp)
  unfold check
  rw [whole]
  dsimp only
  rw [bind_apply, state_apply]
  dsimp only
  rw [unlimited, untimed]
  have untimed : (none <|> none : Option Nat) = none := rfl
  rw [untimed, bind_apply, limited]
  dsimp only
  rw [bind_apply, modify_apply]
  exact ⟨_, rfl, persists.trans (.auditDecision after request options.audit _)⟩

end Deciding

/-- Without the cache role expansion leaves the verdict of a check and its reason as they are. It names
the granting role among the applied rules when the subject holds no allow that matches itself, and adds
nothing otherwise. -/
theorem expansion_keeps_verdict {options : CheckOptions}
    (given : engine.atHand request.tenant = .ok evaluator) (plain : engine.own.enrichers = [])
    (whole : request.missingField? = none)
    (ordinary : engine.own.settings.superadminRole ∉ request.callerRoles)
    (uncached : options.useCache = false) (unlimited : options.deadline = none)
    (untimed : engine.own.settings.checkTimeout = none) :
    ∃ direct expanded : Decision,
      (check request options false engine.newCall).1 = .ok direct ∧
      (check request options true engine.newCall).1 = .ok expanded ∧
      expanded.allowed = direct.allowed ∧ expanded.explicitDeny = direct.explicitDeny ∧
      expanded.reason = direct.reason ∧
      (direct.allowed = true → ¬ evaluator.GrantsDirectly request →
        ∃ role, evaluator.GrantsThrough request role ∧ expanded.appliedRules =
          if role ∈ direct.appliedRules then direct.appliedRules
          else direct.appliedRules ++ [role]) ∧
      (direct.allowed = false ∨ evaluator.GrantsDirectly request →
        expanded.appliedRules = direct.appliedRules) := by
  have straight : engine.newCall.Straight request.tenant evaluator :=
    ⟨unhurried_newCall engine, plain, given⟩
  obtain ⟨_, direct, _⟩ := check_of_straight straight whole uncached unlimited untimed false
  obtain ⟨_, expanded, _⟩ := check_of_straight straight whole uncached unlimited untimed true
  refine ⟨evaluator.ruled request, nameRole (evaluator.ruled request), ?_, ?_, ?_⟩
  · rw [direct, Evaluator.reply, whole]
    exact congrArg Outcome.ok (Evaluator.verdict_of_ordinary ordinary)
  · rw [expanded, Evaluator.reply, whole]
    exact congrArg Outcome.ok (Evaluator.expandedVerdict_eq_nameRole ordinary)
  · cases via : (evaluator.ruled request).grantedVia with
    | none =>
      rw [nameRole_of_none via]
      refine ⟨rfl, rfl, rfl, fun allowed indirect => ?_, fun _ => rfl⟩
      obtain ⟨role, granted⟩ := Evaluator.exists_grantedVia allowed indirect
      rw [via] at granted
      cases granted
    | some role =>
      obtain ⟨allowed, indirect, through⟩ := Evaluator.grantedVia_ruled_iff.mp via
      rw [nameRole_of_some via]
      refine ⟨rfl, rfl, rfl, fun _ _ => ⟨role, through, rfl⟩, ?_⟩
      rintro (refused | held)
      · rw [refused] at allowed
        cases allowed
      · exact absurd held indirect

/-- Ann, who is a reader, asks to read. -/
def annAsks : CheckRequest :=
  mayAnnRead.toRequest ⟨1⟩ ⟨"clerk", []⟩

theorem expansion_keeps_verdict_of_hired : ∃ evaluator,
    hired.atHand annAsks.tenant = .ok evaluator ∧ hired.own.enrichers = [] ∧
    annAsks.missingField? = none ∧ hired.own.settings.superadminRole ∉ annAsks.callerRoles ∧
    hired.own.settings.checkTimeout = none ∧ ∃ direct expanded : Decision,
      (check annAsks { useCache := false } false hired.newCall).1 = .ok direct ∧
      (check annAsks { useCache := false } true hired.newCall).1 = .ok expanded ∧
      expanded.allowed = direct.allowed ∧ expanded.explicitDeny = direct.explicitDeny ∧
      expanded.reason = direct.reason ∧
      (direct.allowed = true → ¬ evaluator.GrantsDirectly annAsks →
        ∃ role, evaluator.GrantsThrough annAsks role ∧ expanded.appliedRules =
          if role ∈ direct.appliedRules then direct.appliedRules
          else direct.appliedRules ++ [role]) ∧
      (direct.allowed = false ∨ evaluator.GrantsDirectly annAsks →
        expanded.appliedRules = direct.appliedRules) := by
  have present : (hired.atHand annAsks.tenant).isOk = true := by
    decide +kernel
  obtain ⟨evaluator, given⟩ := Outcome.isOk_iff.mp present
  have whole : annAsks.missingField? = none := by
    decide
  have untimed : hired.own.settings.checkTimeout = none := by
    decide +kernel
  exact ⟨evaluator, given, rfl, whole, List.not_mem_nil, untimed,
    expansion_keeps_verdict given rfl whole List.not_mem_nil rfl rfl untimed⟩

/-- Ann may read as a reader, who is named when her roles are asked as well. -/
example : (match (check annAsks { useCache := false } true hired.newCall).1 with
    | .ok decision => decision.appliedRules
    | _ => []) = ["2", "reader"] := by
  decide +kernel

end AccessPolicy.Engine
