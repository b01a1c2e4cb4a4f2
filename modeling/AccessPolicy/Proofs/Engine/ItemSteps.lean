import AccessPolicy.Proofs.Act.Crowd
import AccessPolicy.Proofs.Engine.CheckSteps
import AccessPolicy.Proofs.Engine.Expansion

/-!
One check of a batch, step by step, with the cache or without it. Whatever the other checks do between
its steps, it comes to what the evaluator at hand decides at the start.
-/
namespace AccessPolicy

/-- Outcomes of checks that a caller cannot tell apart, but for where decisions come from. -/
def Outcome.Agrees : Outcome CheckError Decision → Outcome CheckError Decision → Prop
  | .ok one, .ok other => one.Agrees other
  | .error one, .error other => one = other
  | .halted one, .halted other => one = other
  | _, _ => False

theorem Outcome.Agrees.refl (outcome : Outcome CheckError Decision) : outcome.Agrees outcome := by
  cases outcome with
  | ok decision => exact Decision.Agrees.refl decision
  | error cause => rfl
  | halted halt => rfl

theorem Outcome.Agrees.symm {one other : Outcome CheckError Decision} (agrees : one.Agrees other) :
    other.Agrees one := by
  cases one <;> cases other <;> first | exact agrees.elim | exact Eq.symm agrees | skip
  exact Decision.Agrees.symm agrees

theorem Outcome.Agrees.trans {one two three : Outcome CheckError Decision} (agrees : one.Agrees two)
    (further : two.Agrees three) : one.Agrees three := by
  cases two with
  | ok decision =>
    cases one <;> cases three <;> first | exact agrees.elim | exact further.elim | skip
    exact Decision.Agrees.trans agrees further
  | error cause =>
    cases one <;> cases three <;> first | exact agrees.elim | exact further.elim | skip
    exact Eq.trans agrees further
  | halted halt =>
    cases one <;> cases three <;> first | exact agrees.elim | exact further.elim | skip
    exact Eq.trans agrees further

namespace Engine

open Act hiding pure bind state

variable {engine base later : Engine} {request : CheckRequest} {options : CheckOptions}

section Definitions

/-- The steps of a decision without the cache. -/
def decideStraightSteps (request : CheckRequest) :
    Steps Engine (Option Answer) CheckError Decision := do
  let engine ← idly Act.state
  if engine.isSuperadmin request then pure engine.superadminDecision
  else
    let evaluation ← idly ((enforce request.tenant request.subject request.service request.object
      request.action).mapError CheckError.evaluator)
    recordSteps request.tenant (.ofDecision request.about evaluation) evaluation
    let engine ← idly Act.state
    pure (engine.enrich request (Decision.ofEvaluation evaluation))

def chooseSteps (request : CheckRequest) (useCache : Bool) :
    Steps Engine (Option Answer) CheckError Decision :=
  if useCache then decideSteps request else decideStraightSteps request

/-- The steps of a check by the subject alone that has no deadline. -/
def itemSteps (request : CheckRequest) (options : CheckOptions) :
    Steps Engine (Option Answer) CheckError Decision :=
  match request.missingField? with
  | some field => .done (.error (.invalidRequest field))
  | none => do
    let decision ← chooseSteps request options.useCache
    idly (Act.modify (auditDecision request options.audit decision))
    pure decision

/-- What a decision comes to by the evaluator at hand. -/
def decided (engine : Engine) (request : CheckRequest) : Outcome CheckError Decision :=
  if engine.isSuperadmin request then .ok engine.superadminDecision
  else ((engine.atHand request.tenant).map (·.ruled request)).mapError CheckError.evaluator

/-- What a check comes to by the evaluator at hand. -/
def freshly (engine : Engine) (request : CheckRequest) : Outcome CheckError Decision :=
  match request.missingField? with
  | some field => .error (.invalidRequest field)
  | none => engine.decided request

/-- Nothing hurries or enriches checks, and the cache tells what is decided. -/
structure Calm (engine : Engine) (options : CheckOptions) : Prop where
  unhurried : engine.Unhurried
  plain : engine.own.enrichers = []
  unlimited : options.deadline = none
  untimed : engine.own.settings.checkTimeout = none
  truthful : options.useCache = true → engine.Truthful

end Definitions

theorem Calm.persists (calm : engine.Calm options) (persists : Persists engine later) :
    later.Calm options where
  unhurried := persists.unhurried calm.unhurried
  plain := persists.enrichers.trans calm.plain
  unlimited := calm.unlimited
  untimed := (congrArg Settings.checkTimeout persists.settings).trans calm.untimed
  truthful := fun cached => persists.truthful (calm.truthful cached)

theorem Persists.isSuperadmin_eq (persists : Persists engine later) (request : CheckRequest) :
    later.isSuperadmin request = engine.isSuperadmin request ∧
      later.superadminDecision = engine.superadminDecision := by
  unfold isSuperadmin superadminDecision
  rw [persists.settings]
  exact ⟨rfl, rfl⟩

theorem Persists.freshly_eq (persists : Persists engine later) (request : CheckRequest) :
    later.freshly request = engine.freshly request := by
  obtain ⟨asked, told⟩ := persists.isSuperadmin_eq request
  unfold freshly decided
  rw [asked, told, persists.atHand]

section Stays

open Steps

theorem run_decideStraightSteps (request : CheckRequest) :
    (decideStraightSteps request).run = decide request false := by
  unfold decideStraightSteps decide decideFresh evaluate recordSteps
  simp only [run_bind, idly, holding, run_once, run_pure, run_ite, bind_assoc]
  congr 1
  funext engine
  split
  · rfl
  · simp only [Bool.false_eq_true, if_false]
    congr 1
    funext evaluation
    split <;> simp only [bind_assoc, pure_bind]

/-- After an evaluation the tenant is settled; without an evaluator at hand there is none. -/
theorem stays_enforce {next : Evaluation → Steps Engine (Option Answer) CheckError Decision}
    (calm : engine.Calm options) (request : CheckRequest)
    (onward : ∀ evaluator later, Persists engine later →
      engine.atHand request.tenant = .ok evaluator → later.Settled request.tenant →
        Stays Persists (fun outcome _ => outcome = .ok (evaluator.ruled request))
          (next (evaluator.enforce request.subject request.service request.object request.action))
          later) :
    Stays Persists (fun outcome _ => outcome =
        ((engine.atHand request.tenant).map (·.ruled request)).mapError CheckError.evaluator)
      (idly ((enforce request.tenant request.subject request.service request.object
        request.action).mapError CheckError.evaluator) >>= next) engine := by
  apply stays_once_bind
  intro later goes
  obtain ⟨after, asked, persists, settles⟩ := ask_of_unhurried (goes.unhurried calm.unhurried)
    request.tenant (·.enforce request.subject request.service request.object request.action)
  rw [goes.atHand] at asked settles
  refine ⟨((engine.atHand request.tenant).map (·.enforce request.subject request.service
    request.object request.action)).mapError CheckError.evaluator, after, ?_, persists, ?_⟩
  · unfold enforce
    rw [mapError_apply, asked]
  · cases given : engine.atHand request.tenant with
    | ok evaluator =>
      exact onward evaluator after (goes.trans persists) given (settles ⟨evaluator, given⟩)
    | error cause => exact fun _ _ => rfl
    | halted cause => exact fun _ _ => rfl

theorem stays_recordSteps {tenant : TenantId} (settled : engine.Settled tenant) (answer : Answer)
    (evaluation : Evaluation) :
    Stays Persists (fun outcome _ => outcome = .ok ()) (recordSteps tenant answer evaluation)
      engine := by
  unfold recordSteps
  split
  · intro later goes
    obtain ⟨after, counted, persists⟩ := recordUse_of_settled (ε := CheckError)
      (goes.settled tenant settled) evaluation.matchedRules
    dsimp only
    rw [counted]
    exact ⟨persists, fun _ _ => rfl⟩
  · exact fun _ _ => rfl

/-- A decision that is not enriched. -/
theorem Calm.enrich_eq (calm : engine.Calm options) (request : CheckRequest) (decision : Decision) :
    engine.enrich request decision = decision := by
  unfold enrich
  rw [calm.plain]
  rfl

theorem stays_decideFreshSteps (calm : engine.Calm options) (request : CheckRequest) :
    Stays Persists (fun outcome _ => outcome =
        ((engine.atHand request.tenant).map (·.ruled request)).mapError CheckError.evaluator)
      (decideFreshSteps request) engine := by
  apply stays_enforce calm request
  intro evaluator ready goes given settled
  apply (stays_recordSteps settled _ _).bind Persists.refl Persists.trans
  rintro _ counted further rfl
  apply stays_once_bind
  intro seen more
  refine ⟨_, seen, rfl, .refl seen, ?_⟩
  have saw : Persists engine seen := goes.trans (further.trans more)
  apply stays_once_bind
  intro later beyond
  have whole : Persists engine later := saw.trans beyond
  obtain ⟨after, kept, persists⟩ := remember_of_unhurried (ε := CheckError)
    (whole.unhurried calm.unhurried) ((whole.atHand request.tenant).trans given)
    (evaluator.enforce request.subject request.service request.object request.action).validUntil
  rw [(calm.persists saw).enrich_eq]
  exact ⟨_, after, kept, persists, fun _ _ => rfl⟩

theorem stays_decideStraightSteps (calm : engine.Calm options) (request : CheckRequest) :
    Stays Persists (fun outcome _ => outcome = engine.decided request) (decideStraightSteps request)
      engine := by
  apply stays_once_bind
  intro start begins
  refine ⟨_, start, rfl, .refl start, ?_⟩
  obtain ⟨asked, told⟩ := begins.isSuperadmin_eq request
  change Stays Persists _ (if start.isSuperadmin request = true then _ else _) start
  unfold decided
  rw [asked, told]
  split
  · exact fun _ _ => rfl
  · rw [← begins.atHand]
    apply stays_enforce (calm.persists begins) request
    intro evaluator ready goes given settled
    apply (stays_recordSteps settled _ _).bind Persists.refl Persists.trans
    rintro _ counted further rfl
    apply stays_once_bind
    intro seen more
    refine ⟨_, seen, rfl, .refl seen, ?_⟩
    have saw : Persists engine seen := begins.trans (goes.trans (further.trans more))
    intro _ _
    exact congrArg Outcome.ok ((calm.persists saw).enrich_eq request _)

/-- A decision from the cache is the one that the evaluator at hand would give. -/
theorem stays_decideSteps (calm : engine.Calm options) (cached : options.useCache = true)
    (request : CheckRequest) :
    Stays Persists (fun outcome _ => outcome.Agrees (engine.decided request)) (decideSteps request)
      engine := by
  apply stays_once_bind
  intro start begins
  refine ⟨_, start, rfl, .refl start, ?_⟩
  obtain ⟨asked, told⟩ := begins.isSuperadmin_eq request
  change Stays Persists _ (if start.isSuperadmin request = true then _ else _) start
  unfold decided
  rw [asked, told]
  split
  · exact fun _ _ => .refl _
  · apply stays_once_bind
    intro looking goes
    have calmly : looking.Calm options := calm.persists (begins.trans goes)
    obtain ⟨after, found, persists⟩ := lookUp_of_unhurried (ε := CheckError) calmly.unhurried request
    refine ⟨_, after, found, persists, ?_⟩
    rw [← (begins.trans goes).atHand]
    cases known : (looking.own.cache.get looking.now request).1 with
    | some decision =>
      obtain ⟨evaluator, given, agrees⟩ := calmly.truthful cached request decision known
      rw [given]
      exact fun _ _ => agrees
    | none =>
      have fresh := stays_decideFreshSteps (calmly.persists persists) request
      rw [persists.atHand] at fresh
      exact fresh.weaken fun outcome _ same => same ▸ .refl _

theorem run_chooseSteps (request : CheckRequest) (useCache : Bool) :
    (chooseSteps request useCache).run = decide request useCache := by
  unfold chooseSteps
  cases useCache with
  | true => exact run_decideSteps request
  | false => exact run_decideStraightSteps request

theorem stays_chooseSteps (calm : engine.Calm options) (request : CheckRequest) :
    Stays Persists (fun outcome _ => outcome.Agrees (engine.decided request))
      (chooseSteps request options.useCache) engine := by
  unfold chooseSteps
  split
  · rename_i cached
    exact stays_decideSteps calm cached request
  · exact (stays_decideStraightSteps calm request).weaken fun _ _ same => same ▸ .refl _

/-- The steps of a check come to what the evaluator at hand decides. -/
theorem stays_itemSteps (calm : engine.Calm options) (request : CheckRequest) :
    Stays Persists (fun outcome _ => outcome.Agrees (engine.freshly request))
      (itemSteps request options) engine := by
  unfold itemSteps freshly
  split
  · exact fun _ _ => .refl _
  · apply (stays_chooseSteps calm request).bind Persists.refl Persists.trans
    intro outcome later goes agrees
    cases outcome with
    | ok decision =>
      apply stays_once_bind
      intro last more
      refine ⟨_, last.auditDecision request options.audit decision, rfl, ?_, fun _ _ => agrees⟩
      exact .auditDecision last request options.audit decision
    | error cause => exact fun _ _ => agrees
    | halted halt => exact fun _ _ => agrees

/-- Without others the steps are the check. -/
theorem run_itemSteps (calm : engine.Calm options) (request : CheckRequest) :
    (itemSteps request options).run engine = check request options false engine := by
  obtain ⟨persists, agrees⟩ := (stays_chooseSteps calm request).run Persists.refl Persists.trans
  rw [run_chooseSteps] at persists agrees
  -- A decision that came too late would be one that the evaluator at hand does not give.
  have timely : (decide request options.useCache engine).1 ≠ .halted .deadline := by
    intro late
    have given := engine.atHand_ne_deadline request.tenant
    rw [late] at agrees
    unfold decided at agrees
    split at agrees
    · exact agrees.elim
    · cases atHand : engine.atHand request.tenant with
      | ok evaluator =>
        rw [atHand] at agrees
        exact agrees.elim
      | error cause =>
        rw [atHand] at agrees
        exact agrees.elim
      | halted halt =>
        rw [atHand] at agrees given
        exact given (congrArg Outcome.halted (Eq.symm agrees))
  have ends : decide request options.useCache engine =
      ((decide request options.useCache engine).1, (decide request options.useCache engine).2) := rfl
  have limited := within_none (Decision.deny Reason.deadline) calm.unhurried ends
    (persists.unhurried calm.unhurried) timely
  unfold itemSteps check
  cases request.missingField? with
  | some field => rfl
  | none =>
    have untimed : (none <|> none : Option Nat) = none := rfl
    dsimp only
    rw [run_bind, run_chooseSteps, bind_apply, bind_apply, state_apply]
    dsimp only
    rw [calm.unlimited, calm.untimed, untimed, bind_apply, if_neg Bool.false_ne_true, limited]
    rfl

end Stays

end Engine

end AccessPolicy
