import AccessPolicy.Proofs.Engine.Lateness

/-!
Enriched decisions. A check gives the same decision with the cache and without it, row filters and
field masks included, when the enrichers do not tell requests with the same cache key apart and a cache
entry carries what they add. An enricher that reads more of a request than the key names is asked once
for all that have the key.
-/
namespace AccessPolicy

namespace Engine

open Act hiding pure bind state

variable {engine : Engine}

/-- Every tenant has to be right, with what discreet enrichers add to decisions. -/
def Regime.enriching : Regime :=
  { Regime.steady True with enriched := True }

theorem not_hurried_enriching : ¬ Regime.enriching.hurried :=
  not_hurried_steady True

theorem covers_enriching (request : CheckRequest) (useCache expand : Bool) :
    Regime.enriching.Covers request useCache expand :=
  ⟨fun _ => trivial, trivial, fun _ => id, fun _ _ => id⟩

/-- A question is replied to as the stored rules and the enrichers have it, or too late. -/
theorem Coherent.exists_enriched_reply (coherent : Coherent Regime.enriching engine)
    (tenant : TenantId) (caller : Principal) (query : PermissionQuery) : ∃ reply : Decision,
      ((checkPermission tenant caller query : Act Engine Empty Decision) engine.newCall).1 =
        .ok reply ∧
      (reply.unmarked = (engine.reference tenant).reply engine.own.settings.superadminRole
          (query.toRequest tenant caller) query.expandRoles engine.enrich ∨
        engine.own.settings.checkTimeout ≠ none ∧ reply = Decision.deny Reason.deadline) := by
  obtain ⟨reply, replied⟩ := coherent.exists_reply not_false tenant caller query
  exact ⟨reply, replied,
    coherent.reply_of_covers not_hurried_enriching (covers_enriching _ _ _) replied⟩

/-- In every state of a run a check gives the same decision with the cache and without it, whatever has
been asked before with the same cache key, unless one of the two runs out of time. -/
theorem unmarked_eq_of_discreet {commons : Commons} (sound : commons.store.Sound) {id : Uuid}
    {settings : Settings} {enrichers : Table String Enricher} {auditing : Bool}
    (discreet : ∀ service enricher, enrichers.get? service = some enricher → enricher.Discreet)
    (run : Relation.ReflTransGen (Step False)
      ⟨commons, Replica.start id settings enrichers auditing, .start⟩ engine)
    (tenant : TenantId) (caller : Principal) (query : PermissionQuery) :
    ∃ cached uncached : Decision,
      ((checkPermission tenant caller { query with useCache := true } : Act Engine Empty Decision)
        engine.newCall).1 = .ok cached ∧
      ((checkPermission tenant caller { query with useCache := false } : Act Engine Empty Decision)
        engine.newCall).1 = .ok uncached ∧
      (cached.unmarked = uncached.unmarked ∨ settings.checkTimeout ≠ none ∧
        (cached = Decision.deny Reason.deadline ∨ uncached = Decision.deny Reason.deadline)) := by
  have start : Coherent Regime.enriching
      ⟨commons, Replica.start id settings enrichers auditing, .start⟩ :=
    coherent_start_of_allowed sound id settings auditing fun _ =>
      ⟨discreet, fun plain => absurd trivial plain⟩
  obtain ⟨coherent, same⟩ :=
    start.of_run not_hurried_enriching (fun _ impossible => impossible) run
  have limit : engine.own.settings.checkTimeout = settings.checkTimeout :=
    congrArg Settings.checkTimeout same
  obtain ⟨cached, first, right⟩ :=
    coherent.exists_enriched_reply tenant caller { query with useCache := true }
  obtain ⟨uncached, second, rightToo⟩ :=
    coherent.exists_enriched_reply tenant caller { query with useCache := false }
  rw [limit] at right rightToo
  refine ⟨cached, uncached, first, second, ?_⟩
  rcases right with known | late
  · rcases rightToo with knownToo | lateToo
    · exact Or.inl (known.trans knownToo.symm)
    · exact Or.inr ⟨lateToo.1, Or.inr lateToo.2⟩
  · exact Or.inr ⟨late.1, Or.inl late.2⟩

section Examples

/-- Masks salaries and limits the rows to those that the subject owns. -/
def ownRows : Enricher := fun request decision =>
  if decision.allowed then
    { decision with
      fieldMasks := decision.fieldMasks ++ ["salary"]
      dataFilters := [("owner", .str request.subject)] }
  else decision

theorem discreet_ownRows : ownRows.Discreet where
  blind := by
    intro one other same
    have subject : one.subject = other.subject := congrArg DecisionSubject.subject same
    funext decision
    simp only [ownRows, subject]
  carried := by
    intro request evaluation
    unfold ownRows
    split
    · apply DecisionCache.carried_of_plain
      · exact List.pairwise_singleton ..
      · exact ⟨trivial, trivial⟩
      · rfl
    · exact Decision.carried_ofEvaluation evaluation

/-- An engine that has just been started over an empty store, with an enricher of one service. -/
def startedWith (enricher : Enricher) (settings : Settings) : Engine :=
  ⟨⟨.empty, .empty, false, .epoch, 0⟩, .start ⟨1⟩ settings [("orders", enricher)] false, .start⟩

def mayAnnReadFor (department : String) : PermissionQuery :=
  { mayAnnRead with context := [("dept", department)] }

/-- Ann has been asked about for the sales department, and the answer is cached. -/
def askedForSales (enricher : Enricher) (settings : Settings) : Engine :=
  (Command.checkPermission ⟨1⟩ ⟨"clerk", []⟩ (mayAnnReadFor "sales")).perform
    ((Command.create ⟨1⟩ annReads).perform (startedWith enricher settings).newCall).newCall

theorem run_askedForSales (enricher : Enricher) (settings : Settings) :
    Relation.ReflTransGen (Step False) (startedWith enricher settings)
      (askedForSales enricher settings) := by
  have admissible : (Command.create ⟨1⟩ annReads).Admissible
      (startedWith enricher settings).commons.store := ⟨by decide, rfl⟩
  exact (Relation.ReflTransGen.single (.call _ admissible)).tail (.call _ trivial)

theorem unmarked_eq_of_ownRows :
    (startedWith ownRows .default).commons.store.Sound ∧
    (∀ service enricher, Table.get? [("orders", ownRows)] service = some enricher →
      enricher.Discreet) ∧
    Relation.ReflTransGen (Step False) (startedWith ownRows .default)
      (askedForSales ownRows .default) ∧
    ∃ cached uncached : Decision,
      ((checkPermission ⟨1⟩ ⟨"clerk", []⟩ { mayAnnReadFor "hr" with useCache := true } :
        Act Engine Empty Decision) (askedForSales ownRows .default).newCall).1 = .ok cached ∧
      ((checkPermission ⟨1⟩ ⟨"clerk", []⟩ { mayAnnReadFor "hr" with useCache := false } :
        Act Engine Empty Decision) (askedForSales ownRows .default).newCall).1 = .ok uncached ∧
      (cached.unmarked = uncached.unmarked ∨ Settings.default.checkTimeout ≠ none ∧
        (cached = Decision.deny Reason.deadline ∨ uncached = Decision.deny Reason.deadline)) := by
  have sound : (startedWith ownRows .default).commons.store.Sound := RuleStore.sound_empty
  have discreet (service : String) (enricher : Enricher)
      (present : Table.get? [("orders", ownRows)] service = some enricher) : enricher.Discreet := by
    have known : enricher = ownRows := by
      simp only [Table.get?] at present
      split at present
      · exact (Option.some.inj present).symm
      · cases present
    exact known ▸ discreet_ownRows
  have run := run_askedForSales ownRows .default
  exact ⟨sound, discreet, run,
    unmarked_eq_of_discreet sound discreet run ⟨1⟩ ⟨"clerk", []⟩ (mayAnnReadFor "hr")⟩

/-- Adds a row filter that reads like an embedded text. -/
def embeddedRows : Enricher := fun _ decision =>
  { decision with dataFilters := [("rows", .obj [(Json.embeddedKey, .str "1")])] }

/-- The engine has forgotten its evaluators, but not what it has cached. -/
def forgetful (settings : Settings) : Engine :=
  ((shutdown : Act Engine Empty Unit) (askedForSales ownRows settings).newCall).2

/-- Searches take ten milliseconds, and checks may take five. -/
def overtaxed : Engine :=
  (forgetful { Settings.default with checkTimeout := some 5 }).setFindDelay 10

/-- The rule store is down. -/
def storeless : Engine :=
  (forgetful .default).withStore { (forgetful .default).commons.store with available := false }

/-- What a clerk is replied about ann, for a department. -/
def replyFor (department : String) (useCache : Bool) (engine : Engine) : Outcome Empty Decision :=
  ((checkPermission ⟨1⟩ ⟨"clerk", []⟩ { mayAnnReadFor department with useCache := useCache } :
    Act Engine Empty Decision) engine.newCall).1

def filter? (key : String) : Outcome Empty Decision → Option Json
  | .ok decision => decision.dataFilters.get? key
  | _ => none

def text? : Json → Option String
  | .str text => some text
  | _ => none

def isWhole : Json → Bool
  | .int _ => true
  | _ => false

theorem filters_of_masking :
    let engine := askedForSales (Enricher.masking ["salary"]) .default
    (filter? "dept" (replyFor "hr" true engine)).bind text? = some "sales" ∧
    (filter? "dept" (replyFor "hr" false engine)).bind text? = some "hr" := by
  constructor <;> decide +kernel

theorem filters_of_embeddedRows :
    let engine := askedForSales embeddedRows .default
    (filter? "rows" (replyFor "hr" true engine)).map isWhole = some true ∧
    (filter? "rows" (replyFor "hr" false engine)).map isWhole = some false := by
  constructor <;> decide +kernel

/-- The cache allows what is refused without it. -/
def AllowedByCacheAlone (engine : Engine) : Prop :=
  allowed? (replyFor "hr" true engine) = some true ∧
    allowed? (replyFor "hr" false engine) = some false

theorem allowedByCacheAlone_overtaxed : AllowedByCacheAlone overtaxed := by
  constructor <;> decide +kernel

theorem allowedByCacheAlone_storeless : AllowedByCacheAlone storeless := by
  constructor <;> decide +kernel

/-- An enricher that copies the context is asked once for both departments. Nor does the cache answer as
the evaluator does if an entry does not carry what was added, if there is a time limit, or if the rule
store is down. -/
theorem filters_of_sales_for_hr :
    let masking := askedForSales (Enricher.masking ["salary"]) .default
    let embedded := askedForSales embeddedRows .default
    ((mayAnnReadFor "sales").toRequest ⟨1⟩ ⟨"clerk", []⟩).about =
      ((mayAnnReadFor "hr").toRequest ⟨1⟩ ⟨"clerk", []⟩).about ∧
    (filter? "dept" (replyFor "hr" true masking)).bind text? = some "sales" ∧
    (filter? "dept" (replyFor "hr" false masking)).bind text? = some "hr" ∧
    (filter? "rows" (replyFor "hr" true embedded)).map isWhole = some true ∧
    (filter? "rows" (replyFor "hr" false embedded)).map isWhole = some false ∧
    AllowedByCacheAlone overtaxed ∧ AllowedByCacheAlone storeless :=
  ⟨rfl, filters_of_masking.1, filters_of_masking.2, filters_of_embeddedRows.1,
    filters_of_embeddedRows.2, allowedByCacheAlone_overtaxed, allowedByCacheAlone_storeless⟩

end Examples

end Engine

end AccessPolicy
