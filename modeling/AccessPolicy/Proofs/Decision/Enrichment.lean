import AccessPolicy.Engine.Check
import AccessPolicy.Proofs.DecisionCache.Entry

/-!
What enrichers add to decisions. A cached decision is served to every request with the same key. It is
right for all of them if the enricher reads nothing else of a request, and if an entry of the cache
carries what it adds.
-/
namespace AccessPolicy

theorem Decision.unmarked_ofEvaluation (evaluation : Evaluation) :
    (Decision.ofEvaluation evaluation).unmarked = Decision.ofEvaluation evaluation := by
  unfold Decision.unmarked Decision.ofEvaluation
  split
  · rfl
  · split <;> rfl

theorem Decision.dataFilters_ofEvaluation (evaluation : Evaluation) :
    (Decision.ofEvaluation evaluation).dataFilters = [] := by
  unfold Decision.ofEvaluation
  split
  · rfl
  · split <;> rfl

theorem Decision.carried_ofEvaluation (evaluation : Evaluation) :
    DecisionCache.Carried (Decision.ofEvaluation evaluation).unmarked :=
  DecisionCache.carried_of_unfiltered (Decision.dataFilters_ofEvaluation evaluation)

/-- A request of which nothing is given but what the cache key names. -/
def DecisionSubject.asked (about : DecisionSubject) : CheckRequest :=
  ⟨about.tenant, about.service, about.subject, about.object, about.action, [], []⟩

/-- The enricher does not tell requests with the same cache key apart, and what it makes of a ruling is
carried by an entry of the cache. -/
structure Enricher.Discreet (enricher : Enricher) : Prop where
  blind : ∀ one other : CheckRequest, one.about = other.about → enricher one = enricher other
  carried : ∀ request evaluation,
    DecisionCache.Carried (enricher request (Decision.ofEvaluation evaluation)).unmarked

/-- The enrichers of services are discreet, and there are none unless decisions may be enriched. -/
structure Enricher.Allowed (enrichers : Table String Enricher) (enriched : Prop) : Prop where
  discreet : ∀ service enricher, enrichers.get? service = some enricher → enricher.Discreet
  plain : ¬ enriched → enrichers = []

/-- What enrichers add to the decision about a subject, as far as it can be told from the cache key. -/
def Enricher.adds (enrichers : Table String Enricher) (about : DecisionSubject)
    (decision : Decision) : Decision :=
  match enrichers.get? about.service with
  | some enricher => enricher about.asked decision
  | none => decision

namespace Enricher

variable {enrichers : Table String Enricher} {enriched : Prop}

theorem allowed_of_plain (plain : enrichers = []) : Allowed enrichers enriched := by
  refine ⟨fun service enricher present => ?_, fun _ => plain⟩
  rw [plain] at present
  cases present

theorem Allowed.carried (allowed : Allowed enrichers enriched) (about : DecisionSubject)
    (evaluation : Evaluation) :
    DecisionCache.Carried (adds enrichers about (Decision.ofEvaluation evaluation)).unmarked := by
  unfold adds
  split
  · rename_i enricher present
    exact (allowed.discreet _ _ present).carried _ evaluation
  · exact Decision.carried_ofEvaluation evaluation

end Enricher

/-- What is added to the decision of a request can be told from its cache key. -/
theorem Engine.enrich_eq_adds {engine : Engine} {enriched : Prop}
    (allowed : Enricher.Allowed engine.own.enrichers enriched) (request : CheckRequest)
    (decision : Decision) :
    engine.enrich request decision =
      Enricher.adds engine.own.enrichers request.about decision := by
  unfold enrich Enricher.adds
  change _ = match engine.own.enrichers.get? request.service with
    | some enricher => enricher request.about.asked decision
    | none => decision
  cases present : engine.own.enrichers.get? request.service with
  | none => rfl
  | some enricher =>
    have blind := (allowed.discreet _ _ present).blind request request.about.asked rfl
    exact congrFun blind decision

end AccessPolicy
