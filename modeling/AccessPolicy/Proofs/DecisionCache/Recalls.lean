import AccessPolicy.Proofs.DecisionCache.Keeps
import AccessPolicy.Proofs.Evaluator.Lasting

/-!
What a cache recalls. Decisions and role sets alike are answers about a subject that are served up to
a bound; what is known of them all is one predicate.
-/
namespace AccessPolicy

/-- What is known of an answer: the tenant and the subject it is about, the bound from which it is
not served, and which evaluators give it. -/
def Knowledge : Type :=
  TenantId → String → Option Instant → (Evaluator → Prop) → Prop

/-- What cached answers of a tenant are about: the decisions of a service, or the roles of a subject. -/
inductive Topic where
  | decisions (service : String)
  | roleSet (subject : String)

/-- Nothing that is cached is stale. -/
def NoneStale : TenantId → Topic → Prop :=
  fun _ _ => False

/-- Answers about current tenants last. -/
def Lasts (current : TenantId → Prop) (laws : TenantId → List Rule) (now : Instant) : Knowledge :=
  fun tenant subject bound answer =>
    current tenant → Evaluator.Lasting (laws tenant) now subject bound answer

/-- The decision of a request about a subject, with what is added to it. -/
def Evaluator.AnswersWith (adds : DecisionSubject → Decision → Decision) (about : DecisionSubject)
    (decision : Decision) (evaluator : Evaluator) : Prop :=
  ∃ ruled, Answers about ruled evaluator ∧ decision = (adds about ruled).unmarked

theorem Evaluator.localTo_decisionWith (adds : DecisionSubject → Decision → Decision)
    (about : DecisionSubject) (decision : Decision) :
    LocalTo about.subject (AnswersWith adds about decision) := by
  rintro one other agree ⟨ruled, answers, added⟩
  exact ⟨ruled, localTo_decision about ruled one other agree answers, added⟩

namespace DecisionCache

/-- Every entry is an answer, with what is added to a decision, and something is known of it unless it
is stale. -/
def Recalls (cache : DecisionCache) (adds : DecisionSubject → Decision → Decision)
    (stale : TenantId → Topic → Prop) (known : Knowledge) : Prop :=
  cache.Keeps
    (fun about decision bound => ¬ stale about.tenant (.decisions about.service) →
      known about.tenant about.subject bound (Evaluator.AnswersWith adds about decision))
    (fun tenant subject roles bound => ¬ stale tenant (.roleSet subject) →
      known tenant subject bound (fun evaluator => roles = evaluator.rolesOf subject))

variable {cache other : DecisionCache} {adds : DecisionSubject → Decision → Decision}
variable {stale : TenantId → Topic → Prop} {known less : Knowledge}

theorem recalls_ofSeconds (decisionTtl roleTtl : Nat) :
    (ofSeconds decisionTtl roleTtl).Recalls adds stale known :=
  keeps_ofSeconds decisionTtl roleTtl

theorem Recalls.of_narrows (recalls : cache.Recalls adds stale known)
    (narrows : other.backend.Narrows cache.backend) : other.Recalls adds stale known :=
  Keeps.of_narrows recalls narrows

theorem Recalls.weaken (recalls : cache.Recalls adds stale known)
    (weaken : ∀ tenant subject bound answer, Evaluator.LocalTo subject answer →
      known tenant subject bound answer → less tenant subject bound answer) :
    cache.Recalls adds stale less :=
  Keeps.weaken recalls
    (fun about decision _ known fresh =>
      weaken _ _ _ _ (Evaluator.localTo_decisionWith adds about decision) (known fresh))
    (fun _ subject roles _ known fresh =>
      weaken _ _ _ _ (Evaluator.localTo_rolesOf subject roles) (known fresh))

theorem Recalls.invalidateSubjects (recalls : cache.Recalls adds stale known)
    (available : cache.backend.available = true) (tenant : TenantId) (subjects : List String) :
    (cache.invalidateSubjects tenant subjects).2.Recalls adds stale (fun owner subject bound answer =>
      known owner subject bound answer ∧ ¬ (owner = tenant ∧ subject ∈ subjects)) :=
  (Keeps.invalidateSubjects recalls available tenant subjects).weaken
    (fun _ _ _ left fresh => ⟨left.1 fresh, left.2⟩)
    (fun _ _ _ _ left fresh => ⟨left.1 fresh, left.2⟩)

theorem Recalls.invalidateTenant (recalls : cache.Recalls adds stale known)
    (available : cache.backend.available = true) (tenant : TenantId) :
    (cache.invalidateTenant tenant).2.Recalls adds stale (fun owner subject bound answer =>
      known owner subject bound answer ∧ owner ≠ tenant) :=
  (Keeps.invalidateTenant recalls available tenant).weaken
    (fun _ _ _ left fresh => ⟨left.1 fresh, left.2⟩)
    (fun _ _ _ _ left fresh => ⟨left.1 fresh, left.2⟩)

theorem recalls_invalidateAll (available : cache.backend.available = true) :
    (cache.invalidateAll none).2.Recalls adds stale known :=
  (Keeps.invalidateAll available).weaken (fun _ _ _ impossible => impossible.elim)
    (fun _ _ _ _ impossible => impossible.elim)

end DecisionCache

section Lasts

variable {current : TenantId → Prop} {laws others : TenantId → List Rule} {now later : Instant}
variable {tenant : TenantId} {subject : String} {bound : Option Instant} {answer : Evaluator → Prop}

theorem Lasts.after (shared : Evaluator.LocalTo subject answer)
    (lasts : Lasts current laws now tenant subject bound answer) (order : now ≤ later)
    (ordinary : later.isLeap = false) : Lasts current laws later tenant subject bound answer :=
  fun member => (lasts member).after shared order ordinary

theorem Lasts.alike (shared : Evaluator.LocalTo subject answer)
    (lasts : Lasts current laws now tenant subject bound answer)
    (alike : ∀ tenant, current tenant → AlikeRules now (laws tenant) (others tenant)) :
    Lasts current others now tenant subject bound answer :=
  fun member => (lasts member).alike shared (alike tenant member)

end Lasts

end AccessPolicy
