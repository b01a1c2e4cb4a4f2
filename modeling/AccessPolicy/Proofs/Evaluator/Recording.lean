import AccessPolicy.Proofs.Evaluator.DenyOverrides
import AccessPolicy.Proofs.Evaluator.Explanation
import AccessPolicy.Proofs.Evaluator.Linked

/-!
What an evaluator records for the id of a rule, as rules are added and taken out in any order. An id is
recorded under one thing at most, and is gone once it is taken out, as long as no rule is added while its
id is recorded under something else; one such call is enough to spoil it.
-/
namespace AccessPolicy

/-- A call that changes what an evaluator records. -/
inductive Revision where
  | insert (rule : Rule)
  | remove (rule : Rule)

namespace Evaluator

def revise (evaluator : Evaluator) : Revision → Except EvaluatorError Bool × Evaluator
  | .insert rule => evaluator.insert rule
  | .remove rule => evaluator.remove rule

/-- The evaluator after calls, whatever they return. -/
def revised (evaluator : Evaluator) (calls : List Revision) : Evaluator :=
  calls.foldl (fun evaluator call => (evaluator.revise call).2) evaluator

/-- The id is recorded under one grant or membership at most. -/
def Single (evaluator : Evaluator) (id : RuleId) : Prop :=
  ∀ one other, evaluator.Holds one id → evaluator.Holds other id → one = other

/-- The rule's id is recorded under something else than what the rule compiles to. -/
def Clashes (evaluator : Evaluator) (rule : Rule) : Prop :=
  ∃ made held, rule.compile = .ok made ∧ evaluator.Holds held rule.id ∧ held ≠ made

/-- The id is not compiled, and nothing that the evaluator answers cites it. -/
structure Forgets (evaluator : Evaluator) (id : RuleId) : Prop where
  compiled : evaluator.contains id = false
  verdicts : ∀ subject service object action,
    id ∉ (evaluator.enforce subject service object action).matchedRules
  listings : ∀ subject service inherited,
    ∀ entry ∈ evaluator.permissionsOf subject service inherited, id ∉ entry.ruleIds

/-- The calls of a run are idempotent for an id: it is never recorded under more than one thing, is added
only when it is not compiled, and is gone when it is taken out, whatever the call returns. -/
structure Idempotent (start : Evaluator) (calls : List Revision) (id : RuleId) : Prop where
  single : ∀ n, (start.revised (calls.take n)).Single id
  inserted : ∀ n rule, calls[n]? = some (.insert rule) → rule.id = id →
    (((start.revised (calls.take n)).insert rule).1 = .ok true ↔
      (∃ made, rule.compile = .ok made) ∧ (start.revised (calls.take n)).contains id = false)
  removed : ∀ n rule, calls[n]? = some (.remove rule) → rule.id = id →
    ((start.revised (calls.take n)).remove rule).2.Forgets id

/-- No rule is added under the id while the id is recorded under something else. -/
def Careful (start : Evaluator) (calls : List Revision) (id : RuleId) : Prop :=
  ∀ n rule, calls[n]? = some (.insert rule) → rule.id = id →
    ¬ (start.revised (calls.take n)).Clashes rule

variable {evaluator : Evaluator} {rule : Rule} {id : RuleId}

section Insert

theorem insert_eq_ok_true_iff : (evaluator.insert rule).1 = .ok true ↔
    ∃ made, rule.compile = .ok made ∧ ¬ evaluator.Holds made rule.id := by
  cases compiles : rule.compile with
  | error reason => simp [insert_of_error compiles]
  | ok made =>
    unfold insert
    rw [compiles]
    cases made with
    | grant grant =>
      dsimp only [addGrant]
      split <;> simp_all [Holds]
    | membership membership =>
      dsimp only [addMembership]
      split <;> simp_all [Holds]

/-- A rule that does not clash with what is recorded is added unless its id is there. -/
theorem insert_eq_ok_true_iff_of_fits (fits : ¬ evaluator.Clashes rule) :
    (evaluator.insert rule).1 = .ok true ↔
      (∃ made, rule.compile = .ok made) ∧ evaluator.contains rule.id = false := by
  rw [insert_eq_ok_true_iff, ← Bool.not_eq_true, contains_iff]
  constructor
  · rintro ⟨made, compiles, absent⟩
    refine ⟨⟨made, compiles⟩, fun ⟨held, recorded⟩ => fits ⟨made, held, compiles, recorded, ?_⟩⟩
    rintro rfl
    exact absent recorded
  · rintro ⟨⟨made, compiles⟩, unrecorded⟩
    exact ⟨made, compiles, fun recorded => unrecorded ⟨made, recorded⟩⟩

/-- What is added under another id does not matter to an id. -/
theorem holds_insert_of_ne (different : id ≠ rule.id) (compiled : Compiled) :
    (evaluator.insert rule).2.Holds compiled id ↔ evaluator.Holds compiled id := by
  cases compiles : rule.compile with
  | error reason => rw [insert_of_error compiles]
  | ok made => rw [holds_insert compiles, or_iff_left fun added => different added.2]

/-- A rule that is added leaves its id under one thing exactly if it did not clash. -/
theorem Single.insert_iff (single : evaluator.Single rule.id) :
    (evaluator.insert rule).2.Single rule.id ↔ ¬ evaluator.Clashes rule := by
  constructor
  · rintro after ⟨made, held, compiles, recorded, different⟩
    refine different (after held made ?_ ?_)
    · exact (holds_insert compiles held rule.id).mpr (Or.inl recorded)
    · exact (holds_insert compiles made rule.id).mpr (Or.inr ⟨rfl, rfl⟩)
  · intro fits
    cases compiles : rule.compile with
    | error reason => rwa [insert_of_error compiles]
    | ok made =>
      have all (held : Compiled) (recorded : (evaluator.insert rule).2.Holds held rule.id) :
          held = made := by
        rcases (holds_insert compiles held rule.id).mp recorded with old | ⟨same, _⟩
        · exact Classical.byContradiction fun different => fits ⟨made, held, compiles, old, different⟩
        · exact same
      exact fun one other holdsOne holdsOther => (all one holdsOne).trans (all other holdsOther).symm

end Insert

section Remove

theorem mem_erase_found_of_ne {α : Type} [DecidableEq α] {entries : List (α × RuleId)}
    {removed : RuleId} {entry : α × RuleId}
    (found : entries.find? (·.2 = removed) = some entry) (different : id ≠ removed) (value : α) :
    (value, id) ∈ entries.erase entry ↔ (value, id) ∈ entries := by
  have same : entry.2 = removed := by simpa using List.find?_some found
  refine List.mem_erase_of_ne ?_
  rintro rfl
  exact different same

/-- What is taken out under another id does not matter to an id. -/
theorem holds_remove_of_ne (different : id ≠ rule.id) (compiled : Compiled) :
    (evaluator.remove rule).2.Holds compiled id ↔ evaluator.Holds compiled id := by
  rw [remove_eq]
  cases found : evaluator.grants.find? (·.2 = rule.id) with
  | some entry =>
    cases compiled with
    | grant grant => exact mem_erase_found_of_ne found different grant
    | membership membership => exact Iff.rfl
  | none =>
    cases foundToo : evaluator.memberships.find? (·.2 = rule.id) with
    | none => exact Iff.rfl
    | some entry =>
      cases compiled with
      | grant grant => exact Iff.rfl
      | membership membership => exact mem_erase_found_of_ne foundToo different membership

/-- What is not recorded is not cited. -/
theorem forgets_of_absent (absent : ∀ compiled, ¬ evaluator.Holds compiled id) :
    evaluator.Forgets id where
  compiled := by
    rw [← Bool.not_eq_true, contains_iff]
    rintro ⟨compiled, recorded⟩
    exact absent compiled recorded
  verdicts := fun subject service object action cited => by
    have ruling := ruling_enforce evaluator subject service object action
    obtain ⟨_, grant, recorded, _⟩ := (ruling.mem_matchedRules_iff id).mp cited
    exact absent (.grant grant) recorded
  listings := fun subject service inherited entry listed cited => by
    obtain ⟨grants, _, _, shown⟩ := exists_permissionsOf_eq_map evaluator subject service inherited
    rw [shown] at listed
    obtain ⟨grant, _, rfl⟩ := List.mem_map.mp listed
    exact absent (.grant grant) (mem_rulesOf_iff.mp cited)

theorem Single.absent_remove (single : evaluator.Single rule.id) (distinct : evaluator.Distinct)
    (compiled : Compiled) : ¬ (evaluator.remove rule).2.Holds compiled rule.id :=
  fun recorded => ((holds_remove distinct single compiled rule.id).mp recorded).2 rfl

end Remove

section Run

variable {start : Evaluator} {calls : List Revision}

theorem Distinct.revise (distinct : evaluator.Distinct) (call : Revision) :
    (evaluator.revise call).2.Distinct := by
  cases call with
  | insert rule => exact distinct.insert rule
  | remove rule => exact distinct.remove rule

theorem Distinct.revised (distinct : start.Distinct) (calls : List Revision) :
    (start.revised calls).Distinct := by
  induction calls generalizing start with
  | nil => exact distinct
  | cons call rest ih => exact ih (distinct.revise call)

theorem revised_take_succ {n : Nat} {call : Revision} (next : calls[n]? = some call) :
    start.revised (calls.take (n + 1)) = ((start.revised (calls.take n)).revise call).2 := by
  rw [revised, List.take_add_one, next, List.foldl_append]
  rfl

theorem revised_take_succ_of_end {n : Nat} (ended : calls[n]? = none) :
    start.revised (calls.take (n + 1)) = start.revised (calls.take n) := by
  rw [List.take_add_one, ended]
  simp

/-- An id stays under one thing through a call that does not clash. -/
theorem Single.revise (single : evaluator.Single id) (distinct : evaluator.Distinct)
    {call : Revision}
    (fits : ∀ rule, call = .insert rule → rule.id = id → ¬ evaluator.Clashes rule) :
    (evaluator.revise call).2.Single id := by
  cases call with
  | insert rule =>
    by_cases own : rule.id = id
    · subst own
      exact single.insert_iff.mpr (fits rule rfl rfl)
    · have kept (held : Compiled) := @holds_insert_of_ne evaluator rule id (Ne.symm own) held
      exact fun one other holdsOne holdsOther =>
        single one other ((kept one).mp holdsOne) ((kept other).mp holdsOther)
  | remove rule =>
    by_cases own : rule.id = id
    · subst own
      exact fun one _ holdsOne _ => absurd holdsOne (single.absent_remove distinct one)
    · have kept (held : Compiled) := @holds_remove_of_ne evaluator rule id (Ne.symm own) held
      exact fun one other holdsOne holdsOther =>
        single one other ((kept one).mp holdsOne) ((kept other).mp holdsOther)

theorem Single.revised (single : start.Single id) (distinct : start.Distinct)
    (careful : start.Careful calls id) (n : Nat) : (start.revised (calls.take n)).Single id := by
  induction n with
  | zero => exact single
  | succ n ih =>
    cases next : calls[n]? with
    | none => rwa [revised_take_succ_of_end next]
    | some call =>
      rw [revised_take_succ next]
      exact ih.revise (distinct.revised _) fun rule added => careful n rule (added ▸ next)

/-- A run is idempotent for an id exactly if it starts so and is careful. -/
theorem idempotent_iff (distinct : start.Distinct) :
    start.Idempotent calls id ↔ start.Single id ∧ start.Careful calls id := by
  constructor
  · intro idempotent
    refine ⟨idempotent.single 0, fun n rule next own => ?_⟩
    have before := idempotent.single n
    have after := idempotent.single (n + 1)
    rw [revised_take_succ next] at after
    subst own
    exact before.insert_iff.mp after
  · rintro ⟨single, careful⟩
    have always := single.revised distinct careful
    refine ⟨always, fun n rule next own => ?_, fun n rule _ own => ?_⟩
    · subst own
      exact insert_eq_ok_true_iff_of_fits (careful n rule next rfl)
    · subst own
      exact forgets_of_absent ((always n).absent_remove (distinct.revised _))

end Run

section Build

variable {tenant : TenantId} {rules : List Rule} {now : Instant} {start : Evaluator}

/-- The rules in force under an id compile to the same. -/
def OneVersion (tenant : TenantId) (rules : List Rule) (now : Instant) (id : RuleId) : Prop :=
  ∀ one other, InForce tenant rules now one → InForce tenant rules now other →
    one.id = id → other.id = id →
      ∀ made madeToo, one.compile = .ok made → other.compile = .ok madeToo → made = madeToo

theorem single_iff_of_build (built : build tenant rules now = .ok start) :
    start.Single id ↔ OneVersion tenant rules now id := by
  constructor
  · intro single one other counts countsToo own ownToo made madeToo compiles compilesToo
    refine single made madeToo ?_ ?_
    · exact (holds_iff_of_build built).mpr ⟨one, counts, compiles, own⟩
    · exact (holds_iff_of_build built).mpr ⟨other, countsToo, compilesToo, ownToo⟩
  · intro oneVersion made madeToo recorded recordedToo
    obtain ⟨one, counts, compiles, own⟩ := (holds_iff_of_build built).mp recorded
    obtain ⟨other, countsToo, compilesToo, ownToo⟩ := (holds_iff_of_build built).mp recordedToo
    exact oneVersion one other counts countsToo own ownToo made madeToo compiles compilesToo

/-- Adding and taking out rules is idempotent for an id, from a build on and for any calls, exactly if the
rules that were built say one thing under the id, and no rule is added under it while it is recorded under
something else. -/
theorem idempotent_iff_of_build (built : build tenant rules now = .ok start)
    (calls : List Revision) (id : RuleId) :
    start.Idempotent calls id ↔ OneVersion tenant rules now id ∧ start.Careful calls id := by
  rw [idempotent_iff (mirrors_of_build built).distinct, single_iff_of_build built]

/-- Rule 1 in its versions, each of which lets ann do one thing with documents. -/
def annMay (action : String) : Rule :=
  { Rule.ofPermission ⟨7⟩ "cms" ⟨"ann", "/docs/*", action, .allow⟩ .epoch with id := ⟨1⟩ }

def annMayGrant (action : String) : Grant :=
  ⟨"ann", "cms", "/docs/*", action, .allow⟩

theorem compile_annMay (action : String) :
    (annMay action).compile = .ok (.grant (annMayGrant action)) := by
  have accepted : ObjectPattern.problem? "/docs/*" = none := by decide
  refine Rule.compile_eq_grant_iff.mpr ⟨⟨"ann", "/docs/*", action, .allow⟩, ⟨?_, accepted⟩, rfl⟩
  simp [Rule.kind, annMay, Rule.ofPermission, Rule.blank, isPermissionType, Effect.text,
    Effect.ofText]

/-- A version fits where the rule is recorded as that version or not at all. -/
theorem fits_annMay {action : String} (memberships : evaluator.memberships = [])
    (grants : ∀ entry ∈ evaluator.grants, entry.1 = annMayGrant action) :
    ¬ evaluator.Clashes (annMay action) := by
  rintro ⟨made, held, compiles, recorded, different⟩
  rw [compile_annMay] at compiles
  cases compiles
  cases held with
  | grant grant => exact different (congrArg Compiled.grant (grants _ recorded))
  | membership membership =>
    have none : (membership, (annMay action).id) ∈ evaluator.memberships := recorded
    rw [memberships] at none
    cases none

/-- The rule is added twice, taken out, and added in another version. -/
def annRenewed : List Revision :=
  [.insert (annMay "read"), .insert (annMay "read"), .remove (annMay "read"), .insert (annMay "write")]

theorem careful_annRenewed : (bare ⟨7⟩ none .epoch).Careful annRenewed ⟨1⟩ := by
  rintro n rule next -
  rcases n with _ | _ | _ | _ | n
  · cases next
    exact fits_annMay rfl (by decide)
  · cases next
    exact fits_annMay (by decide) (by decide)
  · cases next
  · cases next
    exact fits_annMay (by decide) (by decide)
  · simp [annRenewed] at next

/-- A rule that is taken out before it is added in another version is compiled once, and not at all in
between. -/
theorem idempotent_of_annRenewed : ∃ start, build ⟨7⟩ [] .epoch = .ok start ∧
    OneVersion ⟨7⟩ [] .epoch ⟨1⟩ ∧ start.Careful annRenewed ⟨1⟩ ∧
      (start.revised (annRenewed.take 3)).Forgets ⟨1⟩ ∧
        (start.revised annRenewed).Single ⟨1⟩ ∧ (start.revised annRenewed).contains ⟨1⟩ = true := by
  have oneVersion : OneVersion ⟨7⟩ [] .epoch ⟨1⟩ := fun one _ counts =>
    absurd counts.stored List.not_mem_nil
  have built : build ⟨7⟩ [] .epoch = .ok (bare ⟨7⟩ none .epoch) := rfl
  have idempotent := (idempotent_iff_of_build built annRenewed ⟨1⟩).mpr
    ⟨oneVersion, careful_annRenewed⟩
  exact ⟨bare ⟨7⟩ none .epoch, built, oneVersion, careful_annRenewed, idempotent.removed 2 _ rfl rfl,
    idempotent.single 4, by decide⟩

/-- A rule that is added in another version while it is compiled is recorded under both, though its id was
compiled before, and it is still compiled after it was taken out. -/
theorem compiled_after_removal : ∃ start, build ⟨7⟩ [] .epoch = .ok start ∧
    (start.revised [.insert (annMay "read")]).contains ⟨1⟩ = true ∧
    ((start.revised [.insert (annMay "read")]).insert (annMay "write")).1 = .ok true ∧
    ¬ (start.revised [.insert (annMay "read"), .insert (annMay "write")]).Single ⟨1⟩ ∧
    ((start.revised [.insert (annMay "read"), .insert (annMay "write")]).remove
      (annMay "write")).1 = .ok true ∧
    ((start.revised [.insert (annMay "read"), .insert (annMay "write")]).remove
      (annMay "write")).2.contains ⟨1⟩ = true := by
  refine ⟨bare ⟨7⟩ none .epoch, rfl, by decide, by decide, fun single => ?_, by decide, by decide⟩
  have same := single (.grant (annMayGrant "read")) (.grant (annMayGrant "write"))
    (by simp only [Holds]; decide) (by simp only [Holds]; decide)
  exact absurd same (by decide)

end Build

end Evaluator

end AccessPolicy
