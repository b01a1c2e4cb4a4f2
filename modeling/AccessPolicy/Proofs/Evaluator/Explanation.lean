import AccessPolicy.Proofs.Evaluator.Listing
import AccessPolicy.Proofs.Evaluator.Verdict
import Mathlib.Data.List.Nodup

/-!
A listing explains the verdicts. It shows the grants of a subject and of its roles, each of them once,
and the entries that speak of an object and an action are all that a verdict depends on.
-/
namespace AccessPolicy

namespace Evaluator

/-- A grant that the listing of a subject is to show. -/
structure Shows (evaluator : Evaluator) (subject : String) (service : Option String)
    (inherited : Bool) (grant : Grant) : Prop where
  held : ∃ id, evaluator.Holds (.grant grant) id
  holder : grant.subject = subject ∨
    inherited = true ∧ evaluator.Reaches .roles subject grant.subject
  service : ∀ name, service = some name → grant.service = name ∨ grant.service = "*"

/-- A grant as the listing of a subject shows it. -/
def entryFor (evaluator : Evaluator) (subject : String) (grant : Grant) : GrantedPermission :=
  ⟨grant.service, grant.object, grant.action, grant.effect,
    if grant.subject = subject then GrantedPermission.direct else grant.subject,
    evaluator.rulesOf grant⟩

section Listed

variable {evaluator : Evaluator} {subject : String} {service : Option String} {inherited : Bool}

/-- The grants of one holder, for a service or for all. -/
def grantsOf (evaluator : Evaluator) (holder : String) (service : Option String) : List Grant :=
  (evaluator.grants.map Prod.fst).eraseDups.filter (fun grant => grant.subject = holder &&
    service.all (fun name => grant.service = name || grant.service = "*"))

theorem mem_grantsOf_iff {holder : String} {grant : Grant} :
    grant ∈ evaluator.grantsOf holder service ↔
      (∃ id, evaluator.Holds (.grant grant) id) ∧ grant.subject = holder ∧
        ∀ name, service = some name → grant.service = name ∨ grant.service = "*" := by
  rw [grantsOf, List.mem_filter, mem_grants_iff]
  simp only [Bool.and_eq_true, decide_eq_true_eq, Option.all_eq_true, Bool.or_eq_true]

theorem heldBy_eq_map (holder source : String) : evaluator.heldBy holder source service =
    (evaluator.grantsOf holder service).map (fun grant => ⟨grant.service, grant.object,
      grant.action, grant.effect, source, evaluator.rulesOf grant⟩) := rfl

theorem heldBy_subject : evaluator.heldBy subject GrantedPermission.direct service =
    (evaluator.grantsOf subject service).map (evaluator.entryFor subject) := by
  rw [heldBy_eq_map]
  refine List.map_congr_left fun grant present => ?_
  rw [entryFor, if_pos (mem_grantsOf_iff.mp present).2.1]

theorem heldBy_role {role : String} (away : role ≠ subject) : evaluator.heldBy role role service =
    (evaluator.grantsOf role service).map (evaluator.entryFor subject) := by
  rw [heldBy_eq_map]
  refine List.map_congr_left fun grant present => ?_
  have holder := (mem_grantsOf_iff.mp present).2.1
  rw [entryFor, if_neg (holder.trans_ne away), holder]

/-- The holders whose grants a listing shows: the subject first, which is none of its roles. -/
def holdersOf (evaluator : Evaluator) (subject : String) (inherited : Bool) : List String :=
  subject :: if inherited then evaluator.rolesOf subject else []

theorem mem_holdersOf_iff {holder : String} : holder ∈ evaluator.holdersOf subject inherited ↔
    holder = subject ∨ inherited = true ∧ evaluator.Reaches .roles subject holder := by
  cases inherited with
  | false => simp [holdersOf]
  | true =>
    rw [holdersOf, if_pos rfl, eq_self, true_and, List.mem_cons]
    by_cases same : holder = subject
    · simp [same]
    · exact or_congr_right (Hierarchy.mem_reach_iff.trans (and_iff_right same))

theorem nodup_holdersOf : (evaluator.holdersOf subject inherited).Nodup := by
  have roles : (evaluator.rolesOf subject).Nodup := by
    refine (Hierarchy.pairwise_reach _ _).imp fun before same => ?_
    exact String.lt_irrefl _ (same ▸ before)
  have away : subject ∉ evaluator.rolesOf subject := fun member =>
    (Hierarchy.mem_reach_iff.mp member).1 rfl
  cases inherited
  · exact List.nodup_singleton subject
  · exact List.nodup_cons.mpr ⟨away, roles⟩

/-- The grants that a listing shows, holder by holder. -/
def shown (evaluator : Evaluator) (subject : String) (service : Option String)
    (inherited : Bool) : List Grant :=
  (evaluator.holdersOf subject inherited).flatMap (fun holder => evaluator.grantsOf holder service)

theorem mem_shown_iff {grant : Grant} : grant ∈ evaluator.shown subject service inherited ↔
    evaluator.Shows subject service inherited grant := by
  simp only [shown, List.mem_flatMap, mem_grantsOf_iff]
  constructor
  · rintro ⟨_, holder, held, rfl, serves⟩
    exact ⟨held, mem_holdersOf_iff.mp holder, serves⟩
  · rintro ⟨held, holder, serves⟩
    exact ⟨grant.subject, mem_holdersOf_iff.mpr holder, held, rfl, serves⟩

theorem nodup_shown : (evaluator.shown subject service inherited).Nodup := by
  rw [shown, List.nodup_flatMap]
  refine ⟨fun holder _ => (nodup_eraseDups _).filter _, nodup_holdersOf.imp ?_⟩
  -- Different holders have different grants.
  intro first second different grant member other
  exact different ((mem_grantsOf_iff.mp member).2.1.symm.trans (mem_grantsOf_iff.mp other).2.1)

theorem map_shown : (evaluator.shown subject service inherited).map (evaluator.entryFor subject) =
    evaluator.heldBy subject GrantedPermission.direct service ++
      (if inherited then evaluator.rolesOf subject else []).flatMap
        (fun role => evaluator.heldBy role role service) := by
  rw [shown, holdersOf, List.flatMap_cons, List.map_append, heldBy_subject, List.map_flatMap]
  congr 1
  refine List.flatMap_congr fun role member => ?_
  refine (heldBy_role ?_).symm
  rintro rfl
  cases inherited
  · cases member
  · exact (Hierarchy.mem_reach_iff.mp member).1 rfl

/-- A listing shows the grants that it is to show, and none of them twice. -/
theorem exists_permissionsOf_eq_map (evaluator : Evaluator) (subject : String)
    (service : Option String) (inherited : Bool) :
    ∃ grants : List Grant, grants.Nodup ∧
      (∀ grant, grant ∈ grants ↔ evaluator.Shows subject service inherited grant) ∧
        evaluator.permissionsOf subject service inherited =
          grants.map (evaluator.entryFor subject) := by
  let grants := (evaluator.shown subject service inherited).mergeSort
    (fun one other => (evaluator.entryFor subject one).notAfter (evaluator.entryFor subject other))
  have perm : grants.Perm (evaluator.shown subject service inherited) :=
    List.mergeSort_perm _ _
  refine ⟨grants, perm.nodup_iff.mpr nodup_shown, fun grant => ?_, ?_⟩
  · rw [perm.mem_iff, mem_shown_iff]
  · symm
    rw [List.map_mergeSort (s := GrantedPermission.notAfter) (fun _ _ _ _ => rfl), map_shown]
    rfl

end Listed

/-- An entry of a listing speaks of an object and an action. -/
structure Concerns (evaluator : Evaluator) (object action : String)
    (entry : GrantedPermission) : Prop where
  object : entry.object = "*" ∨ ObjectPattern.accepts entry.object object = true ∨
    entry.object ≠ object ∧ evaluator.Reaches .resources object entry.object
  action : entry.action = action ∨ entry.action = "*"

/-- A verdict is what the entries of a listing that speak of the request make it: a deny among them
forbids, else an allow permits, and the rules behind the deciding ones are named. -/
structure Explains (evaluator : Evaluator) (listing : List GrantedPermission)
    (object action : String) (evaluation : Evaluation) : Prop where
  allowed_iff : evaluation.allowed = true ↔
    (∃ entry ∈ listing, evaluator.Concerns object action entry ∧ entry.effect = .allow) ∧
      ¬ ∃ entry ∈ listing, evaluator.Concerns object action entry ∧ entry.effect = .deny
  explicitDeny_iff : evaluation.explicitDeny = true ↔
    ∃ entry ∈ listing, evaluator.Concerns object action entry ∧ entry.effect = .deny
  ascending : evaluation.matchedRules.Pairwise (· < ·)
  mem_matchedRules_iff : ∀ id, id ∈ evaluation.matchedRules ↔
    ∃ entry ∈ listing, evaluator.Concerns object action entry ∧
      entry.effect = (if evaluation.explicitDeny then .deny else .allow) ∧ id ∈ entry.ruleIds

section Explained

variable {evaluator : Evaluator} {subject service object action : String}

/-- The grants that speak of a request are the listed ones whose entries do. -/
theorem speaks_iff {grant : Grant} {id : RuleId} (held : evaluator.Holds (.grant grant) id) :
    evaluator.Speaks subject service object action grant ↔
      evaluator.Shows subject (some service) true grant ∧
        evaluator.Concerns object action (evaluator.entryFor subject grant) := by
  constructor
  · intro speaks
    refine ⟨⟨⟨id, held⟩, Or.inr ⟨rfl, speaks.holder⟩, ?_⟩, ⟨speaks.object, speaks.action⟩⟩
    rintro _ ⟨⟩
    exact speaks.service
  · rintro ⟨shows, concerns⟩
    refine ⟨?_, shows.service service rfl, concerns.object, concerns.action⟩
    rcases shows.holder with same | ⟨_, reached⟩
    · rw [same]
      exact Hierarchy.Reaches.refl _ subject
    · exact reached

/-- A rule decides through an entry of the listing. -/
theorem exists_decides_iff {id : RuleId} {effect : Effect} :
    (∃ holder, evaluator.Decides subject service object action id holder effect) ↔
      ∃ entry ∈ evaluator.permissionsOf subject (some service) true,
        evaluator.Concerns object action entry ∧ entry.effect = effect ∧ id ∈ entry.ruleIds := by
  obtain ⟨grants, _, listed, listing⟩ :=
    evaluator.exists_permissionsOf_eq_map subject (some service) true
  rw [listing]
  constructor
  · rintro ⟨_, grant, held, speaks, _, rfl⟩
    obtain ⟨shows, concerns⟩ := (speaks_iff held).mp speaks
    exact ⟨evaluator.entryFor subject grant, List.mem_map_of_mem ((listed grant).mpr shows),
      concerns, rfl, mem_rulesOf_iff.mpr held⟩
  · rintro ⟨_, member, concerns, same, behind⟩
    obtain ⟨grant, present, rfl⟩ := List.mem_map.mp member
    have held : evaluator.Holds (.grant grant) id := mem_rulesOf_iff.mp behind
    exact ⟨grant.subject, grant, held,
      (speaks_iff held).mpr ⟨(listed grant).mp present, concerns⟩, rfl, same⟩

/-- Every entry has a rule behind it. -/
theorem exists_mem_ruleIds {inherited : Bool} {filter : Option String} {entry : GrantedPermission}
    (member : entry ∈ evaluator.permissionsOf subject filter inherited) :
    ∃ id, id ∈ entry.ruleIds := by
  obtain ⟨grants, _, listed, listing⟩ :=
    evaluator.exists_permissionsOf_eq_map subject filter inherited
  rw [listing] at member
  obtain ⟨grant, present, rfl⟩ := List.mem_map.mp member
  obtain ⟨id, held⟩ := ((listed grant).mp present).held
  exact ⟨id, mem_rulesOf_iff.mpr held⟩

theorem exists_rule_decides_iff {effect : Effect} :
    (∃ id holder, evaluator.Decides subject service object action id holder effect) ↔
      ∃ entry ∈ evaluator.permissionsOf subject (some service) true,
        evaluator.Concerns object action entry ∧ entry.effect = effect := by
  simp only [exists_decides_iff]
  constructor
  · rintro ⟨_, entry, member, concerns, same, _⟩
    exact ⟨entry, member, concerns, same⟩
  · rintro ⟨entry, member, concerns, same⟩
    obtain ⟨id, behind⟩ := exists_mem_ruleIds member
    exact ⟨id, entry, member, concerns, same, behind⟩

end Explained

/-- The listing of a subject with its roles explains every verdict on the subject, and shows no
grant twice. -/
theorem listing_explains (evaluator : Evaluator) (subject service object action : String) :
    evaluator.Explains (evaluator.permissionsOf subject (some service) true) object action
        (evaluator.enforce subject service object action) ∧
      ∃ grants : List Grant, grants.Nodup ∧
        (∀ grant, grant ∈ grants ↔ evaluator.Shows subject (some service) true grant) ∧
          evaluator.permissionsOf subject (some service) true =
            grants.map (evaluator.entryFor subject) := by
  refine ⟨?_, exists_permissionsOf_eq_map evaluator subject (some service) true⟩
  have ruling := ruling_enforce evaluator subject service object action
  refine ⟨?_, ?_, ruling.ascending, fun id => ?_⟩
  · rw [ruling.allowed_iff, exists_rule_decides_iff, exists_rule_decides_iff]
  · rw [ruling.explicitDeny_iff, exists_rule_decides_iff]
  · rw [ruling.mem_matchedRules_iff, exists_decides_iff]

end Evaluator

end AccessPolicy
