import AccessPolicy.Evaluator.Listing
import AccessPolicy.Proofs.Evaluator.Following

/-!
Listings do not depend on the order in which grants came: evaluators that hold the same list the
same permissions in the same order.
-/
namespace AccessPolicy

section Sorting

variable {α : Type} {le : α → α → Bool}

/-- Neither comes before the other. -/
def tied (le : α → α → Bool) (one other : α) : Bool :=
  le one other && le other one

section Stable

variable (trans : ∀ one other third, le one other → le other third → le one third)
variable (total : ∀ one other, le one other || le other one)

include trans total

/-- Sorting leaves tied elements in their order. -/
theorem filter_tied_mergeSort (elements : List α) (element : α) :
    (elements.mergeSort le).filter (tied le element) = elements.filter (tied le element) := by
  have ordered : (elements.filter (tied le element)).Pairwise (fun one other => le one other) := by
    rw [List.pairwise_filter]
    apply List.pairwise_of_forall
    intro one other first second
    simp only [tied, Bool.and_eq_true] at first second
    exact trans one element other first.2 second.1
  have kept := (List.sublist_mergeSort trans total ordered List.filter_sublist).filter
    (tied le element)
  simp only [List.filter_filter, Bool.and_self] at kept
  have lengths := ((List.mergeSort_perm elements le).filter (tied le element)).length_eq
  exact (kept.eq_of_length lengths.symm).symm

omit trans in
/-- Sorted lists are the same when all their ties are. -/
theorem eq_of_filter_tied {one other : List α} (sorted : one.Pairwise (fun one other => le one other))
    (sortedOther : other.Pairwise (fun one other => le one other))
    (ties : ∀ element, one.filter (tied le element) = other.filter (tied le element)) :
    one = other := by
  have reflexive (element : α) : le element element = true := by simpa using total element element
  have self (element : α) : tied le element element = true := by simp [tied, reflexive]
  have member {first second : List α} (same : ∀ element,
      first.filter (tied le element) = second.filter (tied le element)) {element : α}
      (present : element ∈ first) : element ∈ second := by
    have kept := List.mem_filter.mpr ⟨present, self element⟩
    rw [same] at kept
    exact (List.mem_filter.mp kept).1
  induction one generalizing other with
  | nil =>
    cases other with
    | nil => rfl
    | cons head tail => cases member (fun element => (ties element).symm) List.mem_cons_self
  | cons head tail ih =>
    cases other with
    | nil => cases member ties List.mem_cons_self
    | cons headOther tailOther =>
      have below {first : α} {rest : List α}
          (sorted : (first :: rest).Pairwise (fun one other => le one other)) {element : α}
          (present : element ∈ first :: rest) : le first element = true := by
        rcases List.mem_cons.mp present with rfl | later
        · exact reflexive element
        · exact List.rel_of_pairwise_cons sorted later
      have tie : tied le head headOther = true := by
        rw [tied, Bool.and_eq_true]
        exact ⟨below sorted (member (fun element => (ties element).symm) List.mem_cons_self),
          below sortedOther (member ties List.mem_cons_self)⟩
      have front := ties head
      rw [List.filter_cons_of_pos (self head), List.filter_cons_of_pos tie, List.cons.injEq] at front
      obtain ⟨rfl, _⟩ := front
      congr 1
      refine ih sorted.of_cons sortedOther.of_cons fun element => ?_
      have rest := ties element
      by_cases kept : tied le element head = true
      · rw [List.filter_cons_of_pos kept, List.filter_cons_of_pos kept] at rest
        exact (List.cons.inj rest).2
      · rw [List.filter_cons_of_neg kept, List.filter_cons_of_neg kept] at rest
        exact rest

theorem mergeSort_congr {one other : List α}
    (ties : ∀ element, one.filter (tied le element) = other.filter (tied le element)) :
    one.mergeSort le = other.mergeSort le := by
  refine eq_of_filter_tied total (List.pairwise_mergeSort trans total one)
    (List.pairwise_mergeSort trans total other) fun element => ?_
  rw [filter_tied_mergeSort trans total, filter_tied_mergeSort trans total, ties]

end Stable

theorem filter_tied_congr {one other : List α} (symmetric : ∀ first second third,
      tied le first second = true → tied le first third = true → tied le second third = true)
    (apart : one.Pairwise (fun one other => tied le one other = false))
    (apartOther : other.Pairwise (fun one other => tied le one other = false))
    (self : ∀ element, tied le element element = true)
    (same : ∀ element, element ∈ one ↔ element ∈ other) (element : α) :
    one.filter (tied le element) = other.filter (tied le element) := by
  have distinct {elements : List α}
      (apart : elements.Pairwise (fun one other => tied le one other = false)) :
      (elements.filter (tied le element)).Nodup := by
    refine (apart.imp ?_).filter _
    rintro first second untied rfl
    rw [self] at untied
    cases untied
  have perm := (List.perm_ext_iff_of_nodup (distinct apart) (distinct apartOther)).mpr
    (fun candidate => by rw [List.mem_filter, List.mem_filter, same])
  refine perm.eq_of_pairwise ?_ (apart.filter _) (apartOther.filter _)
  intro first second present presentOther untied _
  have tie := symmetric element first second (List.mem_filter.mp present).2
    (List.mem_filter.mp presentOther).2
  rw [tie] at untied
  cases untied

end Sorting

theorem nodup_eraseDups {α : Type} [BEq α] [LawfulBEq α] (elements : List α) :
    elements.eraseDups.Nodup := by
  match elements with
  | [] => simp
  | element :: rest =>
    have shorter := List.length_filter_le (fun other => !other == element) rest
    rw [List.eraseDups_cons, List.nodup_cons]
    refine ⟨by simp, nodup_eraseDups _⟩
termination_by elements.length

namespace GrantedPermission

theorem tied_notAfter_iff {one other : GrantedPermission} :
    tied notAfter one other = true ↔ one.rank = other.rank := by
  simp only [tied, notAfter, Bool.and_eq_true, Bool.not_eq_true', decide_eq_false_iff_not]
  constructor
  · rintro ⟨before, after⟩
    exact List.le_antisymm before after
  · intro same
    rw [same]
    exact ⟨List.le_refl _, List.le_refl _⟩

theorem notAfter_trans (one other third : GrantedPermission) (first : notAfter one other)
    (second : notAfter other third) : notAfter one third := by
  simp only [notAfter, Bool.not_eq_true', decide_eq_false_iff_not] at first second ⊢
  exact List.le_trans first second

theorem notAfter_total (one other : GrantedPermission) :
    notAfter one other || notAfter other one := by
  simp only [notAfter, Bool.or_eq_true, Bool.not_eq_true', decide_eq_false_iff_not]
  exact List.le_total one.rank other.rank

end GrantedPermission

namespace Evaluator

variable {one other : Evaluator} {rules : List Rule} {now : Instant}

theorem mem_grants_iff {evaluator : Evaluator} {grant : Grant} :
    grant ∈ (evaluator.grants.map Prod.fst).eraseDups ↔ ∃ id, evaluator.Holds (.grant grant) id := by
  rw [List.mem_eraseDups, List.mem_map]
  constructor
  · rintro ⟨⟨_, id⟩, present, rfl⟩
    exact ⟨id, present⟩
  · rintro ⟨id, held⟩
    exact ⟨(grant, id), held, rfl⟩

theorem mem_rulesOf_iff {evaluator : Evaluator} {grant : Grant} {id : RuleId} :
    id ∈ evaluator.rulesOf grant ↔ evaluator.Holds (.grant grant) id := by
  simp only [rulesOf, Ascending.mem_ofList_iff, List.mem_map, List.mem_filter, decide_eq_true_eq,
    Prod.exists, Holds]
  constructor
  · rintro ⟨_, _, ⟨present, rfl⟩, rfl⟩
    exact present
  · intro present
    exact ⟨grant, id, ⟨present, rfl⟩, rfl⟩

theorem pairwise_rulesOf (evaluator : Evaluator) (grant : Grant) :
    (evaluator.rulesOf grant).Pairwise (· < ·) :=
  Ascending.pairwise_ofList _

theorem Mirrors.rulesOf_eq (mirrors : one.Mirrors rules now)
    (mirrorsOther : other.Mirrors rules now) (grant : Grant) :
    one.rulesOf grant = other.rulesOf grant := by
  refine Ascending.eq_of_mem_iff (pairwise_rulesOf one grant) (pairwise_rulesOf other grant) ?_
  intro id
  rw [mem_rulesOf_iff, mem_rulesOf_iff, mirrors.holds_iff, mirrorsOther.holds_iff]

theorem Mirrors.mem_heldBy_iff (mirrors : one.Mirrors rules now)
    (mirrorsOther : other.Mirrors rules now) (holder source : String) (service : Option String)
    (permission : GrantedPermission) : permission ∈ one.heldBy holder source service ↔
      permission ∈ other.heldBy holder source service := by
  have held (grant : Grant) : grant ∈ (one.grants.map Prod.fst).eraseDups ↔
      grant ∈ (other.grants.map Prod.fst).eraseDups := by
    rw [mem_grants_iff, mem_grants_iff]
    simp only [mirrors.holds_iff, mirrorsOther.holds_iff]
  simp only [heldBy, List.mem_map, List.mem_filter, held, mirrors.rulesOf_eq mirrorsOther]

theorem Effect.text_injective {one other : Effect} (same : one.text = other.text) : one = other := by
  cases one <;> cases other <;> simp [Effect.text] at same ⊢

theorem pairwise_heldBy (evaluator : Evaluator) (holder source : String)
    (service : Option String) : (evaluator.heldBy holder source service).Pairwise
      (fun one other => tied GrantedPermission.notAfter one other = false) := by
  rw [heldBy, List.pairwise_map]
  have distinct := nodup_eraseDups (evaluator.grants.map Prod.fst)
  refine List.Pairwise.imp_of_mem ?_ (distinct.filter _)
  intro first second present presentOther different
  rw [Bool.eq_false_iff, ne_eq, GrantedPermission.tied_notAfter_iff]
  intro same
  simp only [List.mem_filter, Bool.and_eq_true, decide_eq_true_eq] at present presentOther
  simp only [GrantedPermission.rank, List.cons.injEq, and_true] at same
  obtain ⟨_, _, service, object, action, effect⟩ := same
  apply different
  have subject : first.subject = second.subject := present.2.1.trans presentOther.2.1.symm
  have granted := Effect.text_injective effect
  cases first
  cases second
  simp_all

theorem source_of_mem_heldBy {evaluator : Evaluator} {holder source : String}
    {service : Option String} {permission : GrantedPermission}
    (present : permission ∈ evaluator.heldBy holder source service) :
    permission.source = source := by
  rw [heldBy, List.mem_map] at present
  obtain ⟨grant, _, rfl⟩ := present
  rfl

theorem pairwise_flatMap_heldBy (evaluator : Evaluator) {roles : List String}
    (ascending : roles.Pairwise (· < ·)) (service : Option String) :
    (roles.flatMap (fun role => evaluator.heldBy role role service)).Pairwise
      (fun one other => tied GrantedPermission.notAfter one other = false) := by
  rw [List.pairwise_flatMap]
  refine ⟨fun role _ => pairwise_heldBy evaluator role role service, ascending.imp ?_⟩
  intro first second before one member other memberOther
  rw [Bool.eq_false_iff, ne_eq, GrantedPermission.tied_notAfter_iff]
  intro same
  simp only [GrantedPermission.rank, List.cons.injEq] at same
  rw [source_of_mem_heldBy member, source_of_mem_heldBy memberOther] at same
  rw [same.2.1] at before
  exact String.lt_irrefl _ before

/-- Evaluators that hold the same list the same permissions, in the same order. -/
theorem Mirrors.permissionsOf_eq (mirrors : one.Mirrors rules now)
    (mirrorsOther : other.Mirrors rules now) (subject : String) (service : Option String)
    (inherited : Bool) : one.permissionsOf subject service inherited =
      other.permissionsOf subject service inherited := by
  have symmetric (first second third : GrantedPermission)
      (tie : tied GrantedPermission.notAfter first second = true)
      (tieOther : tied GrantedPermission.notAfter first third = true) :
      tied GrantedPermission.notAfter second third = true := by
    rw [GrantedPermission.tied_notAfter_iff] at tie tieOther ⊢
    exact tie.symm.trans tieOther
  have self (permission : GrantedPermission) :
      tied GrantedPermission.notAfter permission permission = true :=
    GrantedPermission.tied_notAfter_iff.mpr rfl
  have held := mirrors.mem_heldBy_iff mirrorsOther
  simp only [permissionsOf, mirrors.rolesOf_eq mirrorsOther]
  refine mergeSort_congr GrantedPermission.notAfter_trans GrantedPermission.notAfter_total
    fun permission => ?_
  rw [List.filter_append, List.filter_append]
  congr 1
  · exact filter_tied_congr symmetric (pairwise_heldBy _ _ _ _) (pairwise_heldBy _ _ _ _) self
      (held subject GrantedPermission.direct service) permission
  · have ascending : (if inherited then other.rolesOf subject else []).Pairwise (· < ·) := by
      split
      · exact Hierarchy.pairwise_reach _ _
      · exact List.Pairwise.nil
    refine filter_tied_congr symmetric (pairwise_flatMap_heldBy one ascending service)
      (pairwise_flatMap_heldBy other ascending service) self (fun candidate => ?_) permission
    simp only [List.mem_flatMap, held]

end Evaluator

end AccessPolicy
