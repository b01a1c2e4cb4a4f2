import AccessPolicy.Proofs.CacheBackend
import AccessPolicy.Proofs.CacheKey.Scope
import AccessPolicy.Proofs.DecisionCache.Entry
import AccessPolicy.Proofs.Instant.Order

/-!
What a cache keeps. `Keeps` says that every entry that can be looked up is a decision or a role set
of which something is known; reading tells it, writing has to show it, and an invalidation leaves
only entries that it does not concern.
-/
namespace AccessPolicy

namespace DecisionCache

/-- Every entry that can be looked up holds a decision or a role set of which it is known when it is
not served any more. -/
structure Keeps (cache : DecisionCache)
    (decisions : DecisionSubject → Decision → Option Instant → Prop)
    (roleSets : TenantId → String → List String → Option Instant → Prop) : Prop where
  decision_of_live : cache.backend.broken = false → ∀ about text,
    cache.backend.live? (CacheKey.decision about) = some text → ∃ decision validUntil,
      text = encode decision.toJson validUntil ∧ Carried decision ∧
        decisions about decision validUntil
  roles_of_live : cache.backend.broken = false → ∀ tenant subject text,
    cache.backend.live? (CacheKey.roles tenant subject) = some text → ∃ roles validUntil,
      text = encode (Json.ofStrings roles) validUntil ∧ roleSets tenant subject roles validUntil

variable {cache other : DecisionCache}
variable {decisions weaker : DecisionSubject → Decision → Option Instant → Prop}
variable {roleSets weakerRoles : TenantId → String → List String → Option Instant → Prop}

theorem keeps_ofSeconds (decisionTtl roleTtl : Nat) :
    (ofSeconds decisionTtl roleTtl).Keeps decisions roleSets where
  decision_of_live := fun _ _ _ found => by cases found
  roles_of_live := fun _ _ _ _ found => by cases found

theorem Keeps.of_narrows (keeps : cache.Keeps decisions roleSets)
    (narrows : other.backend.Narrows cache.backend) : other.Keeps decisions roleSets where
  decision_of_live := fun sound about text found =>
    keeps.decision_of_live (narrows.sound_of sound) about text (narrows.live_of _ _ found)
  roles_of_live := fun sound tenant subject text found =>
    keeps.roles_of_live (narrows.sound_of sound) tenant subject text (narrows.live_of _ _ found)

theorem Keeps.weaken (keeps : cache.Keeps decisions roleSets)
    (decision : ∀ about decision validUntil, decisions about decision validUntil →
      weaker about decision validUntil)
    (roles : ∀ tenant subject roles validUntil, roleSets tenant subject roles validUntil →
      weakerRoles tenant subject roles validUntil) : cache.Keeps weaker weakerRoles where
  decision_of_live := fun sound about text found => by
    obtain ⟨kept, validUntil, same, carried, known⟩ :=
      keeps.decision_of_live sound about text found
    exact ⟨kept, validUntil, same, carried, decision about kept validUntil known⟩
  roles_of_live := fun sound tenant subject text found => by
    obtain ⟨kept, validUntil, same, known⟩ := keeps.roles_of_live sound tenant subject text found
    exact ⟨kept, validUntil, same, roles tenant subject kept validUntil known⟩

section Removal

theorem delete_backend (cache : DecisionCache) (keys : List String) :
    (cache.delete keys).2.backend = (cache.backend.delete keys).2 := by
  unfold delete
  split
  · rename_i count backend removed
    simp [removed]
  · rename_i fault backend refused
    simp [refused]

theorem narrows_delete (cache : DecisionCache) (keys : List String) :
    (cache.delete keys).2.backend.Narrows cache.backend := by
  rw [delete_backend]
  exact CacheBackend.narrows_delete cache.backend keys

/-- The keys that a removal concerns are gone, as far as anything can be looked up at all. -/
def Lacks (cache : DecisionCache) (key : String) : Prop :=
  cache.backend.broken = false → ∀ text, cache.backend.live? key ≠ some text

theorem Lacks.of_narrows {key : String} (lacks : cache.Lacks key)
    (narrows : other.backend.Narrows cache.backend) : other.Lacks key :=
  fun sound text found => lacks (narrows.sound_of sound) text (narrows.live_of key text found)

theorem lacks_delete (available : cache.backend.available = true) {keys : List String}
    {key : String} (removed : cache.backend.broken = false → ∀ text,
      cache.backend.live? key = some text → key ∈ keys) : (cache.delete keys).2.Lacks key := by
  intro sound text found
  have narrows := narrows_delete cache keys
  have works := CacheBackend.fault?_eq_none_iff.mpr ⟨available, narrows.sound_of sound⟩
  have before := narrows.live_of key text found
  rw [delete_backend, CacheBackend.live?_delete works
    (removed (narrows.sound_of sound) text before)] at found
  cases found

theorem mem_scan {glob key text : String} (available : cache.backend.available = true)
    (sound : cache.backend.broken = false) (live : cache.backend.live? key = some text)
    (accepted : Glob.accepts glob key = true) : key ∈ cache.scan glob := by
  have works := CacheBackend.fault?_eq_none_iff.mpr ⟨available, sound⟩
  simp only [scan, CacheBackend.scan, works]
  exact CacheBackend.mem_scan_of_live live accepted

theorem accepts_of_mem_scan {glob key : String} (found : key ∈ cache.scan glob) :
    Glob.accepts glob key = true := by
  unfold scan CacheBackend.scan at found
  cases fault : cache.backend.fault? with
  | some fault =>
    simp only [fault] at found
    cases found
  | none =>
    simp only [fault] at found
    exact (List.mem_filter.mp found).2

theorem invalidateSubject_narrows (cache : DecisionCache) (tenant : TenantId) (subject : String) :
    (cache.invalidateSubject tenant subject).2.backend.Narrows cache.backend :=
  narrows_delete cache _

theorem invalidateSubject_lacks (available : cache.backend.available = true) (tenant : TenantId)
    (subject : String) : (∀ about : DecisionSubject, about.tenant = tenant →
      about.subject = subject →
        (cache.invalidateSubject tenant subject).2.Lacks (CacheKey.decision about)) ∧
      (cache.invalidateSubject tenant subject).2.Lacks (CacheKey.roles tenant subject) := by
  constructor
  · rintro about rfl rfl
    refine lacks_delete available fun sound text live => ?_
    exact List.mem_append_left _
      (mem_scan available sound live
        (CacheKey.subjectGlob_accepts_decision.mpr ⟨rfl, Or.inl rfl⟩))
  · exact lacks_delete available fun _ _ _ => by simp

theorem invalidateSubjects_narrows (cache : DecisionCache) (tenant : TenantId)
    (subjects : List String) :
    (cache.invalidateSubjects tenant subjects).2.backend.Narrows cache.backend := by
  induction subjects generalizing cache with
  | nil => exact CacheBackend.Narrows.refl cache.backend
  | cons subject rest ih => exact (ih _).trans (invalidateSubject_narrows cache tenant subject)

theorem invalidateSubjects_lacks (available : cache.backend.available = true) (tenant : TenantId)
    {subjects : List String} {subject : String} (member : subject ∈ subjects) :
    (∀ about : DecisionSubject, about.tenant = tenant → about.subject = subject →
      (cache.invalidateSubjects tenant subjects).2.Lacks (CacheKey.decision about)) ∧
      (cache.invalidateSubjects tenant subjects).2.Lacks (CacheKey.roles tenant subject) := by
  induction subjects generalizing cache with
  | nil => cases member
  | cons first rest ih =>
    have narrows := invalidateSubject_narrows cache tenant first
    rcases List.mem_cons.mp member with rfl | later
    · obtain ⟨decisions, roles⟩ := invalidateSubject_lacks available tenant subject
      have after := invalidateSubjects_narrows (cache.invalidateSubject tenant subject).2 tenant rest
      exact ⟨fun about owned same => (decisions about owned same).of_narrows after,
        roles.of_narrows after⟩
    · exact ih (narrows.available.trans available) later

/-- What is left after subjects are invalidated does not concern them. -/
theorem Keeps.invalidateSubjects (keeps : cache.Keeps decisions roleSets)
    (available : cache.backend.available = true) (tenant : TenantId) (subjects : List String) :
    (cache.invalidateSubjects tenant subjects).2.Keeps
      (fun about decision validUntil => decisions about decision validUntil ∧
        ¬ (about.tenant = tenant ∧ about.subject ∈ subjects))
      (fun owner subject roles validUntil => roleSets owner subject roles validUntil ∧
        ¬ (owner = tenant ∧ subject ∈ subjects)) := by
  have narrows := invalidateSubjects_narrows cache tenant subjects
  have left := keeps.of_narrows narrows
  refine ⟨fun sound about text found => ?_, fun sound owner subject text found => ?_⟩
  · obtain ⟨decision, validUntil, same, carried, known⟩ :=
      left.decision_of_live sound about text found
    refine ⟨decision, validUntil, same, carried, known, ?_⟩
    rintro ⟨owned, member⟩
    exact (invalidateSubjects_lacks available tenant member).1 about owned rfl sound text found
  · obtain ⟨roles, validUntil, same, known⟩ := left.roles_of_live sound owner subject text found
    refine ⟨roles, validUntil, same, known, ?_⟩
    rintro ⟨rfl, member⟩
    exact (invalidateSubjects_lacks available owner member).2 sound text found

theorem invalidateTenant_narrows (cache : DecisionCache) (tenant : TenantId) :
    (cache.invalidateTenant tenant).2.backend.Narrows cache.backend :=
  narrows_delete cache _

theorem invalidateTenant_lacks (available : cache.backend.available = true) (tenant : TenantId) :
    (∀ about : DecisionSubject, about.tenant = tenant →
      (cache.invalidateTenant tenant).2.Lacks (CacheKey.decision about)) ∧
      ∀ subject, (cache.invalidateTenant tenant).2.Lacks (CacheKey.roles tenant subject) := by
  constructor
  · rintro about rfl
    refine lacks_delete available fun sound _ live => List.mem_append_left _ ?_
    exact mem_scan available sound live (CacheKey.tenantDecisionsGlob_accepts_decision.mpr rfl)
  · refine fun subject => lacks_delete available fun sound _ live => List.mem_append_right _ ?_
    exact mem_scan available sound live (CacheKey.tenantRolesGlob_accepts_roles.mpr rfl)

theorem Keeps.invalidateTenant (keeps : cache.Keeps decisions roleSets)
    (available : cache.backend.available = true) (tenant : TenantId) :
    (cache.invalidateTenant tenant).2.Keeps
      (fun about decision validUntil => decisions about decision validUntil ∧
        about.tenant ≠ tenant)
      (fun owner subject roles validUntil => roleSets owner subject roles validUntil ∧
        owner ≠ tenant) := by
  have left := keeps.of_narrows (invalidateTenant_narrows cache tenant)
  refine ⟨fun sound about text found => ?_, fun sound owner subject text found => ?_⟩
  · obtain ⟨decision, validUntil, same, carried, known⟩ :=
      left.decision_of_live sound about text found
    refine ⟨decision, validUntil, same, carried, known, ?_⟩
    intro owned
    exact (invalidateTenant_lacks available tenant).1 about owned sound text found
  · obtain ⟨roles, validUntil, same, known⟩ := left.roles_of_live sound owner subject text found
    refine ⟨roles, validUntil, same, known, ?_⟩
    rintro rfl
    exact (invalidateTenant_lacks available owner).2 subject sound text found

theorem invalidateAll_narrows (cache : DecisionCache) (service : Option String) :
    (cache.invalidateAll service).2.backend.Narrows cache.backend := by
  cases service <;> exact narrows_delete cache _

theorem invalidate_narrows (cache : DecisionCache) (tenant : TenantId) (service : Option String) :
    (cache.invalidate tenant service).2.backend.Narrows cache.backend := by
  cases service <;> exact narrows_delete cache _

theorem invalidateAll_lacks (available : cache.backend.available = true) :
    (∀ about, (cache.invalidateAll none).2.Lacks (CacheKey.decision about)) ∧
      ∀ tenant subject, (cache.invalidateAll none).2.Lacks (CacheKey.roles tenant subject) := by
  constructor
  · refine fun about => lacks_delete available fun sound _ live => List.mem_append_left _ ?_
    exact mem_scan available sound live CacheKey.decisionsGlob_accepts_decision
  · refine fun tenant subject => lacks_delete available fun sound _ live =>
      List.mem_append_right _ ?_
    exact mem_scan available sound live CacheKey.rolesGlob_accepts_roles

theorem invalidateService_lacks (available : cache.backend.available = true)
    (about : DecisionSubject) :
    (cache.invalidateService about.tenant about.service).2.Lacks (CacheKey.decision about) ∧
      (cache.invalidateAll (some about.service)).2.Lacks (CacheKey.decision about) := by
  constructor
  · exact lacks_delete available fun sound _ live =>
      mem_scan available sound live (CacheKey.serviceGlob_accepts_decision.mpr ⟨rfl, rfl⟩)
  · exact lacks_delete available fun sound _ live =>
      mem_scan available sound live (CacheKey.anyServiceGlob_accepts_decision.mpr (Or.inl rfl))

theorem Keeps.invalidateAll (available : cache.backend.available = true) :
    (cache.invalidateAll none).2.Keeps (fun _ _ _ => False) (fun _ _ _ _ => False) where
  decision_of_live := fun sound about text found =>
    absurd found ((invalidateAll_lacks available).1 about sound text)
  roles_of_live := fun sound tenant subject text found =>
    absurd found ((invalidateAll_lacks available).2 tenant subject sound text)

end Removal

section Access

variable {α : Type} {shape : Json.Shape} {decodeValue : Json → Option α}

/-- Reading removes at most what is read. -/
theorem read_cases (shape : Json.Shape) (decodeValue : Json → Option α) (cache : DecisionCache)
    (now : Instant) (key : String) : (cache.read shape decodeValue now key).2 = cache ∨
      (cache.read shape decodeValue now key).2 = (cache.delete [key]).2 := by
  unfold read
  split
  · split
    · split
      · exact Or.inr rfl
      · exact Or.inl rfl
    · exact Or.inr rfl
  · exact Or.inl rfl

theorem read_narrows (cache : DecisionCache) (now : Instant) (key : String) :
    (cache.read shape decodeValue now key).2.backend.Narrows cache.backend := by
  rcases read_cases shape decodeValue cache now key with same | same
  · rw [same]
    exact CacheBackend.Narrows.refl cache.backend
  · rw [same]
    exact narrows_delete cache [key]

/-- What is read is the value of an entry that is still served. -/
theorem read_eq_some {now : Instant} {key : String} {value : α}
    (found : (cache.read shape decodeValue now key).1 = some value) :
    cache.backend.broken = false ∧ ∃ text validUntil, cache.backend.live? key = some text ∧
      decode? shape decodeValue text = some (value, validUntil) ∧ now.Before validUntil := by
  unfold read at found
  split at found
  · rename_i text present
    unfold CacheBackend.get at present
    split at present
    · cases present
    · rename_i works
      obtain ⟨_, sound⟩ := CacheBackend.fault?_eq_none_iff.mp works
      simp only [Except.ok.injEq] at present
      split at found
      · rename_i kept validUntil decoded
        split at found
        · cases found
        · rename_i served
          cases found
          refine ⟨sound, text, validUntil, present, decoded, ?_⟩
          exact Instant.any_le_eq_false_iff.mp (by simpa using served)
      · cases found
  · cases found

theorem read_eq_some_iff {now : Instant} {key : String} {value : α} :
    (cache.read shape decodeValue now key).1 = some value ↔
      cache.backend.available = true ∧ cache.backend.broken = false ∧ ∃ text bound,
        cache.backend.live? key = some text ∧
          decode? shape decodeValue text = some (value, bound) ∧ now.Before bound := by
  constructor
  · intro found
    refine ⟨?_, read_eq_some found⟩
    cases available : cache.backend.available with
    | true => rfl
    | false =>
      simp [read, CacheBackend.get, CacheBackend.fault?, available] at found
  · rintro ⟨available, sound, text, bound, live, decoded, before⟩
    have served : bound.any (· ≤ now) = false := Instant.any_le_eq_false_iff.mpr before
    simp [read, CacheBackend.get, CacheBackend.fault?_eq_none_iff.mpr ⟨available, sound⟩, live,
      decoded, served]

/-- What is read from less is read from more. -/
theorem read_of_narrows {α : Type} {shape : Json.Shape} {decodeValue : Json → Option α}
    {key : String} {value : α} (narrows : other.backend.Narrows cache.backend)
    (found : (other.read shape decodeValue now key).1 = some value) :
    (cache.read shape decodeValue now key).1 = some value := by
  obtain ⟨available, sound, text, bound, live, decoded, before⟩ := read_eq_some_iff.mp found
  exact read_eq_some_iff.mpr ⟨narrows.available.symm.trans available, narrows.sound_of sound, text,
    bound, narrows.live_of key text live, decoded, before⟩

theorem get_narrows (cache : DecisionCache) (now : Instant) (request : CheckRequest) :
    (cache.get now request).2.backend.Narrows cache.backend :=
  read_narrows cache now _

theorem getRoles_narrows (cache : DecisionCache) (now : Instant) (tenant : TenantId)
    (subject : String) : (cache.getRoles now tenant subject).2.backend.Narrows cache.backend :=
  read_narrows cache now _

theorem get_of_narrows {request : CheckRequest} {decision : Decision}
    (narrows : other.backend.Narrows cache.backend)
    (found : (other.get now request).1 = some decision) :
    (cache.get now request).1 = some decision := by
  obtain ⟨kept, read, rfl⟩ := Option.map_eq_some_iff.mp found
  exact Option.map_eq_some_iff.mpr ⟨kept, read_of_narrows narrows read, rfl⟩

/-- A cached decision is one that is known of, marked as cached, and still served. -/
theorem Keeps.get_eq_some (keeps : cache.Keeps decisions roleSets) {now : Instant}
    {request : CheckRequest} {decision : Decision}
    (found : (cache.get now request).1 = some decision) : ∃ kept validUntil,
      decision = { kept with fromCache := true } ∧ decisions request.about kept validUntil ∧
        now.Before validUntil := by
  obtain ⟨kept, read, rfl⟩ := Option.map_eq_some_iff.mp found
  obtain ⟨sound, text, validUntil, live, decoded, before⟩ := read_eq_some read
  obtain ⟨stored, bound, rfl, carried, known⟩ := keeps.decision_of_live sound _ _ live
  cases carried bound _ decoded
  exact ⟨kept, validUntil, rfl, known, before⟩

theorem Keeps.getRoles_eq_some (keeps : cache.Keeps decisions roleSets) {now : Instant}
    {tenant : TenantId} {subject : String} {roles : List String}
    (found : (cache.getRoles now tenant subject).1 = some roles) : ∃ validUntil,
      roleSets tenant subject roles validUntil ∧ now.Before validUntil := by
  obtain ⟨sound, text, validUntil, live, decoded, before⟩ := read_eq_some found
  obtain ⟨stored, bound, rfl, known⟩ := keeps.roles_of_live sound _ _ _ live
  rw [decode?_encode_roles] at decoded
  cases decoded
  exact ⟨validUntil, known, before⟩

theorem live?_write {now : Instant} {key : String} {json : Json} {ttl : Nat}
    {validUntil : Option Instant} {wanted text : String}
    (present : (cache.write now key json ttl validUntil).backend.live? wanted = some text) :
    wanted = key ∧ text = encode json validUntil ∨ cache.backend.live? wanted = some text := by
  unfold write at present
  split at present
  · exact Or.inr present
  · rename_i kept _
    split at present
    · rename_i backend written
      have after : backend = (cache.backend.set key (encode json validUntil) kept).2 := by
        rw [written]
      subst after
      exact CacheBackend.live?_set present
    · rename_i backend refused
      have after : backend = (cache.backend.set key (encode json validUntil) kept).2 := by
        rw [refused]
      subst after
      exact CacheBackend.live?_set present

theorem write_switches (cache : DecisionCache) (now : Instant) (key : String) (json : Json)
    (ttl : Nat) (validUntil : Option Instant) :
    (cache.write now key json ttl validUntil).backend.available = cache.backend.available ∧
      ((cache.write now key json ttl validUntil).backend.broken = false →
        cache.backend.broken = false) := by
  unfold write
  split
  · exact ⟨rfl, id⟩
  · rename_i kept _
    have switches := CacheBackend.set_switches cache.backend key (encode json validUntil) kept
    split
    · rename_i backend written
      rwa [written] at switches
    · rename_i backend refused
      rwa [refused] at switches

theorem get_of_set {request asked : CheckRequest} {decision found : Decision}
    {bound : Option Instant} {later : Instant} (carried : Carried decision.unmarked)
    (read : ((cache.set now request decision bound).get later asked).1 = some found) :
    asked.about = request.about ∧ found = { decision with fromCache := true } ∨
      (cache.get later asked).1 = some found := by
  obtain ⟨kept, stored, rfl⟩ := Option.map_eq_some_iff.mp read
  obtain ⟨available, sound, text, validUntil, live, decoded, before⟩ := read_eq_some_iff.mp stored
  have switches := write_switches cache now (CacheKey.decision request.about)
    { decision with fromCache := false }.toJson cache.decisionTtl bound
  rcases live?_write live with ⟨same, rfl⟩ | old
  · left
    cases carried bound _ decoded
    exact ⟨CacheKey.decision_injective same, rfl⟩
  · right
    refine Option.map_eq_some_iff.mpr ⟨kept, read_eq_some_iff.mpr ?_, rfl⟩
    exact ⟨switches.1.symm.trans available, switches.2 sound, text, validUntil, old, decoded, before⟩

theorem Keeps.set (keeps : cache.Keeps decisions roleSets) {request : CheckRequest}
    {decision : Decision} {validUntil : Option Instant} (carried : Carried decision.unmarked)
    (known : decisions request.about decision.unmarked validUntil)
    (now : Instant) : (cache.set now request decision validUntil).Keeps decisions roleSets := by
  have switches := write_switches cache now (CacheKey.decision request.about)
    { decision with fromCache := false }.toJson cache.decisionTtl validUntil
  refine ⟨fun sound about text found => ?_, fun sound tenant subject text found => ?_⟩
  · rcases live?_write found with ⟨same, written⟩ | before
    · rw [CacheKey.decision_injective same]
      exact ⟨_, validUntil, written, carried, known⟩
    · exact keeps.decision_of_live (switches.2 sound) about text before
  · rcases live?_write found with ⟨same, _⟩ | before
    · exact absurd same.symm (CacheKey.decision_ne_roles _ _ _)
    · exact keeps.roles_of_live (switches.2 sound) tenant subject text before

theorem Keeps.setRoles (keeps : cache.Keeps decisions roleSets) {tenant : TenantId}
    {subject : String} {roles : List String} {validUntil : Option Instant}
    (known : roleSets tenant subject roles validUntil) (now : Instant) :
    (cache.setRoles now tenant subject roles validUntil).Keeps decisions roleSets := by
  have switches := write_switches cache now (CacheKey.roles tenant subject)
    (Json.ofStrings roles) cache.roleTtl validUntil
  refine ⟨fun sound about text found => ?_, fun sound owner member text found => ?_⟩
  · rcases live?_write found with ⟨same, _⟩ | before
    · exact absurd same (CacheKey.decision_ne_roles _ _ _)
    · exact keeps.decision_of_live (switches.2 sound) about text before
  · rcases live?_write found with ⟨same, written⟩ | before
    · obtain ⟨rfl, rfl⟩ := CacheKey.roles_injective same
      exact ⟨roles, validUntil, written, known⟩
    · exact keeps.roles_of_live (switches.2 sound) owner member text before

end Access

end DecisionCache

end AccessPolicy
