import AccessPolicy.Proofs.DecisionCache.History
import AccessPolicy.Proofs.DecisionCache.Tenancy

/-!
What an invalidation removes and what it leaves. What it names is gone after it, nothing of another
tenant is, and it tells how many live entries it removed. An invalidation of a tenant or of a service of
one removes just that; one of a subject, or of a service in all tenants, also removes the decisions in
which the name stands in another place.
-/
namespace AccessPolicy

namespace DecisionCache

variable {cache other : DecisionCache}

section Indexed

/-- A key holds at most one entry, and only decisions and role sets are kept. -/
structure Indexed (cache : DecisionCache) : Prop where
  ordered : cache.backend.entries.Ordered
  keyed : ∀ key ∈ cache.backend.entries.keys, ∃ memo : Memo, memo.key = key

theorem Indexed.of_sublist (indexed : cache.Indexed)
    (fewer : other.backend.entries.Sublist cache.backend.entries) : other.Indexed :=
  ⟨List.Pairwise.sublist (fewer.map Prod.fst) indexed.ordered,
    fun key present => indexed.keyed key ((fewer.map Prod.fst).subset present)⟩

theorem Indexed.delete (indexed : cache.Indexed) (keys : List String) :
    (cache.delete keys).2.Indexed := by
  refine indexed.of_sublist ?_
  rw [delete_backend, CacheBackend.delete_snd]
  split
  · exact CacheBackend.entries_removeAll_sublist cache.backend keys
  · exact List.Sublist.refl _

theorem Indexed.write (indexed : cache.Indexed) (memo : Memo) (now : Instant) (value : Json) (ttl : Nat)
    (validUntil : Option Instant) : (cache.write now memo.key value ttl validUntil).Indexed := by
  rcases write_cases cache now memo.key value ttl validUntil with
    same | ⟨entry, writes, same⟩ | ⟨_, same⟩
  · rwa [same]
  · rw [same]
    refine ⟨Table.ordered_put indexed.ordered _ _, fun key present => ?_⟩
    rcases Table.mem_keys_put present with rfl | before
    · exact ⟨memo, rfl⟩
    · exact indexed.keyed key before
  · rw [same]
    exact ⟨indexed.ordered, indexed.keyed⟩

theorem Indexed.read {α : Type} {shape : Json.Shape} {decodeValue : Json → Option α}
    (indexed : cache.Indexed) (now : Instant) (key : String) :
    (cache.read shape decodeValue now key).2.Indexed := by
  rcases read_cases shape decodeValue cache now key with same | same
  · rwa [same]
  · rw [same]
    exact indexed.delete [key]

theorem Indexed.invalidateSubjects (indexed : cache.Indexed) (tenant : TenantId)
    (subjects : List String) : (cache.invalidateSubjects tenant subjects).2.Indexed := by
  induction subjects generalizing cache with
  | nil => exact indexed
  | cons subject rest ih => exact ih (indexed.delete _)

theorem Indexed.turn {state : Clocked} (indexed : state.cache.Indexed) (use : Use) :
    (use.turn state).cache.Indexed := by
  cases use with
  | get request => exact indexed.read _ _
  | getRoles tenant subject => exact indexed.read _ _
  | set request decision validUntil => exact indexed.write (.decision request.about) _ _ _ _
  | setRoles tenant subject roles validUntil => exact indexed.write (.roles tenant subject) _ _ _ _
  | invalidateSubjects tenant subjects => exact indexed.invalidateSubjects tenant subjects
  | invalidateAll service => cases service <;> exact indexed.delete _
  | invalidateSubject | invalidateService | invalidateTenant => exact indexed.delete _
  | switch | clock | elapse => exact ⟨indexed.ordered, indexed.keyed⟩

/-- Whatever a cache is used for, it keeps only decisions and role sets. -/
theorem indexed_run {state : Clocked} (indexed : state.cache.Indexed) (uses : List Use) :
    (run state uses).cache.Indexed := by
  induction uses generalizing state with
  | nil => exact indexed
  | cons use rest ih => exact ih (indexed.turn use)

theorem indexed_opened (decisionTtl roleTtl : Nat) (now : Instant) :
    (Clocked.opened decisionTtl roleTtl now).cache.Indexed :=
  ⟨List.Pairwise.nil, fun _ present => absurd present List.not_mem_nil⟩

end Indexed

section Scopes

/-- A call removes what it names, leaves what it spares, and tells how many live entries it removed. -/
structure Clears (cache : DecisionCache) (named spared : Memo → Prop) (call : Nat × DecisionCache) :
    Prop where
  removed : ∀ memo, named memo → call.2.backend.live? memo.key = none
  left : ∀ memo, spared memo →
    call.2.backend.entries.get? memo.key = cache.backend.entries.get? memo.key
  fewer : call.2.backend.liveKeys.Sublist cache.backend.liveKeys
  counted : cache.backend.liveKeys.length = call.1 + call.2.backend.liveKeys.length
  uptime : call.2.backend.uptime = cache.backend.uptime

/-- It removes what it names and nothing else. -/
def ClearsExactly (cache : DecisionCache) (named : Memo → Prop) (call : Nat × DecisionCache) : Prop :=
  cache.Clears named (fun memo => ¬ named memo) call

variable {named spared fewer less : Memo → Prop} {call : Nat × DecisionCache} {keys : List String}

theorem Clears.weaken (clears : cache.Clears named spared call) (narrow : ∀ memo, fewer memo → named memo)
    (careful : ∀ memo, less memo → spared memo) : cache.Clears fewer less call where
  removed := fun memo wanted => clears.removed memo (narrow memo wanted)
  left := fun memo wanted => clears.left memo (careful memo wanted)
  fewer := clears.fewer
  counted := clears.counted
  uptime := clears.uptime

theorem ClearsExactly.congr (clears : cache.ClearsExactly named call)
    (same : ∀ memo, fewer memo ↔ named memo) : cache.ClearsExactly fewer call :=
  Clears.weaken clears (fun memo => (same memo).mp) (fun memo => mt (same memo).mpr)

theorem Clears.live?_left (clears : cache.Clears named spared call) {memo : Memo}
    (kept : spared memo) : call.2.backend.live? memo.key = cache.backend.live? memo.key := by
  unfold CacheBackend.live? CacheBackend.isLive
  rw [clears.left memo kept, clears.uptime]

/-- What any of several calls removes is gone after a call, and what each of them leaves is left. -/
structure Combines (cache : DecisionCache) (singles : List (Nat × DecisionCache))
    (call : Nat × DecisionCache) : Prop where
  removed : ∀ single ∈ singles, ∀ memo : Memo, single.2.backend.live? memo.key = none →
    call.2.backend.live? memo.key = none
  left : ∀ memo : Memo,
    (∀ single ∈ singles, single.2.backend.live? memo.key = cache.backend.live? memo.key) →
      call.2.backend.live? memo.key = cache.backend.live? memo.key

theorem works_delete (works : cache.backend.fault? = none) (keys : List String) :
    (cache.delete keys).2.backend.fault? = none := by
  obtain ⟨available, broken, _⟩ := delete_switches cache keys
  rw [CacheBackend.fault?_eq_none_iff, available, broken]
  exact CacheBackend.fault?_eq_none_iff.mp works

theorem delete_fst (works : cache.backend.fault? = none) (keys : List String) :
    (cache.delete keys).1 = (cache.backend.removeAll keys).1 := by
  simp [delete, CacheBackend.delete, works]

theorem delete_snd_backend (works : cache.backend.fault? = none) (keys : List String) :
    (cache.delete keys).2.backend = (cache.backend.removeAll keys).2 := by
  rw [delete_backend, CacheBackend.delete_snd, if_pos works]

/-- Removing keys removes what has one of them while it lives, and leaves what has none. -/
theorem clears_delete (indexed : cache.Indexed) (works : cache.backend.fault? = none)
    (covers : ∀ memo, named memo → memo.key ∈ cache.backend.liveKeys → memo.key ∈ keys)
    (misses : ∀ memo, spared memo → memo.key ∉ keys) :
    cache.Clears named spared (cache.delete keys) where
  removed := by
    intro memo wanted
    rw [delete_snd_backend works, CacheBackend.live?_removeAll]
    split
    · rfl
    · rename_i kept
      by_contra live
      have present := (CacheBackend.mem_liveKeys_iff indexed.ordered).mpr
        (Option.isSome_iff_ne_none.mpr live)
      exact kept (covers memo wanted present)
  left := by
    intro memo wanted
    rw [get?_delete, if_neg fun both => misses memo wanted both.2]
  fewer := by
    rw [delete_snd_backend works]
    exact CacheBackend.liveKeys_removeAll_sublist cache.backend keys
  counted := by
    rw [delete_fst works, delete_snd_backend works]
    exact CacheBackend.length_removeAll indexed.ordered keys
  uptime := (delete_switches cache keys).2.2

theorem mem_scan_iff (works : cache.backend.fault? = none) {glob key : String} :
    key ∈ cache.scan glob ↔ key ∈ cache.backend.liveKeys ∧ Glob.accepts glob key = true := by
  simp [scan, CacheBackend.scan, works]

/-- Removing what a glob finds removes just that. -/
theorem clears_scan (indexed : cache.Indexed) (works : cache.backend.fault? = none) (glob : String) :
    cache.ClearsExactly (fun memo => Glob.accepts glob memo.key = true)
      (cache.delete (cache.scan glob)) :=
  clears_delete indexed works
    (fun _ accepted live => (mem_scan_iff works).mpr ⟨live, accepted⟩)
    (fun _ missed found => missed ((mem_scan_iff works).mp found).2)

theorem clears_scans (indexed : cache.Indexed) (works : cache.backend.fault? = none)
    (one other : String) :
    cache.ClearsExactly
      (fun memo => Glob.accepts one memo.key = true ∨ Glob.accepts other memo.key = true)
      (cache.delete (cache.scan one ++ cache.scan other)) := by
  refine clears_delete indexed works (fun memo accepted live => ?_) (fun memo missed found => ?_)
  · rw [List.mem_append, mem_scan_iff works, mem_scan_iff works]
    exact accepted.imp (⟨live, ·⟩) (⟨live, ·⟩)
  · rw [List.mem_append, mem_scan_iff works, mem_scan_iff works] at found
    exact missed (found.imp And.right And.right)

end Scopes

section Reach

def Memo.tenant : Memo → TenantId
  | .decision about => about.tenant
  | .roles tenant _ => tenant

/-- What is removed when a subject is invalidated: its role set, and the decisions of the tenant that
have the name as their subject or as their object. -/
def SweptWith (tenant : TenantId) (subject : String) : Memo → Prop
  | .decision about => about.tenant = tenant ∧ (about.subject = subject ∨ about.object = subject)
  | .roles owner member => owner = tenant ∧ member = subject

theorem SweptWith.tenant_eq {tenant : TenantId} {subject : String} {memo : Memo}
    (swept : SweptWith tenant subject memo) : memo.tenant = tenant := by
  cases memo <;> exact swept.1

theorem sweptWith_of_drops {tenant : TenantId} {subject : String} {memo : Memo}
    (drops : (Use.invalidateSubject tenant subject).Drops memo) : SweptWith tenant subject memo := by
  cases memo with
  | decision about => exact ⟨drops.1, Or.inl drops.2⟩
  | roles owner member => exact drops

/-- What is removed when a service is invalidated in all tenants: the decisions that have the name as
their service, their subject or their object. -/
def SweptEverywhere (service : String) : Memo → Prop
  | .decision about => about.service = service ∨ about.subject = service ∨ about.object = service
  | .roles _ _ => False

variable (indexed : cache.Indexed) (works : cache.backend.fault? = none)
include indexed works

theorem clears_invalidateSubject (tenant : TenantId) (subject : String) :
    cache.ClearsExactly (SweptWith tenant subject) (cache.invalidateSubject tenant subject) := by
  refine clears_delete indexed works (fun memo swept live => ?_) (fun memo kept found => ?_)
  · cases memo with
    | decision about =>
      exact List.mem_append_left _
        ((mem_scan_iff works).mpr ⟨live, CacheKey.subjectGlob_accepts_decision.mpr swept⟩)
    | roles owner member =>
      obtain ⟨rfl, rfl⟩ := swept
      exact List.mem_append_right _ (List.mem_singleton_self _)
  · rw [List.mem_append, mem_scan_iff works, List.mem_singleton] at found
    cases memo with
    | decision about =>
      rcases found with ⟨_, accepted⟩ | same
      · exact kept (CacheKey.subjectGlob_accepts_decision.mp accepted)
      · exact CacheKey.decision_ne_roles about tenant subject same
    | roles owner member =>
      rcases found with ⟨_, accepted⟩ | same
      · exact CacheKey.subjectGlob_misses_roles accepted
      · exact kept (CacheKey.roles_injective same)

/-- One subject is invalidated after the other, and the counts add up. -/
theorem clears_invalidateSubjects (tenant : TenantId) (subjects : List String) :
    cache.ClearsExactly (fun memo => ∃ subject ∈ subjects, SweptWith tenant subject memo)
      (cache.invalidateSubjects tenant subjects) := by
  induction subjects generalizing cache with
  | nil => exact ⟨by simp, fun _ _ => rfl, List.Sublist.refl _, (Nat.zero_add _).symm, rfl⟩
  | cons subject rest ih =>
    have first := clears_invalidateSubject indexed works tenant subject
    have later : (cache.invalidateSubject tenant subject).2.ClearsExactly _
        ((cache.invalidateSubject tenant subject).2.invalidateSubjects tenant rest) :=
      ih (indexed.delete _) (works_delete works _)
    refine ⟨?_, ?_, later.fewer.trans first.fewer, ?_, later.uptime.trans first.uptime⟩
    · rintro memo ⟨named, member, swept⟩
      rcases List.mem_cons.mp member with rfl | member
      -- What the first call has removed does not come back: the later ones only narrow.
      · exact Option.eq_none_iff_forall_ne_some.mpr fun text found =>
          Option.eq_none_iff_forall_ne_some.mp (first.removed memo swept) text
            ((invalidateSubjects_narrows _ tenant rest).live_of _ _ found)
      · exact later.removed memo ⟨named, member, swept⟩
    · intro memo kept
      have apart := not_or.mp (mt (List.exists_mem_cons_iff ..).mpr kept)
      exact (later.left memo apart.2).trans (first.left memo apart.1)
    · rw [first.counted, later.counted, ← Nat.add_assoc]
      rfl

theorem combines_invalidateSubjects (tenant : TenantId) (subjects : List String) :
    cache.Combines (subjects.map (cache.invalidateSubject tenant))
      (cache.invalidateSubjects tenant subjects) := by
  have together := clears_invalidateSubjects indexed works tenant subjects
  have alone := clears_invalidateSubject indexed works tenant
  constructor
  · intro single among memo gone
    obtain ⟨subject, member, rfl⟩ := List.mem_map.mp among
    by_cases swept : ∃ subject ∈ subjects, SweptWith tenant subject memo
    · exact together.removed memo swept
    · rw [together.live?_left swept, ← gone]
      exact ((alone subject).live?_left fun here => swept ⟨subject, member, here⟩).symm
  · intro memo kept
    by_cases swept : ∃ subject ∈ subjects, SweptWith tenant subject memo
    · obtain ⟨subject, member, here⟩ := swept
      rw [together.removed memo ⟨subject, member, here⟩, ← (alone subject).removed memo here]
      exact kept _ (List.mem_map_of_mem member)
    · exact together.live?_left swept

theorem clears_invalidateService (tenant : TenantId) (service : String) :
    cache.ClearsExactly (Use.invalidateService tenant service).Drops
      (cache.invalidateService tenant service) := by
  refine (clears_scan indexed works _).congr fun memo => ?_
  cases memo with
  | decision about => exact CacheKey.serviceGlob_accepts_decision.symm
  | roles owner member => exact (iff_false_intro CacheKey.serviceGlob_misses_roles).symm

theorem clears_invalidateTenant (tenant : TenantId) :
    cache.ClearsExactly (Use.invalidateTenant tenant).Drops (cache.invalidateTenant tenant) := by
  refine (clears_scans indexed works _ _).congr fun memo => ?_
  cases memo with
  | decision about =>
    rw [Memo.key, CacheKey.tenantDecisionsGlob_accepts_decision,
      or_iff_left CacheKey.tenantRolesGlob_misses_decisions]
    rfl
  | roles owner member =>
    rw [Memo.key, CacheKey.tenantRolesGlob_accepts_roles,
      or_iff_right CacheKey.tenantDecisionsGlob_misses_roles]
    rfl

theorem clears_invalidateAll :
    cache.ClearsExactly (Use.invalidateAll none).Drops (cache.invalidateAll none) := by
  refine (clears_scans indexed works _ _).congr fun memo => ?_
  cases memo with
  | decision about => exact iff_of_true trivial (Or.inl CacheKey.decisionsGlob_accepts_decision)
  | roles owner member => exact iff_of_true trivial (Or.inr CacheKey.rolesGlob_accepts_roles)

/-- Whatever is kept is a decision or a role set, so that nothing is left. -/
theorem liveKeys_invalidateAll : (cache.invalidateAll none).2.backend.liveKeys = [] := by
  have after : (cache.invalidateAll none).2.Indexed := indexed.delete _
  refine List.eq_nil_iff_forall_not_mem.mpr fun key live => ?_
  have present := (CacheBackend.mem_liveKeys_iff after.ordered).mp live
  obtain ⟨memo, rfl⟩ := after.keyed key (CacheBackend.mem_keys_of_mem_liveKeys live)
  rw [(clears_invalidateAll indexed works).removed memo trivial] at present
  cases present

theorem clears_invalidateAll_service (service : String) :
    cache.ClearsExactly (SweptEverywhere service) (cache.invalidateAll (some service)) := by
  refine (clears_scan indexed works _).congr fun memo => ?_
  cases memo with
  | decision about => exact CacheKey.anyServiceGlob_accepts_decision.symm
  | roles owner member => exact (iff_false_intro CacheKey.anyServiceGlob_misses_roles).symm

end Reach

section Results

/-- Ann is also something that can be read. -/
def bobReadsAnn : CheckRequest :=
  ⟨⟨7⟩, "cms", "bob", "ann", "read", [], []⟩

/-- What is cached once ann and bob were allowed to read. -/
def annAndBob : DecisionCache :=
  (run openedAtEpoch [.set annReadsDocument (.allow "allowed by policy") none,
    .setRoles ⟨7⟩ "ann" ["editor"] none, .set bobReadsAnn (.allow "allowed by policy") none]).cache

theorem indexed_annAndBob : annAndBob.Indexed :=
  indexed_run (indexed_opened _ _ .epoch) _

theorem live?_bobReadsAnn : (annAndBob.backend.live? (CacheKey.decision bobReadsAnn.about)).isSome := by
  have stores : (run openedAtEpoch [.set annReadsDocument (.allow "allowed by policy") none,
      .setRoles ⟨7⟩ "ann" ["editor"] none]).cache.Stores .epoch (300 * nanosPerSecond) none :=
    ⟨rfl, 300 * nanosPerSecond, rfl, by decide⟩
  have live : (annAndBob.backend.elapse 0).live? (CacheKey.decision bobReadsAnn.about) = some _ :=
    live?_write_of_stores stores rfl _ (Decision.allow "allowed by policy").toJson (by decide)
  exact Option.isSome_of_eq_some live

/-- Every invalidation removes what it names, and those that name a tenant leave the other tenants as
they are. -/
theorem invalidation_complete (indexed : cache.Indexed) (works : cache.backend.fault? = none)
    (tenant : TenantId) (subject : String) (subjects : List String) (service : String) :
    cache.Clears (Use.invalidateSubject tenant subject).Drops (fun memo => memo.tenant ≠ tenant)
      (cache.invalidateSubject tenant subject) ∧
    cache.Clears (Use.invalidateSubjects tenant subjects).Drops (fun memo => memo.tenant ≠ tenant)
      (cache.invalidateSubjects tenant subjects) ∧
    cache.Combines (subjects.map (cache.invalidateSubject tenant))
      (cache.invalidateSubjects tenant subjects) ∧
    cache.ClearsExactly (Use.invalidateService tenant service).Drops
      (cache.invalidateService tenant service) ∧
    cache.ClearsExactly (Use.invalidateTenant tenant).Drops (cache.invalidateTenant tenant) ∧
    cache.ClearsExactly (Use.invalidateAll none).Drops (cache.invalidateAll none) ∧
    (cache.invalidateAll none).2.backend.liveKeys = [] ∧
    cache.Clears (Use.invalidateAll (some service)).Drops
      (fun memo => ∃ owner member, memo = .roles owner member)
      (cache.invalidateAll (some service)) := by
  refine ⟨?_, ?_, combines_invalidateSubjects indexed works tenant subjects,
    clears_invalidateService indexed works tenant service,
    clears_invalidateTenant indexed works tenant, clears_invalidateAll indexed works,
    liveKeys_invalidateAll indexed works, ?_⟩
  · exact (clears_invalidateSubject indexed works tenant subject).weaken
      (fun memo => sweptWith_of_drops) (fun memo foreign swept => foreign swept.tenant_eq)
  · refine (clears_invalidateSubjects indexed works tenant subjects).weaken (fun memo drops => ?_)
      (fun memo foreign => ?_)
    · cases memo with
      | decision about => exact ⟨about.subject, drops.2, drops.1, Or.inl rfl⟩
      | roles owner member => exact ⟨member, drops.2, drops.1, rfl⟩
    · rintro ⟨_, _, swept⟩
      exact foreign swept.tenant_eq
  · refine (clears_invalidateAll_service indexed works service).weaken (fun memo drops => ?_) ?_
    · cases memo with
      | decision about => exact Or.inl drops
      | roles owner member => exact drops
    · rintro _ ⟨owner, member, rfl⟩
      exact id

/-- Ann's entries are gone when she is invalidated, and nothing is left when everything is. -/
theorem invalidation_complete_of_ann :
    annAndBob.Indexed ∧ annAndBob.backend.fault? = none ∧
    (annAndBob.invalidateSubject ⟨7⟩ "ann").2.backend.live?
      (CacheKey.decision annReadsDocument.about) = none ∧
    (annAndBob.invalidateSubject ⟨7⟩ "ann").2.backend.live? (CacheKey.roles ⟨7⟩ "ann") = none ∧
    (annAndBob.invalidateService ⟨7⟩ "billing").2.backend.entries.get?
      (CacheKey.decision bobReadsAnn.about) =
        annAndBob.backend.entries.get? (CacheKey.decision bobReadsAnn.about) ∧
    (annAndBob.invalidateAll none).2.backend.liveKeys = [] := by
  obtain ⟨subject, _, _, service, _, _, all, _⟩ :=
    invalidation_complete indexed_annAndBob rfl ⟨7⟩ "ann" ["ann", "bob"] "billing"
  refine ⟨indexed_annAndBob, rfl, subject.removed (.decision annReadsDocument.about) ⟨rfl, rfl⟩,
    subject.removed (.roles ⟨7⟩ "ann") ⟨rfl, rfl⟩, ?_, all⟩
  exact service.left (.decision bobReadsAnn.about) fun drops => absurd drops.2 (by decide)

/-- An invalidation of a subject, or of a service in all tenants, reaches the decisions that have the
name in a later place, and no others. -/
theorem invalidation_reach (indexed : cache.Indexed) (works : cache.backend.fault? = none)
    (tenant : TenantId) (subject service : String) :
    cache.ClearsExactly (SweptWith tenant subject) (cache.invalidateSubject tenant subject) ∧
    cache.ClearsExactly (SweptEverywhere service) (cache.invalidateAll (some service)) :=
  ⟨clears_invalidateSubject indexed works tenant subject,
    clears_invalidateAll_service indexed works service⟩

/-- Ann's decision and her role set are reached through her name, and the other decisions about her
document are not reached through another subject's. -/
theorem invalidation_reach_of_ann :
    annAndBob.Indexed ∧ annAndBob.backend.fault? = none ∧
    (annAndBob.invalidateSubject ⟨7⟩ "ann").2.backend.live? (CacheKey.roles ⟨7⟩ "ann") = none ∧
    (annAndBob.invalidateSubject ⟨7⟩ "bob").2.backend.entries.get?
      (CacheKey.decision annReadsDocument.about) =
        annAndBob.backend.entries.get? (CacheKey.decision annReadsDocument.about) ∧
    (annAndBob.invalidateAll (some "billing")).2.backend.entries.get? (CacheKey.roles ⟨7⟩ "ann") =
      annAndBob.backend.entries.get? (CacheKey.roles ⟨7⟩ "ann") := by
  have ann := invalidation_reach indexed_annAndBob rfl ⟨7⟩ "ann" "billing"
  have bob := invalidation_reach indexed_annAndBob rfl ⟨7⟩ "bob" "billing"
  refine ⟨indexed_annAndBob, rfl, ann.1.removed (.roles ⟨7⟩ "ann") ⟨rfl, rfl⟩, ?_,
    ann.2.left (.roles ⟨7⟩ "ann") id⟩
  exact bob.1.left (.decision annReadsDocument.about) fun swept => absurd swept.2 (by decide)

/-- The invalidation of ann removes bob's decision about reading her, and so does the invalidation of a
service named bob, though the decision is one of another subject and of another service. -/
theorem invalidation_reaches_bob :
    annAndBob.Indexed ∧ annAndBob.backend.fault? = none ∧
    bobReadsAnn.subject ≠ "ann" ∧ bobReadsAnn.service ≠ "bob" ∧
    (annAndBob.backend.live? (CacheKey.decision bobReadsAnn.about)).isSome = true ∧
    (annAndBob.invalidateSubject ⟨7⟩ "ann").2.backend.live?
      (CacheKey.decision bobReadsAnn.about) = none ∧
    (annAndBob.invalidateAll (some "bob")).2.backend.live?
      (CacheKey.decision bobReadsAnn.about) = none := by
  have subject := clears_invalidateSubject indexed_annAndBob rfl ⟨7⟩ "ann"
  have service := clears_invalidateAll_service indexed_annAndBob rfl "bob"
  refine ⟨indexed_annAndBob, rfl, by decide, by decide, live?_bobReadsAnn, ?_, ?_⟩
  · exact subject.removed (.decision bobReadsAnn.about) ⟨rfl, Or.inr rfl⟩
  · exact service.removed (.decision bobReadsAnn.about) (Or.inr (Or.inl rfl))

end Results

end DecisionCache

end AccessPolicy
