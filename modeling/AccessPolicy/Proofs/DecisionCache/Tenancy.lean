import AccessPolicy.Proofs.CacheKey.Tenancy
import AccessPolicy.Proofs.DecisionCache.Keeps

/-!
What is cached of one tenant. What is forgotten or written of another tenant leaves it as it is, and
caches that hold the same of the tenant answer alike about it.
-/
namespace AccessPolicy.DecisionCache

/-- Two caches hold the same entries of a tenant, for as long. -/
structure AlikeFor (tenant : TenantId) (one other : DecisionCache) : Prop where
  entries : ∀ key, CacheKey.BelongsTo key tenant →
    other.backend.entries.get? key = one.backend.entries.get? key
  available : other.backend.available = one.backend.available
  decisionTtl : other.decisionTtl = one.decisionTtl
  roleTtl : other.roleTtl = one.roleTtl

/-- They also work alike and at the same time. -/
structure TwinFor (tenant : TenantId) (one other : DecisionCache) : Prop
    extends AlikeFor tenant one other where
  broken : other.backend.broken = one.backend.broken
  uptime : other.backend.uptime = one.backend.uptime

variable {tenant owner : TenantId} {cache one other : DecisionCache} {keys : List String}
variable {key : String} {now : Instant} {value : Json} {ttl : Nat} {validUntil : Option Instant}

theorem alikeFor_refl (tenant : TenantId) (cache : DecisionCache) : AlikeFor tenant cache cache :=
  ⟨fun _ _ => rfl, rfl, rfl, rfl⟩

section Backends

theorem delete_ttls (cache : DecisionCache) (keys : List String) :
    (cache.delete keys).2.decisionTtl = cache.decisionTtl ∧
      (cache.delete keys).2.roleTtl = cache.roleTtl := by
  unfold delete
  split <;> exact ⟨rfl, rfl⟩

theorem get?_delete (cache : DecisionCache) (keys : List String) (key : String) :
    (cache.delete keys).2.backend.entries.get? key =
      if cache.backend.fault? = none ∧ key ∈ keys then none
      else cache.backend.entries.get? key := by
  rw [delete_backend, CacheBackend.delete_snd]
  by_cases works : cache.backend.fault? = none
  · rw [if_pos works, CacheBackend.get?_removeAll]
    simp [works]
  · rw [if_neg works, if_neg (fun both => works both.1)]

theorem delete_switches (cache : DecisionCache) (keys : List String) :
    (cache.delete keys).2.backend.available = cache.backend.available ∧
      (cache.delete keys).2.backend.broken = cache.backend.broken ∧
        (cache.delete keys).2.backend.uptime = cache.backend.uptime := by
  rw [delete_backend, CacheBackend.delete_snd]
  split
  · obtain ⟨available, broken⟩ := CacheBackend.removeAll_switches cache.backend keys
    exact ⟨available, broken, CacheBackend.uptime_removeAll cache.backend keys⟩
  · exact ⟨rfl, rfl, rfl⟩

/-- Entries that are written now lapse before the backend's clock ends. -/
def Fits (cache : DecisionCache) : Prop :=
  cache.backend.uptime + max cache.decisionTtl cache.roleTtl < CacheBackend.clockEnd

theorem keptFor?_le {left : Nat} (kept : keptFor? ttl validUntil now = some left) : left ≤ ttl := by
  unfold keptFor? at kept
  split at kept
  · cases kept
    exact Nat.le_refl ttl
  · dsimp only at kept
    split at kept
    · cases kept
      exact Nat.min_le_left ..
    · cases kept

/-- What a write leaves: nothing new, an entry under its key and a later moment, or, when the entry
would outlast the clock, a broken backend. -/
theorem write_cases (cache : DecisionCache) (now : Instant) (key : String) (value : Json)
    (ttl : Nat) (validUntil : Option Instant) :
    cache.write now key value ttl validUntil = cache ∨
      (∃ entry writes, cache.write now key value ttl validUntil =
        { cache with
          backend := { cache.backend with
            entries := cache.backend.entries.put key entry
            uptime := cache.backend.uptime + CacheBackend.writeTime }
          writes := writes }) ∨
      CacheBackend.clockEnd ≤ cache.backend.uptime + ttl ∧
        cache.write now key value ttl validUntil =
          { cache with backend := { cache.backend with broken := true } } := by
  unfold write
  split
  · exact Or.inl rfl
  · rename_i left kept
    have bound := keptFor?_le kept
    unfold CacheBackend.set
    cases cache.backend.fault? with
    | some fault => exact Or.inl rfl
    | none =>
      dsimp only
      split
      · rename_i stored
        split at stored
        · cases stored
          exact Or.inr (Or.inl ⟨_, _, rfl⟩)
        · cases stored
      · rename_i refused
        split at refused
        · cases refused
        · rename_i beyond
          cases refused
          exact Or.inr (Or.inr ⟨by omega, rfl⟩)

end Backends

section Foreign

theorem AlikeFor.delete (alike : AlikeFor tenant one other) (foreign : owner ≠ tenant)
    (belong : ∀ key ∈ keys, CacheKey.BelongsTo key owner) :
    AlikeFor tenant one (other.delete keys).2 := by
  obtain ⟨decisionTtl, roleTtl⟩ := delete_ttls other keys
  refine ⟨?_, (delete_switches other keys).1.trans alike.available,
    decisionTtl.trans alike.decisionTtl, roleTtl.trans alike.roleTtl⟩
  intro key belongs
  have spared : key ∉ keys := fun member =>
    foreign (CacheKey.tenant_unique (belong key member) belongs)
  rw [get?_delete, if_neg fun both => spared both.2]
  exact alike.entries key belongs

theorem AlikeFor.write (alike : AlikeFor tenant one other) (foreign : owner ≠ tenant)
    (belongs : CacheKey.BelongsTo key owner) :
    AlikeFor tenant one (other.write now key value ttl validUntil) := by
  rcases write_cases other now key value ttl validUntil with
    same | ⟨entry, writes, same⟩ | ⟨_, same⟩
  · rw [same]
    exact alike
  · rw [same]
    refine ⟨?_, alike.available, alike.decisionTtl, alike.roleTtl⟩
    intro wanted belongsToo
    have apart : wanted ≠ key := fun same =>
      foreign (CacheKey.tenant_unique belongs (same ▸ belongsToo))
    exact (Table.get?_put_of_ne _ _ apart).trans (alike.entries wanted belongsToo)
  · rw [same]
    exact ⟨alike.entries, alike.available, alike.decisionTtl, alike.roleTtl⟩

end Foreign

section Own

variable {α : Type} {shape : Json.Shape} {decodeValue : Json → Option α}
variable (twin : TwinFor tenant one other)
include twin

theorem TwinFor.fault? : other.backend.fault? = one.backend.fault? := by
  unfold CacheBackend.fault?
  rw [twin.available, twin.broken]

theorem TwinFor.entry (belongs : CacheKey.BelongsTo key tenant) :
    other.backend.get key = one.backend.get key := by
  have live : other.backend.live? key = one.backend.live? key := by
    unfold CacheBackend.live? CacheBackend.isLive
    rw [twin.entries key belongs, twin.uptime]
  unfold CacheBackend.get
  rw [twin.fault?, live]

theorem TwinFor.delete (keys : List String) :
    TwinFor tenant (one.delete keys).2 (other.delete keys).2 := by
  obtain ⟨available, broken, uptime⟩ := delete_switches one keys
  obtain ⟨availableToo, brokenToo, uptimeToo⟩ := delete_switches other keys
  obtain ⟨decisionTtl, roleTtl⟩ := delete_ttls one keys
  obtain ⟨decisionTtlToo, roleTtlToo⟩ := delete_ttls other keys
  constructor
  · constructor
    · intro key belongs
      rw [get?_delete, get?_delete, twin.fault?, twin.entries key belongs]
    · rw [available, availableToo, twin.available]
    · rw [decisionTtl, decisionTtlToo, twin.decisionTtl]
    · rw [roleTtl, roleTtlToo, twin.roleTtl]
  · rw [broken, brokenToo, twin.broken]
  · rw [uptime, uptimeToo, twin.uptime]

theorem TwinFor.read (belongs : CacheKey.BelongsTo key tenant) (now : Instant) :
    (other.read shape decodeValue now key).1 = (one.read shape decodeValue now key).1 ∧
      TwinFor tenant (one.read shape decodeValue now key).2
        (other.read shape decodeValue now key).2 := by
  unfold DecisionCache.read
  rw [twin.entry belongs]
  cases one.backend.get key with
  | error fault => exact ⟨rfl, twin⟩
  | ok found =>
    cases found with
    | none => exact ⟨rfl, twin⟩
    | some text =>
      dsimp only
      cases decode? shape decodeValue text with
      | none => exact ⟨rfl, twin.delete [key]⟩
      | some kept =>
        dsimp only
        split
        · exact ⟨rfl, twin.delete [key]⟩
        · exact ⟨rfl, twin⟩

theorem TwinFor.write (now : Instant) (key : String) (value : Json) (ttl : Nat)
    (validUntil : Option Instant) :
    TwinFor tenant (one.write now key value ttl validUntil)
      (other.write now key value ttl validUntil) := by
  unfold DecisionCache.write
  cases keptFor? ttl validUntil now with
  | none => exact twin
  | some left =>
    dsimp only
    unfold CacheBackend.set
    rw [twin.fault?, twin.uptime]
    cases one.backend.fault? with
    | some fault => exact ⟨⟨twin.entries, twin.available, twin.decisionTtl, twin.roleTtl⟩,
        twin.broken, twin.uptime⟩
    | none =>
      dsimp only
      by_cases fits : one.backend.uptime + left < CacheBackend.clockEnd
      · rw [if_pos fits, if_pos fits]
        refine ⟨⟨?_, twin.available, twin.decisionTtl, twin.roleTtl⟩, twin.broken, rfl⟩
        intro wanted belongs
        by_cases same : wanted = key
        · subst same
          exact (Table.get?_put_self ..).trans (Table.get?_put_self ..).symm
        · have before := twin.entries wanted belongs
          exact (Table.get?_put_of_ne _ _ same).trans
            (before.trans (Table.get?_put_of_ne _ _ same).symm)
      · rw [if_neg fits, if_neg fits]
        exact ⟨⟨twin.entries, twin.available, twin.decisionTtl, twin.roleTtl⟩, rfl, rfl⟩

omit twin in
theorem TwinFor.get {request : CheckRequest} (twin : TwinFor request.tenant one other)
    (now : Instant) : (other.get now request).1 = (one.get now request).1 ∧
      TwinFor request.tenant (one.get now request).2 (other.get now request).2 := by
  have read : (other.read Decision.shape Decision.ofJson? now (CacheKey.decision request.about)).1 =
      (one.read Decision.shape Decision.ofJson? now (CacheKey.decision request.about)).1 ∧ _ :=
    twin.read (CacheKey.decision_belongs request.about) now
  exact ⟨congrArg (Option.map _) read.1, read.2⟩

theorem TwinFor.getRoles (now : Instant) (subject : String) :
    (other.getRoles now tenant subject).1 = (one.getRoles now tenant subject).1 ∧
      TwinFor tenant (one.getRoles now tenant subject).2 (other.getRoles now tenant subject).2 :=
  twin.read (CacheKey.roles_belongs tenant subject) now

theorem TwinFor.set (now : Instant) (request : CheckRequest) (decision : Decision)
    (validUntil : Option Instant) : TwinFor tenant (one.set now request decision validUntil)
      (other.set now request decision validUntil) := by
  unfold DecisionCache.set
  rw [twin.decisionTtl]
  exact twin.write ..

theorem TwinFor.setRoles (now : Instant) (owner : TenantId) (subject : String) (roles : List String)
    (validUntil : Option Instant) :
    TwinFor tenant (one.setRoles now owner subject roles validUntil)
      (other.setRoles now owner subject roles validUntil) := by
  unfold DecisionCache.setRoles
  rw [twin.roleTtl]
  exact twin.write ..

end Own

end AccessPolicy.DecisionCache
