import AccessPolicy.Proofs.CacheKey
import AccessPolicy.Proofs.DecisionCache.Tenancy

/-!
What reading does to a cache. A read removes at most the entry that it reads, and only one that is served
no more at the instant; no later read at that instant tells the caches apart, and what is written to both
keeps them so.
-/
namespace AccessPolicy.DecisionCache

/-- Nothing was found that can still be served. -/
def Spent {α : Type} (now : Instant) (found : Option (α × Option Instant)) : Prop :=
  ∀ value validUntil, found = some (value, validUntil) → validUntil.any (· ≤ now) = true

/-- The text is not served under the key, be that of a decision or of a role set. -/
structure Unserved (now : Instant) (key text : String) : Prop where
  decision : ∀ about, key = CacheKey.decision about →
    Spent now (decode? Decision.shape Decision.ofJson? text)
  roles : ∀ tenant subject, key = CacheKey.roles tenant subject →
    Spent now (decode? .whole (Json.list? Json.string?) text)

/-- One cache has the entries of the other, except for such as are not served at the instant, and is the
other one in every other respect. -/
structure Sifts (now : Instant) (one other : DecisionCache) : Prop where
  entries : ∀ key, other.backend.entries.get? key = one.backend.entries.get? key ∨
    other.backend.entries.get? key = none ∧
      ∃ entry, one.backend.entries.get? key = some entry ∧ Unserved now key entry.value
  available : other.backend.available = one.backend.available
  broken : other.backend.broken = one.backend.broken
  uptime : other.backend.uptime = one.backend.uptime
  decisionTtl : other.decisionTtl = one.decisionTtl
  roleTtl : other.roleTtl = one.roleTtl
  writes : other.writes = one.writes

variable {α : Type} {shape : Json.Shape} {decodeValue : Json → Option α} {now : Instant}
variable {one other third : DecisionCache} {key : String}

theorem unserved_decision_iff (about : DecisionSubject) (text : String) :
    Unserved now (CacheKey.decision about) text ↔
      Spent now (decode? Decision.shape Decision.ofJson? text) :=
  ⟨fun unserved => unserved.decision about rfl, fun spent => ⟨fun _ _ => spent,
    fun _ _ same => (CacheKey.decision_ne_roles _ _ _ same).elim⟩⟩

theorem unserved_roles_iff (tenant : TenantId) (subject text : String) :
    Unserved now (CacheKey.roles tenant subject) text ↔
      Spent now (decode? .whole (Json.list? Json.string?) text) :=
  ⟨fun unserved => unserved.roles tenant subject rfl, fun spent =>
    ⟨fun _ same => (CacheKey.decision_ne_roles _ _ _ same.symm).elim, fun _ _ _ => spent⟩⟩

namespace Sifts

theorem refl (now : Instant) (cache : DecisionCache) : Sifts now cache cache :=
  ⟨fun _ => Or.inl rfl, rfl, rfl, rfl, rfl, rfl, rfl⟩

theorem trans (first : Sifts now one other) (second : Sifts now other third) : Sifts now one third where
  entries := by
    intro key
    rcases second.entries key with kept | ⟨gone, entry, present, unserved⟩
    · rw [kept]
      exact first.entries key
    · rcases first.entries key with same | ⟨absent, _⟩
      · exact Or.inr ⟨gone, entry, same.symm.trans present, unserved⟩
      · rw [present] at absent
        cases absent
  available := second.available.trans first.available
  broken := second.broken.trans first.broken
  uptime := second.uptime.trans first.uptime
  decisionTtl := second.decisionTtl.trans first.decisionTtl
  roleTtl := second.roleTtl.trans first.roleTtl
  writes := second.writes.trans first.writes

theorem fault? (sifts : Sifts now one other) : other.backend.fault? = one.backend.fault? := by
  unfold CacheBackend.fault?
  rw [sifts.available, sifts.broken]

theorem live? (sifts : Sifts now one other)
    (same : other.backend.entries.get? key = one.backend.entries.get? key) :
    other.backend.live? key = one.backend.live? key := by
  unfold CacheBackend.live? CacheBackend.isLive
  rw [same, sifts.uptime]

end Sifts

section Reading

theorem delete_writes (cache : DecisionCache) (keys : List String) :
    (cache.delete keys).2.writes = cache.writes := by
  unfold delete
  split <;> rfl

/-- A read finds an entry that is not served any more. -/
def Purges (shape : Json.Shape) (decodeValue : Json → Option α) (cache : DecisionCache)
    (now : Instant) (key : String) : Prop :=
  cache.backend.fault? = none ∧ ∃ text, cache.backend.live? key = some text ∧
    Spent now (decode? shape decodeValue text)

theorem get_eq_of_works {backend : CacheBackend} (works : backend.fault? = none) (key : String) :
    backend.get key = .ok (backend.live? key) := by
  unfold CacheBackend.get
  rw [works]

theorem read_of_purges (purges : Purges shape decodeValue one now key) :
    (one.read shape decodeValue now key).2 = (one.delete [key]).2 := by
  obtain ⟨works, text, live, spent⟩ := purges
  unfold read
  rw [get_eq_of_works works, live]
  dsimp only
  split
  · rename_i value validUntil decoded
    rw [if_pos (spent value validUntil decoded)]
  · rfl

theorem read_of_not_purges (keeps : ¬ Purges shape decodeValue one now key) :
    (one.read shape decodeValue now key).2 = one := by
  unfold read
  split
  · rename_i text present
    unfold CacheBackend.get at present
    split at present
    · cases present
    · rename_i works
      have live : one.backend.live? key = some text := Except.ok.inj present
      split
      · rename_i value validUntil decoded
        split
        · rename_i past
          refine absurd ⟨works, text, live, ?_⟩ keeps
          rintro _ _ same
          rw [decoded] at same
          cases same
          exact past
        · rfl
      · rename_i illegible
        refine absurd ⟨works, text, live, ?_⟩ keeps
        rintro _ _ same
        rw [illegible] at same
        cases same
  · rfl

/-- A removal of what a read finds to be over. -/
theorem get?_read_of_purges (purges : Purges shape decodeValue one now key) (other : String) :
    (one.read shape decodeValue now key).2.backend.entries.get? other =
      if other = key then none else one.backend.entries.get? other := by
  rw [read_of_purges purges, get?_delete]
  simp [purges.1]

theorem sifts_read (cache : DecisionCache)
    (fits : ∀ text, Spent now (decode? shape decodeValue text) → Unserved now key text) :
    Sifts now cache (cache.read shape decodeValue now key).2 := by
  by_cases purges : Purges shape decodeValue cache now key
  · have entries := get?_read_of_purges purges
    rw [read_of_purges purges] at entries ⊢
    obtain ⟨decisionTtl, roleTtl⟩ := delete_ttls cache [key]
    obtain ⟨available, broken, uptime⟩ := delete_switches cache [key]
    refine ⟨fun other => ?_, available, broken, uptime, decisionTtl, roleTtl, delete_writes cache _⟩
    rw [entries]
    by_cases same : other = key
    · subst same
      obtain ⟨_, text, live, spent⟩ := purges
      obtain ⟨entry, present, _, rfl⟩ := CacheBackend.live?_eq_some_iff.mp live
      exact Or.inr ⟨if_pos rfl, entry, present, fits _ spent⟩
    · exact Or.inl (if_neg same)
  · rw [read_of_not_purges purges]
    exact .refl now cache

/-- Caches of which one sifts the other are read alike, and stay so. -/
theorem Sifts.read (sifts : Sifts now one other)
    (same : ∀ text, Unserved now key text ↔ Spent now (decode? shape decodeValue text)) :
    (other.read shape decodeValue now key).1 = (one.read shape decodeValue now key).1 ∧
      Sifts now (one.read shape decodeValue now key).2 (other.read shape decodeValue now key).2 := by
  constructor
  · ext value
    rw [read_eq_some_iff, read_eq_some_iff, sifts.available, sifts.broken]
    refine and_congr_right fun _ => and_congr_right fun _ => ?_
    rcases sifts.entries key with kept | ⟨gone, entry, present, unserved⟩
    · rw [sifts.live? kept]
    · constructor
      · rintro ⟨text, _, live, _⟩
        obtain ⟨_, found, _⟩ := CacheBackend.live?_eq_some_iff.mp live
        rw [gone] at found
        cases found
      · rintro ⟨text, bound, live, decoded, before⟩
        obtain ⟨_, found, _, rfl⟩ := CacheBackend.live?_eq_some_iff.mp live
        rw [present] at found
        cases found
        have past := (same _).mp unserved value bound decoded
        rw [Instant.any_le_eq_false_iff.mpr before] at past
        cases past
  · have later : Sifts now other (other.read shape decodeValue now key).2 :=
      sifts_read other fun text => (same text).mpr
    by_cases purges : Purges shape decodeValue one now key
    · -- What the first read removes the second one removes, or it was gone already.
      have gone : (other.read shape decodeValue now key).2.backend.entries.get? key = none := by
        rcases sifts.entries key with kept | ⟨gone, _⟩
        · obtain ⟨works, text, live, spent⟩ := purges
          have purgesToo : Purges shape decodeValue other now key :=
            ⟨sifts.fault?.trans works, text, (sifts.live? kept).trans live, spent⟩
          exact (get?_read_of_purges purgesToo key).trans (if_pos rfl)
        · rcases later.entries key with kept | ⟨removed, _⟩
          · exact kept.trans gone
          · exact removed
      obtain ⟨available, broken, uptime⟩ := delete_switches one [key]
      obtain ⟨decisionTtl, roleTtl⟩ := delete_ttls one [key]
      have whole := sifts.trans later
      have entries := get?_read_of_purges purges
      rw [read_of_purges purges] at entries ⊢
      refine ⟨fun wanted => ?_, whole.available.trans available.symm, whole.broken.trans broken.symm,
        whole.uptime.trans uptime.symm, whole.decisionTtl.trans decisionTtl.symm,
        whole.roleTtl.trans roleTtl.symm, whole.writes.trans (delete_writes one _).symm⟩
      rw [entries]
      by_cases same : wanted = key
      · subst same
        exact Or.inl (gone.trans (if_pos rfl).symm)
      · rw [if_neg same]
        exact whole.entries wanted
    · rw [read_of_not_purges purges]
      exact sifts.trans later

theorem Sifts.get (sifts : Sifts now one other) (request : CheckRequest) :
    (other.get now request).1 = (one.get now request).1 ∧
      Sifts now (one.get now request).2 (other.get now request).2 := by
  obtain ⟨same, after⟩ := sifts.read (unserved_decision_iff request.about)
  exact ⟨congrArg (Option.map _) same, after⟩

theorem Sifts.getRoles (sifts : Sifts now one other) (tenant : TenantId) (subject : String) :
    (other.getRoles now tenant subject).1 = (one.getRoles now tenant subject).1 ∧
      Sifts now (one.getRoles now tenant subject).2 (other.getRoles now tenant subject).2 :=
  sifts.read (unserved_roles_iff tenant subject)

theorem sifts_get (cache : DecisionCache) (request : CheckRequest) :
    Sifts now cache (cache.get now request).2 :=
  sifts_read cache fun text => (unserved_decision_iff request.about text).mpr

theorem sifts_getRoles (cache : DecisionCache) (tenant : TenantId) (subject : String) :
    Sifts now cache (cache.getRoles now tenant subject).2 :=
  sifts_read cache fun text => (unserved_roles_iff tenant subject text).mpr

end Reading

section Writing

theorem Sifts.write (sifts : Sifts now one other) (key : String) (value : Json) (ttl : Nat)
    (validUntil : Option Instant) :
    Sifts now (one.write now key value ttl validUntil) (other.write now key value ttl validUntil) := by
  unfold DecisionCache.write
  cases keptFor? ttl validUntil now with
  | none => exact sifts
  | some left =>
    dsimp only
    unfold CacheBackend.set
    rw [sifts.fault?, sifts.uptime]
    cases one.backend.fault? with
    | some fault => exact ⟨sifts.entries, sifts.available, sifts.broken, sifts.uptime,
        sifts.decisionTtl, sifts.roleTtl, sifts.writes⟩
    | none =>
      dsimp only
      by_cases fits : one.backend.uptime + left < CacheBackend.clockEnd
      · rw [if_pos fits, if_pos fits]
        refine ⟨fun wanted => ?_, sifts.available, sifts.broken, rfl, sifts.decisionTtl,
          sifts.roleTtl, congrArg (· ++ _) sifts.writes⟩
        by_cases same : wanted = key
        · subst same
          exact Or.inl ((Table.get?_put_self ..).trans (Table.get?_put_self ..).symm)
        · have before := sifts.entries wanted
          rw [← Table.get?_put_of_ne other.backend.entries _ same,
            ← Table.get?_put_of_ne one.backend.entries _ same] at before
          exact before
      · rw [if_neg fits, if_neg fits]
        exact ⟨sifts.entries, sifts.available, rfl, rfl, sifts.decisionTtl, sifts.roleTtl,
          sifts.writes⟩

theorem Sifts.set (sifts : Sifts now one other) (request : CheckRequest) (decision : Decision)
    (validUntil : Option Instant) : Sifts now (one.set now request decision validUntil)
      (other.set now request decision validUntil) := by
  unfold DecisionCache.set
  rw [sifts.decisionTtl]
  exact sifts.write ..

theorem Sifts.setRoles (sifts : Sifts now one other) (tenant : TenantId) (subject : String)
    (roles : List String) (validUntil : Option Instant) :
    Sifts now (one.setRoles now tenant subject roles validUntil)
      (other.setRoles now tenant subject roles validUntil) := by
  unfold DecisionCache.setRoles
  rw [sifts.roleTtl]
  exact sifts.write ..

end Writing

end AccessPolicy.DecisionCache
