import AccessPolicy.CacheBackend
import AccessPolicy.Decision.Codec
import AccessPolicy.Json.Parser
import AccessPolicy.Json.Printer

/-!
Decisions and role sets kept in a cache backend. An entry holds its value and, where the evaluator
that made it stops being exact, the instant from which it is not served. Entries are never changed,
only written anew and invalidated; a backend that fails is a miss.
-/
namespace AccessPolicy

structure DecisionCache where
  backend : CacheBackend
  /-- Nanoseconds for which a decision is kept. -/
  decisionTtl : Nat
  /-- Nanoseconds for which a role set is kept. -/
  roleTtl : Nat
  /-- Keys written and for how many nanoseconds, the latest last. -/
  writes : List (String × Nat)

namespace DecisionCache

def ofSeconds (decisionTtl roleTtl : Nat) : DecisionCache :=
  ⟨.empty, decisionTtl * nanosPerSecond, roleTtl * nanosPerSecond, []⟩

def encode (value : Json) (validUntil : Option Instant) : String :=
  Json.render (.obj [("value", value), ("valid_until", Json.ofOption Instant.toJson validUntil)])

/-- The value of an entry and the instant from which it is not served. Members that an entry does
not have are passed over. -/
def decode? {α : Type} (shape : Json.Shape) (decodeValue : Json → Option α) (text : String) :
    Option (α × Option Instant) := do
  let json ← Json.parseAs? (.record [("value", shape), ("valid_until", .whole)]) text
  let record ← Json.Record.ofJson? ["value", "valid_until"] json
  let value ← record.required "value" decodeValue
  let validUntil ← record.defaulted "valid_until" (Json.option? Instant.ofJson?) none
  pure (value, validUntil)

/-- Removes keys and counts the live ones; a backend that fails removes none. -/
def delete (cache : DecisionCache) (keys : List String) : Nat × DecisionCache :=
  match cache.backend.delete keys with
  | (.ok count, backend) => (count, { cache with backend := backend })
  | (.error _, backend) => (0, { cache with backend := backend })

/-- The value under a key. An entry that is no longer served, or cannot be read, is removed. -/
def read {α : Type} (shape : Json.Shape) (decodeValue : Json → Option α) (cache : DecisionCache)
    (now : Instant) (key : String) : Option α × DecisionCache :=
  match cache.backend.get key with
  | .ok (some text) =>
    match decode? shape decodeValue text with
    | some (value, validUntil) =>
      if validUntil.any (· ≤ now) then (none, (cache.delete [key]).2) else (some value, cache)
    | none => (none, (cache.delete [key]).2)
  | _ => (none, cache)

/-- How long an entry is kept: not beyond the instant from which it is not served, and not at all
when that has come. -/
def keptFor? (ttl : Nat) (validUntil : Option Instant) (now : Instant) : Option Nat :=
  match validUntil with
  | none => some ttl
  | some last =>
    let left := last.nanosSince now
    if 0 < left then some (min ttl left.toNat) else none

def write (cache : DecisionCache) (now : Instant) (key : String) (value : Json) (ttl : Nat)
    (validUntil : Option Instant) : DecisionCache :=
  match keptFor? ttl validUntil now with
  | none => cache
  | some ttl =>
    match cache.backend.set key (encode value validUntil) ttl with
    | (.ok (), backend) =>
      { cache with
        backend := backend
        writes := cache.writes ++ [(key, ttl)] }
    | (.error _, backend) => { cache with backend := backend }

def get (cache : DecisionCache) (now : Instant) (request : CheckRequest) :
    Option Decision × DecisionCache :=
  match cache.read Decision.shape Decision.ofJson? now (CacheKey.decision request.about) with
  | (found, cache) => (found.map (fun decision => { decision with fromCache := true }), cache)

/-- Caches a decision that is exact until an instant, or without end. -/
def set (cache : DecisionCache) (now : Instant) (request : CheckRequest) (decision : Decision)
    (validUntil : Option Instant) : DecisionCache :=
  cache.write now (CacheKey.decision request.about)
    { decision with fromCache := false }.toJson cache.decisionTtl validUntil

def getRoles (cache : DecisionCache) (now : Instant) (tenant : TenantId) (subject : String) :
    Option (List String) × DecisionCache :=
  cache.read .whole (Json.list? Json.string?) now (CacheKey.roles tenant subject)

def setRoles (cache : DecisionCache) (now : Instant) (tenant : TenantId) (subject : String)
    (roles : List String) (validUntil : Option Instant) : DecisionCache :=
  cache.write now (CacheKey.roles tenant subject) (Json.ofStrings roles) cache.roleTtl validUntil

/-- The live keys that a glob matches; none when the backend fails. -/
def scan (cache : DecisionCache) (glob : String) : List String :=
  match cache.backend.scan glob with
  | .ok keys => keys
  | .error _ => []

/-- Removes a subject's role set and every decision about it. -/
def invalidateSubject (cache : DecisionCache) (tenant : TenantId) (subject : String) :
    Nat × DecisionCache :=
  cache.delete (cache.scan (CacheKey.subjectGlob tenant subject) ++ [CacheKey.roles tenant subject])

def invalidateSubjects (cache : DecisionCache) (tenant : TenantId) :
    List String → Nat × DecisionCache
  | [] => (0, cache)
  | subject :: rest =>
    let (one, cache) := cache.invalidateSubject tenant subject
    let (others, cache) := cache.invalidateSubjects tenant rest
    (one + others, cache)

def invalidateService (cache : DecisionCache) (tenant : TenantId) (service : String) :
    Nat × DecisionCache :=
  cache.delete (cache.scan (CacheKey.serviceGlob tenant service))

def invalidateTenant (cache : DecisionCache) (tenant : TenantId) : Nat × DecisionCache :=
  cache.delete (cache.scan (CacheKey.tenantDecisionsGlob tenant) ++
    cache.scan (CacheKey.tenantRolesGlob tenant))

/-- Removes everything, or the decisions of one service in every tenant. -/
def invalidateAll (cache : DecisionCache) (service : Option String) : Nat × DecisionCache :=
  match service with
  | some service => cache.delete (cache.scan (CacheKey.anyServiceGlob service))
  | none => cache.delete (cache.scan CacheKey.decisionsGlob ++ cache.scan CacheKey.rolesGlob)

/-- Removes the decisions of one service of a tenant, or everything of the tenant. -/
def invalidate (cache : DecisionCache) (tenant : TenantId) (service : Option String) :
    Nat × DecisionCache :=
  match service with
  | some service => cache.invalidateService tenant service
  | none => cache.invalidateTenant tenant

end DecisionCache

end AccessPolicy
