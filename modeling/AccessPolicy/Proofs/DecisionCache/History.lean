import Mathlib.Data.List.Induction
import AccessPolicy.Proofs.DecisionCache.Keeps

/-!
The history of a cache. Every entry that can be looked up comes from one use of the cache, the last
that touched its key: a write that went through, after which nothing replaced or dropped it.
-/
namespace AccessPolicy

namespace DecisionCache

/-- A cache and the clock by which it is used. -/
structure Clocked where
  cache : DecisionCache
  now : Instant

/-- What an entry is about. -/
inductive Memo where
  | decision (about : DecisionSubject)
  | roles (tenant : TenantId) (subject : String)
deriving DecidableEq, Repr

def Memo.key : Memo → String
  | .decision about => CacheKey.decision about
  | .roles tenant subject => CacheKey.roles tenant subject

/-- One use of a cache, or something that happens to it between two uses. -/
inductive Use where
  | get (request : CheckRequest)
  | set (request : CheckRequest) (decision : Decision) (validUntil : Option Instant)
  | getRoles (tenant : TenantId) (subject : String)
  | setRoles (tenant : TenantId) (subject : String) (roles : List String)
    (validUntil : Option Instant)
  | invalidateSubject (tenant : TenantId) (subject : String)
  | invalidateSubjects (tenant : TenantId) (subjects : List String)
  | invalidateService (tenant : TenantId) (service : String)
  | invalidateTenant (tenant : TenantId)
  | invalidateAll (service : Option String)
  | switch (available : Bool)
  | clock (now : Instant)
  | elapse (nanos : Nat)

namespace Use

def cacheAfter (now : Instant) (cache : DecisionCache) : Use → DecisionCache
  | .get request => (cache.get now request).2
  | .set request decision validUntil => cache.set now request decision validUntil
  | .getRoles tenant subject => (cache.getRoles now tenant subject).2
  | .setRoles tenant subject roles validUntil => cache.setRoles now tenant subject roles validUntil
  | .invalidateSubject tenant subject => (cache.invalidateSubject tenant subject).2
  | .invalidateSubjects tenant subjects => (cache.invalidateSubjects tenant subjects).2
  | .invalidateService tenant service => (cache.invalidateService tenant service).2
  | .invalidateTenant tenant => (cache.invalidateTenant tenant).2
  | .invalidateAll service => (cache.invalidateAll service).2
  | .switch available => { cache with backend := cache.backend.setAvailable available }
  | .clock _ => cache
  | .elapse nanos => { cache with backend := cache.backend.elapse nanos }

def turn (state : Clocked) (use : Use) : Clocked where
  cache := use.cacheAfter state.now state.cache
  now :=
    match use with
    | .clock now => now
    | _ => state.now

/-- What a write leaves, and under what. -/
def content? : Use → Option (Memo × String)
  | .set request decision validUntil =>
    some (.decision request.about, encode { decision with fromCache := false }.toJson validUntil)
  | .setRoles tenant subject roles validUntil =>
    some (.roles tenant subject, encode (Json.ofStrings roles) validUntil)
  | _ => none

/-- What an invalidation concerns. -/
def Drops : Use → Memo → Prop
  | .invalidateSubject tenant subject, .decision about =>
    about.tenant = tenant ∧ about.subject = subject
  | .invalidateSubject tenant subject, .roles owner member => owner = tenant ∧ member = subject
  | .invalidateSubjects tenant subjects, .decision about =>
    about.tenant = tenant ∧ about.subject ∈ subjects
  | .invalidateSubjects tenant subjects, .roles owner member => owner = tenant ∧ member ∈ subjects
  | .invalidateService tenant service, .decision about =>
    about.tenant = tenant ∧ about.service = service
  | .invalidateTenant tenant, .decision about => about.tenant = tenant
  | .invalidateTenant tenant, .roles owner _ => owner = tenant
  | .invalidateAll none, _ => True
  | .invalidateAll (some service), .decision about => about.service = service
  | _, _ => False

end Use

/-- A write goes through: the backend works, and its clock can count for how long the entry is
kept. -/
def Stores (cache : DecisionCache) (now : Instant) (ttl : Nat) (validUntil : Option Instant) :
    Prop :=
  cache.backend.fault? = none ∧ ∃ left, keptFor? ttl validUntil now = some left ∧
    cache.backend.uptime + left < CacheBackend.clockEnd

namespace Use

def Takes (state : Clocked) : Use → Prop
  | .set _ _ validUntil => state.cache.Stores state.now state.cache.decisionTtl validUntil
  | .setRoles _ _ _ validUntil => state.cache.Stores state.now state.cache.roleTtl validUntil
  | _ => False

/-- A use replaces or drops what is kept about something. -/
def Touches (state : Clocked) (use : Use) (memo : Memo) : Prop :=
  (∃ text, use.content? = some (memo, text)) ∧ use.Takes state ∨
    state.cache.backend.available = true ∧ use.Drops memo

end Use

def run (state : Clocked) (uses : List Use) : Clocked :=
  uses.foldl Use.turn state

theorem run_append (start : Clocked) (uses rest : List Use) :
    run start (uses ++ rest) = run (run start uses) rest :=
  List.foldl_append ..

variable {cache : DecisionCache} {now : Instant} {ttl : Nat} {validUntil : Option Instant}

/-- A write that goes through leaves its entry. -/
theorem write_of_stores {left : Nat} (stores : cache.Stores now ttl validUntil)
    (kept : keptFor? ttl validUntil now = some left) (key : String) (json : Json) :
    (cache.write now key json ttl validUntil).backend = { cache.backend with
      entries := cache.backend.entries.put key
        ⟨encode json validUntil, cache.backend.uptime + left⟩
      uptime := cache.backend.uptime + CacheBackend.writeTime } := by
  obtain ⟨works, other, same, counted⟩ := stores
  rw [kept, Option.some.injEq] at same
  subst same
  simp only [write, kept, CacheBackend.set, works, if_pos counted]

/-- What an invalidation concerns is gone after it. -/
theorem Use.Drops.lacks {state : Clocked} {use : Use} {memo : Memo} (drops : use.Drops memo)
    (available : state.cache.backend.available = true) :
    (use.turn state).cache.Lacks memo.key := by
  cases use with
  | get | set | getRoles | setRoles | switch | clock | elapse => cases memo <;> exact drops.elim
  | invalidateSubject tenant subject =>
    obtain ⟨decisions, roles⟩ := invalidateSubject_lacks available tenant subject
    cases memo with
    | decision about => exact decisions about drops.1 drops.2
    | roles owner member =>
      obtain ⟨rfl, rfl⟩ := drops
      exact roles
  | invalidateSubjects tenant subjects =>
    cases memo with
    | decision about => exact (invalidateSubjects_lacks available tenant drops.2).1 about drops.1 rfl
    | roles owner member =>
      obtain ⟨rfl, member⟩ := drops
      exact (invalidateSubjects_lacks available owner member).2
  | invalidateService tenant service =>
    cases memo with
    | decision about =>
      obtain ⟨rfl, rfl⟩ := drops
      exact (invalidateService_lacks available about).1
    | roles owner member => exact drops.elim
  | invalidateTenant tenant =>
    cases memo with
    | decision about => exact (invalidateTenant_lacks available tenant).1 about drops
    | roles owner member =>
      cases drops
      exact (invalidateTenant_lacks available tenant).2 member
  | invalidateAll service =>
    cases service with
    | none =>
      cases memo with
      | decision about => exact (invalidateAll_lacks available).1 about
      | roles owner member => exact (invalidateAll_lacks available).2 owner member
    | some service =>
      cases memo with
      | decision about =>
        cases drops
        exact (invalidateService_lacks available about).2
      | roles owner member => exact drops.elim

/-- Directly after a write that goes through, the entry can be looked up. -/
theorem live?_write_of_stores {left nanos : Nat} (stores : cache.Stores now ttl validUntil)
    (kept : keptFor? ttl validUntil now = some left) (key : String) (json : Json)
    (within : CacheBackend.writeTime + nanos < left) :
    ((cache.write now key json ttl validUntil).backend.elapse nanos).live? key =
      some (encode json validUntil) := by
  rw [write_of_stores stores kept, CacheBackend.live?_eq_some_iff]
  refine ⟨_, Table.get?_put_self .., ?_, rfl⟩
  simp only [CacheBackend.elapse]
  omega

/-- A cache that has just been made. -/
def Clocked.opened (decisionTtl roleTtl : Nat) (now : Instant) : Clocked :=
  ⟨⟨.empty, decisionTtl, roleTtl, []⟩, now⟩

def Clocked.look (state : Clocked) (request : CheckRequest) : Option Decision :=
  (state.cache.get state.now request).1

variable {decisionTtl roleTtl : Nat} {opened : Instant} {uses : List Use}

section Fresh

variable {state : Clocked} {request : CheckRequest} {decision : Decision} {left nanos : Nat}
variable {later : Instant}

end Fresh

section Limits

def annReadsDocument : CheckRequest :=
  ⟨⟨7⟩, "cms", "ann", "/docs/7", "read", [], []⟩

def openedAtEpoch : Clocked :=
  .opened (300 * nanosPerSecond) (600 * nanosPerSecond) .epoch

end Limits

end DecisionCache

end AccessPolicy
