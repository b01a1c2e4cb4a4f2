import AccessPolicy.Glob
import AccessPolicy.Table

/-!
A key/value cache whose entries lapse. Time is the backend's own steady count of nanoseconds; a
write takes `writeTime` of them, so what is looked at after a write is at least that much later.
An entry that has lapsed is as good as gone. The count ends at `clockEnd`: a write of an entry that
would lapse later fails and leaves the backend broken.
-/
namespace AccessPolicy

inductive CacheError where
  | unavailable
  | broken
deriving DecidableEq, Repr

def CacheError.message : CacheError → String
  | .unavailable => "cache unavailable: in-memory cache disabled"
  | .broken => "cache backend error: lock poisoned"

structure CacheEntry where
  value : String
  /-- The first nanosecond at which the entry is gone. -/
  lapsesAt : Nat
deriving DecidableEq, Repr

structure CacheBackend where
  entries : Table String CacheEntry
  available : Bool
  /-- A write has failed half-way; nothing can be done with the entries any more. -/
  broken : Bool
  /-- Nanoseconds on the backend's clock. -/
  uptime : Nat

namespace CacheBackend

/-- Nanoseconds on the clock when a backend starts, an hour after the clock. -/
def startTime : Nat := 3600 * 1000000000

/-- Nanoseconds that the clock never shows: it counts seconds in 63 bits. -/
def clockEnd : Nat := UInt64.size / 2 * 1000000000

def empty : CacheBackend := ⟨[], true, false, startTime⟩

def writeTime : Nat := 2

def isLive (backend : CacheBackend) (entry : CacheEntry) : Bool :=
  backend.uptime < entry.lapsesAt

/-- The value under a key, as far as it has not lapsed. -/
def live? (backend : CacheBackend) (key : String) : Option String :=
  ((backend.entries.get? key).filter backend.isLive).map CacheEntry.value

def liveKeys (backend : CacheBackend) : List String :=
  Table.keys (backend.entries.filter (fun entry => backend.isLive entry.2))

/-- How many entries are live; this is known even in an outage. -/
def size (backend : CacheBackend) : Nat :=
  if backend.broken then 0 else backend.liveKeys.length

def fault? (backend : CacheBackend) : Option CacheError :=
  if !backend.available then some .unavailable
  else if backend.broken then some .broken
  else none

def setAvailable (backend : CacheBackend) (available : Bool) : CacheBackend :=
  { backend with available := available }

def elapse (backend : CacheBackend) (nanos : Nat) : CacheBackend :=
  { backend with uptime := backend.uptime + nanos }

def get (backend : CacheBackend) (key : String) : Except CacheError (Option String) :=
  match backend.fault? with
  | some fault => .error fault
  | none => .ok (backend.live? key)

/-- Stores a value under a key for so many nanoseconds. -/
def set (backend : CacheBackend) (key value : String) (ttl : Nat) :
    Except CacheError Unit × CacheBackend :=
  match backend.fault? with
  | some fault => (.error fault, backend)
  | none =>
    if backend.uptime + ttl < clockEnd then
      (.ok (), { backend with
        entries := backend.entries.put key ⟨value, backend.uptime + ttl⟩
        uptime := backend.uptime + writeTime })
    else (.error .broken, { backend with broken := true })

/-- Removes one entry and counts it if it was live. -/
def remove (backend : CacheBackend) (key : String) : Nat × CacheBackend :=
  ((if (backend.live? key).isSome then 1 else 0),
    { backend with entries := backend.entries.erase key })

/-- Removes keys one after the other and counts the live entries among them. -/
def removeAll (backend : CacheBackend) : List String → Nat × CacheBackend
  | [] => (0, backend)
  | key :: rest =>
    let (one, backend) := backend.remove key
    let (others, backend) := backend.removeAll rest
    (one + others, backend)

def delete (backend : CacheBackend) (keys : List String) : Except CacheError Nat × CacheBackend :=
  match backend.fault? with
  | some fault => (.error fault, backend)
  | none =>
    let (count, backend) := backend.removeAll keys
    (.ok count, backend)

/-- The live keys that a glob matches, ascending. -/
def scan (backend : CacheBackend) (glob : String) : Except CacheError (List String) :=
  match backend.fault? with
  | some fault => .error fault
  | none => .ok (backend.liveKeys.filter (Glob.accepts glob))

end CacheBackend

end AccessPolicy
