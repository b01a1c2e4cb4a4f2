import AccessPolicy.Glob
import AccessPolicy.Identifier

/-!
Keys of cached decisions and role sets. A key is a row of segments between colons; colons and
percent signs inside a segment are written as escapes, so that a key has one reading.
-/
namespace AccessPolicy

/-- What a decision is cached under. -/
structure DecisionSubject where
  tenant : TenantId
  service : String
  subject : String
  object : String
  action : String
deriving DecidableEq, Repr

namespace CacheKey

def encodeChar (char : Char) : List Char :=
  if char = '%' then ['%', '2', '5']
  else if char = ':' then ['%', '3', 'A']
  else [char]

def encode (segment : String) : String :=
  String.ofList (segment.toList.flatMap encodeChar)

def join (segments : List String) : String :=
  ":".intercalate segments

def decisionSegments : List String := ["authz", "decision"]

def rolesSegments : List String := ["authz", "roles"]

def decision (about : DecisionSubject) : String :=
  join (decisionSegments ++ [about.tenant.text, encode about.service, encode about.subject,
    encode about.object, encode about.action])

def roles (tenant : TenantId) (subject : String) : String :=
  join (rolesSegments ++ [tenant.text, encode subject])

/-- A segment in a glob, which matches itself alone. -/
def globSegment (segment : String) : String :=
  Glob.escape (encode segment)

def subjectGlob (tenant : TenantId) (subject : String) : String :=
  join (decisionSegments ++ [tenant.text, "*", globSegment subject, "*"])

def serviceGlob (tenant : TenantId) (service : String) : String :=
  join (decisionSegments ++ [tenant.text, globSegment service, "*"])

/-- Decisions of a service in any tenant. -/
def anyServiceGlob (service : String) : String :=
  join (decisionSegments ++ ["*", globSegment service, "*"])

def tenantDecisionsGlob (tenant : TenantId) : String :=
  join (decisionSegments ++ [tenant.text, "*"])

def tenantRolesGlob (tenant : TenantId) : String :=
  join (rolesSegments ++ [tenant.text, "*"])

def decisionsGlob : String :=
  join (decisionSegments ++ ["*"])

def rolesGlob : String :=
  join (rolesSegments ++ ["*"])

end CacheKey

end AccessPolicy
