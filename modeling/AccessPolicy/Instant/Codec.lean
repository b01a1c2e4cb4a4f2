import AccessPolicy.Instant.Parser
import AccessPolicy.Instant.Printer
import AccessPolicy.Json

/-!
Instants as JSON strings.
-/
namespace AccessPolicy.Instant

def toJson (instant : Instant) : Json :=
  .str instant.text

def ofJson? : Json → Option Instant
  | .str text => ofText? text
  | _ => none

end AccessPolicy.Instant
