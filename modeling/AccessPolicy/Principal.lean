/-!
The caller of an operation, as its credentials name it.
-/
namespace AccessPolicy

structure Principal where
  id : String
  roles : List String
deriving DecidableEq, Repr

def Principal.hasRole (principal : Principal) (role : String) : Bool :=
  principal.roles.contains role

end AccessPolicy
