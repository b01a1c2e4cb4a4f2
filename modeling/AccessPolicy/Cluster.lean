import AccessPolicy.Engine.Sync

/-!
Several engines over one rule store, one bus and one clock. An engine acts by itself; the changes
that it announces wait in the subscriptions of the others until they are delivered.
-/
namespace AccessPolicy

structure Cluster where
  commons : Commons
  replicas : List Replica

namespace Cluster

variable {ε α : Type}

def engine? (cluster : Cluster) (number : Nat) : Option Engine :=
  cluster.replicas[number]?.map (fun own => ⟨cluster.commons, own, .start⟩)

def accept (cluster : Cluster) (number : Nat) (engine : Engine) : Cluster :=
  ⟨engine.commons, cluster.replicas.set number engine.own⟩

/-- Lets the engine with a number act; none if there is no such engine. -/
def act? (cluster : Cluster) (number : Nat) (action : Act Engine ε α) :
    Option (Outcome ε α × Cluster) :=
  (cluster.engine? number).map (fun engine =>
    let (outcome, engine) := action engine
    (outcome, cluster.accept number engine))

/-- Delivers to one engine every change that waits for it. -/
def deliverTo (cluster : Cluster) (number : Nat) : Cluster :=
  match cluster.act? number (Engine.takeChanges : Act Engine Empty Unit) with
  | some (_, cluster) => cluster
  | none => cluster

def deliver (cluster : Cluster) : Cluster :=
  (List.range cluster.replicas.length).foldl deliverTo cluster

def setClock (cluster : Cluster) (now : Instant) : Cluster :=
  { cluster with commons := { cluster.commons with now := now } }

def withStore (cluster : Cluster) (store : RuleStore) : Cluster :=
  { cluster with commons := { cluster.commons with store := store } }

end Cluster

end AccessPolicy
