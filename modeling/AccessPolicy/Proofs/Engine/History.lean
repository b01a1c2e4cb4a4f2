import AccessPolicy.Proofs.Engine.Footprint
import AccessPolicy.Proofs.RuleStore.Tenancy

/-!
Histories of one engine under any circumstances. Calls are made one after the other; between them the
clocks move, stores and caches fail and come back, and other engines write and announce.
-/
namespace AccessPolicy.Engine

/-- What happens to an engine. What it shares with others may become anything, as long as the rows
of the store are in order. -/
inductive Turn : Engine → Engine → Prop
  | call {engine : Engine} (command : Command) : Turn engine (command.perform engine.newCall)
  | listen {engine : Engine} :
      Turn engine ((Engine.listen : Act Engine Empty Unit) engine.newCall).2
  | shutdown {engine : Engine} :
      Turn engine ((Engine.shutdown : Act Engine Empty Unit) engine.newCall).2
  | takeChanges {engine : Engine} :
      Turn engine ((Engine.takeChanges : Act Engine Empty Unit) engine.newCall).2
  | applyChange {engine : Engine} (change : Change) :
      Turn engine ((Engine.applyChange change : Act Engine Empty Bool) engine.newCall).2
  | share {engine : Engine} (commons : Commons) (ordered : commons.store.rows.Ordered) :
      Turn engine { engine with commons := commons }
  | elapse {engine : Engine} (nanos : Nat) :
      Turn engine (engine.withBackend (engine.own.cache.backend.elapse nanos))
  | outage {engine : Engine} (available : Bool) :
      Turn engine (engine.withBackend (engine.own.cache.backend.setAvailable available))

/-- An engine has come from a first state through others, which are listed from the latest on. -/
inductive Lived (first : Engine) : List Engine → Engine → Prop
  | start : Lived first [] first
  | turn {past : List Engine} {engine after : Engine} (lived : Lived first past engine)
      (turn : Turn engine after) : Lived first (engine :: past) after

/-- The rows of the store are in order. -/
def RowsOrdered (engine : Engine) : Prop :=
  engine.commons.store.rows.Ordered

theorem admits_rowsOrdered (mine : TenantId → Prop) : AdmitsChecks RowsOrdered mine where
  timing := fun _ ordered => ordered
  build := fun _ _ ordered => ordered
  drop := fun _ ordered => ordered
  updateRow := fun _ ordered => RuleStore.ordered_update ordered _
  deleteRow := fun id _ ordered => RuleStore.ordered_delete ordered _ id
  forget := fun _ _ ordered => ordered
  publish := fun _ ordered => ordered
  recordUsage := fun ids now _ ordered => RuleStore.ordered_recordUsage ordered _ ids now
  keep := fun _ _ _ _ _ _ _ ordered => ordered
  audit := fun _ ordered => ordered

theorem follows_rowsOrdered : AdmitsSync RowsOrdered where
  toAdmits := (admits_rowsOrdered _).toAdmits
  dropAll := fun ordered => ordered
  listener := fun _ ordered => ordered
  clear := fun _ ordered => ordered

theorem Turn.rowsOrdered {engine after : Engine} (turn : Turn engine after)
    (ordered : engine.RowsOrdered) : after.RowsOrdered := by
  have admits := admits_rowsOrdered (fun _ => True)
  have follows := follows_rowsOrdered
  have calls : engine.newCall.RowsOrdered := ordered
  cases turn with
  | call command =>
    have every : command.For fun _ => True := by
      cases command <;> simp [Command.For]
    cases asks : command.decides with
    | true => exact admits.toAdmitsDecisions.perform asks every calls
    | false =>
      apply admits.toAdmits.perform admits.toAdmits (fun _ ordered => ordered) ?_ asks every calls
      exact fun _ rule _ ordered => RuleStore.ordered_insert ordered rule
  | listen => exact follows.listen _ calls
  | shutdown => exact follows.shutdown _ calls
  | takeChanges => exact follows.takeChanges _ calls
  | applyChange change => exact follows.applyChange change _ calls
  | share commons ordered => exact ordered
  | elapse nanos => exact ordered
  | outage available => exact ordered

theorem Lived.rowsOrdered {first engine : Engine} {past : List Engine}
    (lived : Lived first past engine) (ordered : first.RowsOrdered) : engine.RowsOrdered := by
  induction lived with
  | start => exact ordered
  | turn _ step ih => exact step.rowsOrdered ih

theorem lived_answered : Lived started [granting, started] answered :=
  .turn (.turn .start (.call _)) (.call _)

end AccessPolicy.Engine
