import TallyConnector.Sync.Engine

/-! # The command line

`main` of `app.py`, from the parsed arguments to the exit status. The continuous
mode is in `Services/Scheduler.lean`; `--health-check` is left out.
-/

namespace TallyConnector

open Effects

/-- The actions that run once and exit. An empty `--resync-entity` is falsy
and no action. -/
inductive Command where
  | fullSync
  | incrementalSync
  | resyncEntity (entityName : String) (hne : entityName ≠ "")
      (resyncRange : Option (String × String))
  | processRetries
deriving DecidableEq, Repr

/-- `CycleResult.total_failed` -/
def totalFailed (results : List EntitySyncResult) : Nat := (results.map (·.failed)).sum

/-- `date.fromisoformat` of both ends of `--resync-range`. -/
def readRange (fromisoformat : String → Except String Date) :
    Option (String × String) → Except Exn (Option Date × Option Date)
  | none => .ok (none, none)
  | some (start, stop) =>
      match fromisoformat start with
      | .error text => .error ⟨.valueError, text⟩
      | .ok start =>
          match fromisoformat stop with
          | .error text => .error ⟨.valueError, text⟩
          | .ok stop => .ok (some start, some stop)

namespace SyncEngine

variable {δ : Type} [DecidableEq δ] (engine : SyncEngine δ)
variable (fromisoformat : String → Except String Date)

/-- The body of the `try` of `main`. -/
def perform : Command → Py δ Nat
  | .fullSync => do
      let results ← engine.runFullSync
      pure (if totalFailed results = 0 then 0 else 1)
  | .incrementalSync => do
      let results ← engine.runIncrementalSync
      pure (if totalFailed results = 0 then 0 else 1)
  | .resyncEntity entityName _ resyncRange => do
      let (dateFrom, dateTo) ← Prog.ofExcept (readRange fromisoformat resyncRange)
      let result ← engine.resyncEntity entityName dateFrom dateTo
      pure (if result.failed = 0 then 0 else 1)
  | .processRetries => do
      let _ ← engine.processRetryQueue 100
      pure 0

/-- `main(argv)`, from the construction of the engine on. -/
def main (command : Command) : Py δ Nat :=
  tryCatch (engine.perform fromisoformat command) fun exc =>
    if exc.isTallyConnectorError || exc.kind = .keyError then pure 2 else throw exc

end SyncEngine

/-- The status of the process after `sys.exit(main())`; an uncaught exception
ends it with 1. -/
def exitStatus : Except Exn Nat → Nat
  | .ok status => status
  | .error _ => 1

end TallyConnector
