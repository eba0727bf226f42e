import TallyConnector.Services.HealthCheck

/-! # The continuous mode

`run_forever` of `services/scheduler.py` and the `cycle` of `main` in `app.py`.
When a job is due is left to the environment; the loop is given a number of
rounds, which may be any.
-/

namespace TallyConnector

open Effects

variable {δ : Type}

/-- The loop of `run_forever`, for a number of rounds. -/
def pollRounds (job : Service δ Unit) : (rounds : Nat) → Service δ Unit
  | 0 => pure ()
  | rounds + 1 => do
      match ← poll with
      | .interrupted => pure ()
      | .notDue => pollRounds job rounds
      | .due => do
          job
          pollRounds job rounds

/-- `run_forever(interval_minutes, job)` -/
def runForever (job : Service δ Unit) (rounds : Nat) : Service δ Unit := do
  job
  pollRounds job rounds

namespace SyncEngine

variable [DecidableEq δ] (engine : SyncEngine δ)

/-- `cycle()` -/
def cycle : Service δ Unit := do
  let health ← runHealthCheck engine.settings
  if health.allOk then do
    let _ ← engine.runIncrementalSync.hosted
    let _ ← (engine.processRetryQueue 100).hosted
    pure ()
  else pure ()

/-- The end of `main`: the continuous mode. -/
def service (rounds : Nat) : Service δ Unit := runForever engine.cycle rounds

end SyncEngine

end TallyConnector
