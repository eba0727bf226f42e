import TallyConnector.Effects.Host
import TallyConnector.Sync.Engine

/-! # Health checks

`services/health_check.py`, and the calls that the continuous mode makes besides
those of the engine. Logging and timeouts are left out.
-/

namespace TallyConnector

open Effects

/-- What `requests.get` comes back with. -/
inductive Ping where
  | response (status : Nat)
  /-- A `requests.RequestException`, by its text. -/
  | requestException (text : String)
deriving DecidableEq, Repr

/-- What a round of the scheduler's loop finds. -/
inductive Poll where
  | notDue
  /-- The interval is over, so the job is to be run. -/
  | due
  /-- `KeyboardInterrupt` -/
  | interrupted
deriving DecidableEq, Repr

/-- The calls of the continuous mode that are not the engine's. -/
inductive ServiceCall where
  /-- `requests.get(settings.tally_url)` -/
  | getTally (url : String)
  /-- `requests.get` with the `Authorization` header. -/
  | getFrappe (url : String)
  /-- A round of the loop of `run_forever`, up to a job that is due. -/
  | poll
deriving DecidableEq, Repr

def ServiceCall.Resp : ServiceCall → Type
  | .getTally _ => Ping
  | .getFrappe _ => Ping
  | .poll => Poll

/-- Code of the continuous mode. -/
abbrev Service (δ : Type) := Prog (HostResp (@Call.Resp δ) ServiceCall.Resp) Exn

variable {δ : Type}

def getTally (url : String) : Service δ Ping :=
  Prog.side (F := ServiceCall) (P := ServiceCall.Resp) (.getTally url)

def getFrappe (url : String) : Service δ Ping :=
  Prog.side (F := ServiceCall) (P := ServiceCall.Resp) (.getFrappe url)

def poll : Service δ Poll := Prog.side (F := ServiceCall) (P := ServiceCall.Resp) .poll

structure HealthStatus where
  tallyOk : Bool
  frappeOk : Bool
  tallyError : Option String := none
  frappeError : Option String := none
deriving DecidableEq, Repr

def HealthStatus.allOk (status : HealthStatus) : Bool := status.tallyOk && status.frappeOk

/-- What `check_tally` makes of the answer. -/
def Ping.tally : Ping → Bool × Option String
  | .response _ => (true, none)
  | .requestException text => (false, some text)

/-- What `check_frappe` makes of the answer. -/
def Ping.frappe : Ping → Bool × Option String
  | .response status =>
      if status = 401 ∨ status = 403 then
        (false, some ("Frappe rejected credentials (HTTP " ++ toString status ++ ")"))
      else (true, none)
  | .requestException text => (false, some text)

section checks

variable (settings : Settings)

def checkTally : Service δ (Bool × Option String) := do
  let ping ← getTally settings.tallyUrl
  pure ping.tally

/-- The URL of `check_frappe`. -/
def pingUrl : String := settings.frappeBaseUrl ++ "/api/method/ping"

def checkFrappe : Service δ (Bool × Option String) :=
  if settings.frappeBaseUrl = "" then pure (false, some "FRAPPE_BASE_URL is not configured")
  else do
    let ping ← getFrappe (pingUrl settings)
    pure ping.frappe

def runHealthCheck : Service δ HealthStatus := do
  let (tallyOk, tallyError) ← checkTally settings
  let (frappeOk, frappeError) ← checkFrappe settings
  pure ⟨tallyOk, frappeOk, tallyError, frappeError⟩

end checks

end TallyConnector
