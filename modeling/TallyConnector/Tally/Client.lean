import TallyConnector.Config.Settings
import TallyConnector.Services.RetryEngine

/-! # TallyClient

`tally/client.py`.
-/

namespace TallyConnector

open Effects

structure TallyClient (δ : Type) where
  settings : Settings
  ext : External δ

/-- The bytes of an ASCII literal. -/
def ascii (s : String) : Bytes := s.toList.map fun c => c.toNat.toUInt8

/-- `body.find(pattern)` -/
def bytesFind (pattern : Bytes) : Bytes → Option Nat
  | [] => if pattern.isEmpty then some 0 else none
  | b :: bs =>
      if pattern.isPrefixOf (b :: bs) then some 0 else (bytesFind pattern bs).map (· + 1)

namespace TallyClient

variable {δ : Type} (client : TallyClient δ)

/-- `_extract_line_error(body)` -/
def extractLineError (body : Bytes) : String :=
  match bytesFind (ascii "<LINEERROR>") body with
  | none => "unknown error"
  | some start =>
      match bytesFind (ascii "</LINEERROR>") (body.drop start) with
      | none => "unknown error"
      | some stop => client.ext.decode ((body.drop start).take stop |>.drop 11)

/-- What `_send_once` makes of the outcome of the request. -/
def readOutcome : TallyOutcome → Except Exn Bytes
  | .timeout => .error ⟨.tallyConnectionError,
      "Timed out connecting to Tally at " ++ client.settings.tallyUrl⟩
  | .connectionError text => .error ⟨.tallyConnectionError,
      "Could not connect to Tally at " ++ client.settings.tallyUrl ++ ": " ++ text⟩
  | .requestException text => .error ⟨.tallyConnectionError,
      "Invalid TALLY_URL (" ++ client.ext.repr client.settings.tallyUrl ++ "): " ++ text ++
      ". Check TALLY_URL in .env — it must include a scheme, e.g. http://localhost:9000"⟩
  | .response status content =>
      if status ≠ 200 then
        .error ⟨.tallyResponseError, "Tally returned unexpected status " ++ toString status⟩
      else if (bytesFind (ascii "<LINEERROR>") content).isSome then
        .error ⟨.tallyResponseError,
          "Tally reported an error: " ++ client.extractLineError content⟩
      else .ok content

def sendOnce (request : CollectionRequest) : Py δ Bytes := do
  let outcome ← Prog.perform (R := Call.Resp) (.tally request)
  Prog.ofExcept (client.readOutcome outcome)

def sendRequest (request : CollectionRequest) : Py δ Bytes :=
  buildRetryDecorator (fun exc => exc.kind = .tallyConnectionError)
    client.settings.retryMaxAttempts (client.sendOnce request)

end TallyClient

end TallyConnector
