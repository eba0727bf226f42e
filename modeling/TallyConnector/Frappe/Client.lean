import TallyConnector.Config.Settings
import TallyConnector.Services.RetryEngine

/-! # FrappeClient

`frappe/client.py`. `readOutcome` is what `_request_once` makes of the outcome
of the HTTP request, all of it after the `requests.request` line.
-/

namespace TallyConnector

open Effects

structure FrappeClient (δ : Type) where
  settings : Settings
  ext : External δ

/-- `value.get(key, default)`, for a value that should be a dictionary. -/
def pyGet (value : Json) (key : String) (default : Json) : Except Exn Json :=
  match value with
  | .obj kvs => .ok ((kvs.lookup key).getD default)
  | .null => .error ⟨.attributeError, "'NoneType' object has no attribute 'get'"⟩
  | .bool _ => .error ⟨.attributeError, "'bool' object has no attribute 'get'"⟩
  | .int _ => .error ⟨.attributeError, "'int' object has no attribute 'get'"⟩
  | .float _ => .error ⟨.attributeError, "'float' object has no attribute 'get'"⟩
  | .str _ => .error ⟨.attributeError, "'str' object has no attribute 'get'"⟩
  | .list _ => .error ⟨.attributeError, "'list' object has no attribute 'get'"⟩

/-- `s[:n]` -/
def takeChars (n : Nat) (s : String) : String := String.ofList (s.toList.take n)

namespace FrappeClient

variable {δ : Type} (client : FrappeClient δ)

def baseUrl : String := client.settings.frappeBaseUrl

/-- `_url`, for a name that is a string. -/
def url (doctype : String) (name : Option String := none) : String :=
  let base := client.settings.frappeBaseUrl ++ "/api/resource/" ++ doctype
  match name with
  | none | some "" => base
  | some name => base ++ "/" ++ name

/-- `response.text` -/
def responseText (r : HttpResponse) : Except Exn String :=
  r.text.mapError fun text => ⟨.unicodeError, text⟩

/-- A branch that reads the text to raise. -/
theorem raise_text {α : Type} {r : HttpResponse} {f : String → Exn} {exc : Exn}
    (h : (do
      let text ← responseText r
      .error (f text)) = (.error exc : Except Exn α)) :
    (∃ text, r.text = .ok text ∧ exc = f text) ∨
      ∃ text, r.text = .error text ∧ exc = ⟨.unicodeError, text⟩ := by
  unfold responseText at h
  cases htext : r.text with
  | ok text =>
      rw [htext] at h
      cases h
      exact .inl ⟨text, rfl, rfl⟩
  | error text =>
      rw [htext] at h
      cases h
      exact .inr ⟨text, rfl, rfl⟩

theorem raise_text_ne_ok {α : Type} {r : HttpResponse} {f : String → Exn} {value : α} :
    (do
      let text ← responseText r
      .error (f text)) ≠ (.ok value : Except Exn α) := by
  unfold responseText
  cases r.text <;> nofun

def readResponse (r : HttpResponse) : Except Exn Json :=
  if r.status = 401 ∨ r.status = 403 then
    .error ⟨.frappeAuthError,
      "Frappe rejected credentials (HTTP " ++ toString r.status ++ ")"⟩
  else if 500 ≤ r.status then
    .error ⟨.transientFrappeError, "Frappe returned HTTP " ++ toString r.status⟩
  else if 400 ≤ r.status then do
    let text ← responseText r
    .error ⟨.frappeAPIError,
      "Frappe returned HTTP " ++ toString r.status ++ ": " ++ takeChars 500 text⟩
  else
    match r.body with
    | .empty => .ok (.obj [])
    | .json value => .ok value
    | .tooDeep text => .error ⟨.recursionError, text⟩
    | .notJson => do
        let text ← responseText r
        let snippet := String.ofList ((takeChars 200 text).toList.map fun c =>
          if c = '\n' then ' ' else c)
        .error ⟨.frappeAPIError,
          "Frappe response wasn't valid JSON (Content-Type: " ++ r.contentType ++ "): " ++
          client.ext.repr snippet ++ ". Check FRAPPE_BASE_URL (" ++
          client.ext.repr client.settings.frappeBaseUrl ++ ") points at your " ++
          "actual Frappe site's API, not a login page or the wrong host."⟩

def readOutcome : HttpOutcome → Except Exn Json
  | .timeout text => .error ⟨.transientFrappeError, text⟩
  | .connectionError text => .error ⟨.transientFrappeError, text⟩
  | .requestException text => .error ⟨.frappeAPIError,
      "Invalid FRAPPE_BASE_URL (" ++ client.ext.repr client.settings.frappeBaseUrl ++ "): " ++
      text ++ ". Check FRAPPE_BASE_URL in .env — it must include a scheme, " ++
      "e.g. https://your-instance.frappe.cloud"⟩
  | .response r => client.readResponse r

def requestOnce (request : FrappeRequest) : Py δ Json := do
  let outcome ← Prog.perform (R := Call.Resp) (.frappe request)
  Prog.ofExcept (client.readOutcome outcome)

/-- `_request`: the retry decorator, then the transient error is typed. -/
def request (request : FrappeRequest) : Py δ Json :=
  tryCatch
    (buildRetryDecorator (fun exc => exc.kind = .transientFrappeError)
      client.settings.retryMaxAttempts (client.requestOnce request))
    fun exc =>
      if exc.kind = .transientFrappeError then
        raise .frappeAPIError ("Frappe request failed after retries: " ++ exc.message)
      else throw exc

def get (doctype : String) (filters : List (String × Json)) (fields : List String) :
    Py δ Json := do
  let result ← client.request (.get client.baseUrl doctype filters fields)
  Prog.ofExcept (pyGet result "data" (.list []))

def create (doctype : String) (payload : Dict) : Py δ Json := do
  let result ← client.request (.post client.baseUrl doctype payload)
  Prog.ofExcept (pyGet result "data" (.obj []))

/-- `_url(doctype, name)` leaves a falsy name out. -/
def update (doctype : String) (name : Json) (payload : Dict) : Py δ Json := do
  let result ← client.request
    (.put client.baseUrl doctype (if name.truthy then some name else none) payload)
  Prog.ofExcept (pyGet result "data" (.obj []))

end FrappeClient

end TallyConnector
