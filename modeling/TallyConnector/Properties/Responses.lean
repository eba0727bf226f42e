import TallyConnector.Frappe.Requests
import TallyConnector.World.Groups

/-! # What the Frappe client returns

The result of a call is decided by the first conclusive outcome within the
limit. The errors are typed, except for a success whose body is valid JSON but
no object (it is taken apart outside of the guarded region) or JSON that nests
too deep to be read, and for a failure whose text is to be quoted but cannot be
decoded.
-/

namespace TallyConnector

open Effects Prog

variable {δ : Type} {client : FrappeClient δ} {outcomes : Nat → HttpOutcome}

namespace HttpOutcome

/-- What an outcome stands for, if it is the last one: the data, or the class
of the error. An object without `data` stands for the default. -/
def meaning (default : Json) : HttpOutcome → Except ExnKind Json
  | .response r =>
      if r.status = 401 ∨ r.status = 403 then .error .frappeAuthError
      else if 400 ≤ r.status then .error .frappeAPIError
      else
        match r.body with
        | .empty => .ok default
        | .json (.obj kvs) => .ok ((kvs.lookup "data").getD default)
        | .json _ => .error .frappeAPIError
        | .notJson => .error .frappeAPIError
        | .tooDeep _ => .error .frappeAPIError
  | _ => .error .frappeAPIError

/-- A success whose body is valid JSON, but no object or nested too deep; or a
failure whose message quotes the text, when that cannot be decoded. -/
def unusable : HttpOutcome → Bool
  | .response r =>
      if r.status = 401 ∨ r.status = 403 ∨ 500 ≤ r.status then false
      else if 400 ≤ r.status then !r.text.isOk
      else
        match r.body with
        | .empty => false
        | .json (.obj _) => false
        | .json _ => true
        | .notJson => !r.text.isOk
        | .tooDeep _ => true
  | _ => false

end HttpOutcome

/-- The result of a call, an exception by its class. -/
def seenBy : Except Exn Json → Except ExnKind Json
  | .ok value => .ok value
  | .error exc => .error exc.kind

theorem seenBy_settle {outcome : HttpOutcome} {default : Json} :
    seenBy (client.settle default outcome) = outcome.meaning default ↔
      outcome.unusable = false := by
  cases outcome with
  | timeout text => exact iff_of_true rfl rfl
  | connectionError text => exact iff_of_true rfl rfl
  | requestException text => exact iff_of_true rfl rfl
  | response r =>
      obtain ⟨status, contentType, text, body⟩ := r
      by_cases hauth : status = 401 ∨ status = 403
      · have hleft : status = 401 ∨ status = 403 ∨ 500 ≤ status := by omega
        simp [FrappeClient.settle, FrappeClient.readOutcome, FrappeClient.readResponse,
          HttpOutcome.meaning, HttpOutcome.unusable, seenBy, hauth, hleft]
      by_cases hserver : 500 ≤ status
      · have hclient : 400 ≤ status := by omega
        simp [FrappeClient.settle, FrappeClient.readOutcome, FrappeClient.readResponse,
          HttpOutcome.meaning, HttpOutcome.unusable, seenBy, hauth, hserver, hclient]
      have hleft : ¬ (status = 401 ∨ status = 403 ∨ 500 ≤ status) := by omega
      by_cases hclient : 400 ≤ status
      · -- the message quotes the text
        cases text <;>
          simp [FrappeClient.settle, FrappeClient.readOutcome, FrappeClient.readResponse,
            FrappeClient.responseText, Except.mapError, Bind.bind, Except.bind, HttpOutcome.meaning,
            HttpOutcome.unusable, seenBy, Except.isOk, Except.toBool, hauth, hserver, hclient]
      -- a success, by its body
      have hread : ∀ value, body = .json value →
          client.settle default (.response ⟨status, contentType, text, body⟩) =
            pyGet value "data" default := by
        rintro value rfl
        simp [FrappeClient.settle, FrappeClient.readOutcome, FrappeClient.readResponse, hauth,
          hserver, hclient]
      cases body with
      | empty =>
          simp [FrappeClient.settle, FrappeClient.readOutcome, FrappeClient.readResponse,
            HttpOutcome.meaning, HttpOutcome.unusable, seenBy, hauth, hserver, hclient, pyGet]
      | notJson =>
          cases text <;>
            simp [FrappeClient.settle, FrappeClient.readOutcome, FrappeClient.readResponse,
              FrappeClient.responseText, Except.mapError, Bind.bind, Except.bind,
              HttpOutcome.meaning, HttpOutcome.unusable, seenBy, Except.isOk, Except.toBool, hauth,
              hserver, hclient]
      | tooDeep message =>
          simp [FrappeClient.settle, FrappeClient.readOutcome, FrappeClient.readResponse,
            HttpOutcome.meaning, HttpOutcome.unusable, seenBy, hauth, hserver, hclient]
      | json value =>
          rw [hread value rfl]
          cases value <;>
            simp [HttpOutcome.meaning, HttpOutcome.unusable, seenBy, pyGet, hauth, hclient,
              hleft]

/-- A call makes exactly the attempts up to the first conclusive outcome or the
limit, and returns what the last outcome means, if and only if that outcome is
not a success whose body is valid JSON but no object or nested too deep, and no
failure whose text is quoted and cannot be decoded. -/
theorem request_decided (client : FrappeClient δ) (outcomes : Nat → HttpOutcome)
    (call : FrappeCall) (hmax : 1 ≤ client.settings.retryMaxAttempts) :
    (∃ n, IsAttempts outcomes client.settings.retryMaxAttempts.toNat n ∧
      ((client.perform call).run (answering outcomes) []).2 =
        List.replicate n (client.requestOf call) ∧
      seenBy ((client.perform call).run (answering outcomes) []).1 =
        (outcomes (n - 1)).meaning call.default) ↔
    ∀ n, IsAttempts outcomes client.settings.retryMaxAttempts.toNat n →
      (outcomes (n - 1)).unusable = false := by
  obtain ⟨n, hn, hrun⟩ := run_perform call hmax
  rw [hrun]
  constructor
  · rintro ⟨k, hk, -, hseen⟩ k' hk'
    obtain rfl := hk'.unique hn
    obtain rfl := hk'.unique hk
    exact seenBy_settle.mp hseen
  · intro h
    exact ⟨n, hn, rfl, seenBy_settle.mpr (h n hn)⟩

/-! ## Two answers -/

/-- A gateway that is busy once. -/
def busyOnce (later : HttpOutcome) : Nat → HttpOutcome
  | 0 => .response { status := 503, body := .empty }
  | _ => later

theorem isAttempts_busyOnce {later : HttpOutcome} (h : later.transient = false) :
    IsAttempts (busyOnce later) 5 2 := by
  refine ⟨.inr ⟨1, rfl, h⟩, ?_⟩
  rintro k (rfl | ⟨i, rfl, hi⟩)
  · decide
  · cases i with
    | zero => cases hi
    | succ i => omega

/-- The second attempt of a lookup decides. -/
theorem request_decided_busy :
    let client := (groupEngine 5 []).frappe
    let call := FrappeCall.get "Tally Group" [("tally_guid", .str "g-1")] ["name"]
    let run := (client.perform call).run (answering (busyOnce (okOutcome (foundBody [])))) []
    run.2.length = 2 ∧ seenBy run.1 = .ok (.list []) := by
  intro client call run
  have hattempts : IsAttempts (busyOnce (okOutcome (foundBody []))) 5 2 :=
    isAttempts_busyOnce rfl
  obtain ⟨n, hn, hsent, hseen⟩ := (request_decided client _ call (by decide)).mpr fun n hn => by
    obtain rfl := hn.unique hattempts
    rfl
  obtain rfl := hn.unique hattempts
  exact ⟨by rw [hsent]; rfl, hseen⟩

/-- An empty list instead of an object leaves the client as an
`AttributeError`. -/
theorem request_untyped :
    let client := (groupEngine 5 []).frappe
    let call := FrappeCall.get "Tally Group" [("tally_guid", .str "g-1")] ["name"]
    let outcomes := busyOnce (okOutcome (.list []))
    ¬ ∃ n, IsAttempts outcomes 5 n ∧
      ((client.perform call).run (answering outcomes) []).2 =
        List.replicate n (client.requestOf call) ∧
      seenBy ((client.perform call).run (answering outcomes) []).1 =
        (outcomes (n - 1)).meaning call.default := by
  intro client call outcomes
  rintro ⟨n, hn, -, hseen⟩
  have hattempts : IsAttempts outcomes 5 2 := isAttempts_busyOnce rfl
  obtain rfl := hn.unique hattempts
  have huntyped : seenBy ((client.perform call).run (answering outcomes) []).1 =
      .error .attributeError := rfl
  rw [huntyped] at hseen
  cases hseen

end TallyConnector
