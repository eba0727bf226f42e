import Mathlib.Order.Bounds.Basic
import TallyConnector.Frappe.Client

/-! # Requests against a sequence of answers

`get`, `create` and `update` of the Frappe client, each attempt answered by
the next outcome of a sequence: how many attempts are made, and what the caller
gets to see.
-/

namespace TallyConnector

open Effects Prog

variable {δ : Type}

/-! ## Outcomes -/

namespace HttpOutcome

/-- Timeouts, connection errors and server errors may go away. -/
def transient : HttpOutcome → Bool
  | .timeout _ => true
  | .connectionError _ => true
  | .requestException _ => false
  | .response r => 500 ≤ r.status

end HttpOutcome

/-! ## The public methods -/

/-- A call of one of the three methods. -/
inductive FrappeCall where
  | get (doctype : String) (filters : List (String × Json)) (fields : List String)
  | create (doctype : String) (payload : Dict)
  | update (doctype : String) (name : Json) (payload : Dict)

namespace FrappeClient

variable (client : FrappeClient δ)

def perform : FrappeCall → Py δ Json
  | .get doctype filters fields => client.get doctype filters fields
  | .create doctype payload => client.create doctype payload
  | .update doctype name payload => client.update doctype name payload

/-- The request that is sent. -/
def requestOf : FrappeCall → FrappeRequest
  | .get doctype filters fields => .get client.baseUrl doctype filters fields
  | .create doctype payload => .post client.baseUrl doctype payload
  | .update doctype name payload =>
      .put client.baseUrl doctype (if name.truthy then some name else none) payload

end FrappeClient

/-- `result.get("data", default)` -/
def FrappeCall.default : FrappeCall → Json
  | .get _ _ _ => .list []
  | .create _ _ => .obj []
  | .update _ _ _ => .obj []

theorem FrappeClient.perform_eq (client : FrappeClient δ) (call : FrappeCall) :
    client.perform call = (do
      let result ← client.request (client.requestOf call)
      Prog.ofExcept (pyGet result "data" call.default)) := by
  cases call <;> rfl

/-! ## Attempts -/

/-- Answer the `n`-th request with the `n`-th outcome, and keep the requests,
the latest first. The client makes no other calls. -/
def answering (outcomes : Nat → HttpOutcome) :
    (e : Call δ) → List FrappeRequest → Call.Resp e × List FrappeRequest
  | .frappe request, sent => (outcomes sent.length, request :: sent)
  | .clock, sent => ((0 : Int), sent)
  | .tally _, sent => (TallyOutcome.timeout, sent)
  | .sql _, sent => (.error ⟨.operationalError, "no database"⟩, sent)
  | .result op, sent => (op.apply { entityName := "" }, sent)

theorem run_requestOnce (client : FrappeClient δ) (outcomes : Nat → HttpOutcome)
    (request : FrappeRequest) (sent : List FrappeRequest) :
    (client.requestOnce request).run (answering outcomes) sent =
      (client.readOutcome (outcomes sent.length), request :: sent) := by
  unfold FrappeClient.requestOnce
  cases hread : client.readOutcome (outcomes sent.length) with
  | ok value => simp [answering, hread]
  | error exc => simp [answering, hread]

variable {client : FrappeClient δ} {outcomes : Nat → HttpOutcome} {request : FrappeRequest}

/-- Exactly the transient outcomes are retried. -/
theorem kind_readOutcome {outcome : HttpOutcome} {exc : Exn}
    (h : client.readOutcome outcome = .error exc) :
    exc.kind = .transientFrappeError ↔ outcome.transient = true := by
  cases outcome with
  | timeout text => cases h; exact iff_of_true rfl rfl
  | connectionError text => cases h; exact iff_of_true rfl rfl
  | requestException text => cases h; exact iff_of_false (by simp) (by simp [HttpOutcome.transient])
  | response r =>
      simp only [FrappeClient.readOutcome, FrappeClient.readResponse] at h
      simp only [HttpOutcome.transient, decide_eq_true_eq]
      split at h
      · cases h
        exact iff_of_false (by simp) (by omega)
      · split at h
        · cases h
          exact iff_of_true rfl ‹_›
        · split at h
          · exact iff_of_false (by
              obtain ⟨text, -, rfl⟩ | ⟨text, -, rfl⟩ := FrappeClient.raise_text h <;> simp) ‹_›
          · -- a success: its body is empty, JSON, too deep or no JSON
            split at h
            · cases h
            · cases h
            · cases h
              exact iff_of_false (by simp) ‹_›
            · exact iff_of_false (by
              obtain ⟨text, -, rfl⟩ | ⟨text, -, rfl⟩ := FrappeClient.raise_text h <;> simp) ‹_›

theorem not_transient_of_ok {outcome : HttpOutcome} {value : Json}
    (h : client.readOutcome outcome = .ok value) : outcome.transient = false := by
  cases outcome with
  | timeout text => cases h
  | connectionError text => cases h
  | requestException text => cases h
  | response r =>
      simp only [FrappeClient.readOutcome, FrappeClient.readResponse] at h
      split at h
      · cases h
      · split at h
        · cases h
        · simpa [HttpOutcome.transient] using ‹¬ 500 ≤ r.status›

/-- The attempts go on up to the first outcome that is not transient, or to the
last attempt. -/
theorem run_retrying (client : FrappeClient δ) (outcomes : Nat → HttpOutcome)
    (request : FrappeRequest) (extra : Nat) (sent : List FrappeRequest) :
    ∃ n ≤ extra, (∀ i < n, (outcomes (sent.length + i)).transient = true) ∧
      (n = extra ∨ (outcomes (sent.length + n)).transient = false) ∧
      (retrying (fun exc => exc.kind = .transientFrappeError) extra
          (client.requestOnce request)).run (answering outcomes) sent =
        (client.readOutcome (outcomes (sent.length + n)),
          List.replicate (n + 1) request ++ sent) := by
  induction extra generalizing sent with
  | zero => exact ⟨0, Nat.le_refl 0, by simp, .inl rfl, run_requestOnce _ _ _ sent⟩
  | succ extra ih =>
      have hfirst := run_requestOnce client outcomes request sent
      cases hread : client.readOutcome (outcomes sent.length) with
      | ok value =>
          rw [hread] at hfirst
          refine ⟨0, Nat.zero_le _, by simp, .inr (not_transient_of_ok hread), ?_⟩
          simp only [retrying]
          rw [run_tryCatch_ok _ hfirst, Nat.add_zero, hread]
          rfl
      | error exc =>
          rw [hread] at hfirst
          have hkind := kind_readOutcome hread
          simp only [retrying]
          rw [run_tryCatch_error _ hfirst]
          by_cases htransient : (outcomes sent.length).transient = true
          · -- one attempt more
            obtain ⟨n, hn, hbefore, hlast, hrun⟩ := ih (request :: sent)
            simp only [List.length_cons] at hbefore hlast hrun
            refine ⟨n + 1, Nat.succ_le_succ hn, fun i hi => ?_, ?_, ?_⟩
            · cases i with
              | zero => exact htransient
              | succ i =>
                  rw [← Nat.add_assoc, Nat.add_right_comm]
                  exact hbefore i (Nat.lt_of_succ_lt_succ hi)
            · rw [← Nat.add_assoc, Nat.add_right_comm]
              exact hlast.imp (congrArg Nat.succ) id
            · have hsent : List.replicate (n + 1) request ++ request :: sent =
                  List.replicate (n + 1 + 1) request ++ sent := by
                rw [List.replicate_succ' (n := n + 1), List.append_assoc]
                rfl
              rw [if_pos (decide_eq_true (hkind.mpr htransient)), hrun, ← Nat.add_assoc,
                Nat.add_right_comm, hsent]
          · refine ⟨0, Nat.zero_le _, by simp, .inr (by simpa using htransient), ?_⟩
            rw [if_neg (by simpa using fun h => htransient (hkind.mp h)), Nat.add_zero, hread]
            rfl

/-! ## What the caller sees -/

/-- The number of attempts: up to the first outcome that is not transient, and
at most the limit. -/
def IsAttempts (outcomes : Nat → HttpOutcome) (maxAttempts n : Nat) : Prop :=
  IsLeast ({maxAttempts} ∪ {k | ∃ i, k = i + 1 ∧ (outcomes i).transient = false}) n

/-- The result of a call whose last outcome this is. -/
def FrappeClient.settle (client : FrappeClient δ) (default : Json) (outcome : HttpOutcome) :
    Except Exn Json :=
  match client.readOutcome outcome with
  | .ok value => pyGet value "data" default
  | .error exc =>
      if exc.kind = .transientFrappeError then
        .error ⟨.frappeAPIError, "Frappe request failed after retries: " ++ exc.message⟩
      else .error exc

/-- A call makes its attempts, and the last outcome settles it. -/
theorem run_perform (call : FrappeCall) (hmax : 1 ≤ client.settings.retryMaxAttempts) :
    ∃ n, IsAttempts outcomes client.settings.retryMaxAttempts.toNat n ∧
      (client.perform call).run (answering outcomes) [] =
        (client.settle call.default (outcomes (n - 1)),
          List.replicate n (client.requestOf call)) := by
  obtain ⟨n, hn, hbefore, hlast, hrun⟩ := run_retrying client outcomes (client.requestOf call)
    (client.settings.retryMaxAttempts - 1).toNat []
  simp only [List.length_nil, Nat.zero_add, List.append_nil] at hbefore hlast hrun
  refine ⟨n + 1, ⟨?_, ?_⟩, ?_⟩
  · -- the last attempt was conclusive, or there are no more
    rcases hlast with heq | hconclusive
    · exact .inl (by simp only [Set.mem_singleton_iff]; omega)
    · exact .inr ⟨n, rfl, hconclusive⟩
  · -- and none of those before it
    rintro k (rfl | ⟨i, rfl, hi⟩)
    · omega
    · by_contra hlt
      rw [hbefore i (by omega)] at hi
      cases hi
  · -- what is returned or raised is what the last attempt gave
    rw [FrappeClient.perform_eq, Nat.add_sub_cancel, FrappeClient.settle]
    unfold FrappeClient.request buildRetryDecorator
    cases hread : client.readOutcome (outcomes n) with
    | ok value =>
        rw [hread] at hrun
        rw [run_bind_ok _ (run_tryCatch_ok _ hrun)]
        exact run_ofExcept _ _ _
    | error exc =>
        rw [hread] at hrun
        have hend : ∀ {exc' : Exn} {p : Py δ Json} {sent : List FrappeRequest},
            p.run (answering outcomes) [] = (.error exc', sent) →
              (do
                let result ← p
                Prog.ofExcept (pyGet result "data" call.default)).run (answering outcomes) [] =
                  (.error exc', sent) := fun hp => run_bind_error _ hp
        dsimp only
        split
        · next hkind =>
          refine hend ?_
          rw [run_tryCatch_error _ hrun, if_pos hkind]
          rfl
        · next hkind =>
          refine hend ?_
          rw [run_tryCatch_error _ hrun, if_neg hkind]
          rfl

end TallyConnector
