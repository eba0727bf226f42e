import Mathlib.Logic.Function.Iterate
import TallyConnector.Utils.LoggingSetup

/-! # Redacting more than once

The same filter is attached to every handler and writes to the record, which
the handlers share: the second handler redacts what the first one has redacted.
-/

namespace TallyConnector

theorem redact_redact (text : String) : redact (redact text) = redact text := by
  simp only [redact, String.toList_ofList, secretKeyPattern.mask_mask]

section filter

variable {ω : Type} (str : ω → String)

theorem PyObject.redacted_redacted (arg : PyObject ω) : arg.redacted.redacted = arg.redacted := by
  cases arg with
  | str s => exact congrArg PyObject.str (redact_redact s)
  | other o => rfl

theorem LogArgs.redacted_redacted (args : LogArgs ω) : args.redacted.redacted = args.redacted := by
  by_cases hempty : args.iter.isEmpty = true
  · have hargs : args.redacted = args := if_pos hempty
    rw [hargs, hargs]
  · have hargs : args.redacted = .tuple (args.iter.map PyObject.redacted) := if_neg hempty
    have hrest : (args.iter.map PyObject.redacted).isEmpty ≠ true := by simpa using hempty
    have htwice : (args.iter.map PyObject.redacted).map PyObject.redacted =
        args.iter.map PyObject.redacted := by
      rw [List.map_map]
      exact List.map_congr_left fun arg _ => arg.redacted_redacted
    rw [hargs]
    exact (if_neg hrest).trans (congrArg LogArgs.tuple htwice)

/-- The message and the arguments of a redacted record stay as they are. -/
theorem redactionFilter_twice (record : LogRecord ω) :
    redactionFilter str (redactionFilter str record) = redactionFilter str record := by
  show { record with
    msg := .str (redact (redact (record.msg.text str)))
    args := record.args.redacted.redacted } = _
  rw [redact_redact, record.args.redacted_redacted]
  rfl

theorem redactionFilter_iterate (record : LogRecord ω) (n : Nat) :
    (redactionFilter str)^[n + 1] record = redactionFilter str record := by
  induction n with
  | zero => rfl
  | succ n ih => rw [Function.iterate_succ_apply', ih, redactionFilter_twice]

/-- Once a record is redacted, the handlers emit it as it is. -/
theorem callHandlers_redacted {record : LogRecord ω}
    (h : redactionFilter str record = record) (handlers : List Handler) :
    (∀ emitted ∈ (callHandlers str handlers record).1, emitted = record) ∧
      (callHandlers str handlers record).2 = record := by
  induction handlers with
  | nil =>
    refine ⟨?_, rfl⟩
    intro emitted hmem
    cases hmem
  | cons handler handlers ih =>
    unfold callHandlers
    split
    · rw [h]
      refine ⟨?_, ih.2⟩
      intro emitted hmem
      rcases List.mem_cons.mp hmem with heq | hmem
      · exact heq
      · exact ih.1 emitted hmem
    · exact ih

theorem callHandlers_emits (handlers : List Handler) (record : LogRecord ω) :
    (∀ emitted ∈ (callHandlers str handlers record).1, emitted = redactionFilter str record) ∧
      ((callHandlers str handlers record).1 ≠ [] →
        (callHandlers str handlers record).2 = redactionFilter str record) := by
  induction handlers with
  | nil =>
    constructor
    · intro emitted hmem
      cases hmem
    · intro hne
      exact absurd rfl hne
  | cons handler handlers ih =>
    unfold callHandlers
    split
    · have hrest := callHandlers_redacted str (redactionFilter_twice str record) handlers
      constructor
      · intro emitted hmem
        rcases List.mem_cons.mp hmem with heq | hmem
        · exact heq
        · exact hrest.1 emitted hmem
      · intro _
        exact hrest.2
    · exact ih

/-- Redaction is idempotent, and however many handlers a record passes, each
one emits it with the message and the arguments of the first redaction. -/
theorem redaction_idempotent :
    (∀ text, redact (redact text) = redact text) ∧
      ∀ record : LogRecord ω,
        (∀ n, (redactionFilter str)^[n + 1] record = redactionFilter str record) ∧
          ∀ handlers,
            (∀ emitted ∈ (callHandlers str handlers record).1,
              emitted = redactionFilter str record) ∧
              ((callHandlers str handlers record).1 ≠ [] →
                (callHandlers str handlers record).2 = redactionFilter str record) := by
  refine ⟨redact_redact, fun record => ⟨redactionFilter_iterate str record, fun handlers => ?_⟩⟩
  exact callHandlers_emits str handlers record

end filter

end TallyConnector
