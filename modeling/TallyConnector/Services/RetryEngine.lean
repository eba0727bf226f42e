import TallyConnector.Calls
import TallyConnector.Effects.Always

/-! # The retry policy

`services/retry_engine.py`: tenacity's `retry` with `retry_if_exception_type`,
`stop_after_attempt` and `reraise=True`. The waits between attempts are not
modelled.
-/

namespace TallyConnector

open Effects Prog

variable {δ α : Type}

/-- Run `p`, and again up to `extra` times while it raises a retryable
exception; the last exception is re-raised. -/
def retrying (retryable : Exn → Bool) : Nat → Py δ α → Py δ α
  | 0, p => p
  | extra + 1, p =>
      tryCatch p fun exc => if retryable exc then retrying retryable extra p else throw exc

/-- `stop_after_attempt(n)` always lets the first attempt through. -/
def buildRetryDecorator (retryable : Exn → Bool) (maxAttempts : Int) (p : Py δ α) : Py δ α :=
  retrying retryable (maxAttempts - 1).toNat p

/-- Attempts that keep `I` when they fail. -/
theorem always_retrying {W : Type} {step : Answering (@Call.Resp δ) W} {I : W → Prop}
    {Q : Except Exn α → W → Prop} {retryable : Exn → Bool} {extra : Nat} {p : Py δ α} {w : W}
    (h : ∀ w, I w → p.Always step (fun r w' => Q r w' ∧ ∀ exc, r = .error exc → I w') w)
    (hw : I w) : (retrying retryable extra p).Always step Q w := by
  induction extra generalizing w with
  | zero => exact (h w hw).mono fun _ _ hr => hr.1
  | succ extra ih =>
      refine .tryCatch ((h w hw).mono fun r w' hr => ?_)
      cases r with
      | ok a => exact hr.1
      | error exc =>
          dsimp only
          split
          · exact ih (hr.2 exc rfl)
          · exact hr.1

end TallyConnector
