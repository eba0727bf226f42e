import Mathlib.Algebra.Order.Floor.Ring
import Mathlib.Data.Rat.Floor
import TallyConnector.Utils.Exceptions

/-! # The backoff of a failed retry

The arithmetic in the last `except` clause of `process_retry_queue`. A float
is the rational it denotes: a product with a power of two is exact, and one
that leaves the range of a float is above 3600 anyway.
-/

namespace TallyConnector

/-- What an int must be below to become a float; a power that is better not
evaluated. -/
@[irreducible] def floatLimit : Nat := 2 ^ 1024

/-- The conversion of `2 ** attempt_count` in a product with a float. -/
def intToFloat (n : Nat) : Except Exn ℚ :=
  if n < floatLimit then .ok n else .error ⟨.overflowError, "int too large to convert to float"⟩

/-- `min(base * (2 ** attempt_count), 3600)` -/
def backoffSeconds (base : ℚ) (attemptCount : Nat) : Except Exn ℚ :=
  match intToFloat (2 ^ attemptCount) with
  | .ok power => .ok (min (base * power) 3600)
  | .error exc => .error exc

/-- Rounding to the nearest integer, ties to the even one. -/
def roundHalfEven (q : ℚ) : Int :=
  let floor := ⌊q⌋
  let rest := q - floor
  if rest < 1 / 2 then floor
  else if 1 / 2 < rest then floor + 1
  else if floor % 2 = 0 then floor else floor + 1

/-- `timedelta(seconds=s)`, in microseconds. -/
def timedelta (seconds : ℚ) : Except Exn Int :=
  let micros := roundHalfEven (seconds * 1000000)
  let days := micros / 86400000000
  if -999999999 ≤ days ∧ days ≤ 999999999 then .ok micros
  else .error ⟨.overflowError, "days=" ++ toString days ++ "; must have magnitude <= 999999999"⟩

/-- The delay in seconds, without the limit of the conversion. -/
def backoff (base : ℚ) (attemptCount : Nat) : ℚ := min (base * 2 ^ attemptCount) 3600

theorem two_pow_lt_floatLimit {n : Nat} : 2 ^ n < floatLimit ↔ n < 1024 := by
  unfold floatLimit
  exact Nat.pow_lt_pow_iff_right (Nat.lt_succ_self 1)

theorem intToFloat_of_lt {n : Nat} (h : n < floatLimit) : intToFloat n = .ok n := by
  unfold intToFloat
  rw [if_pos h]

theorem intToFloat_of_le {n : Nat} (h : floatLimit ≤ n) :
    intToFloat n = .error ⟨.overflowError, "int too large to convert to float"⟩ := by
  unfold intToFloat
  rw [if_neg (Nat.not_lt.mpr h)]

theorem backoffSeconds_of_lt {base : ℚ} {n : Nat} (h : n < 1024) :
    backoffSeconds base n = .ok (backoff base n) := by
  unfold backoffSeconds backoff
  rw [intToFloat_of_lt (two_pow_lt_floatLimit.mpr h), Nat.cast_pow, Nat.cast_ofNat]

theorem backoffSeconds_of_le {base : ℚ} {n : Nat} (h : 1024 ≤ n) :
    backoffSeconds base n =
      .error ⟨.overflowError, "int too large to convert to float"⟩ := by
  unfold backoffSeconds
  rw [intToFloat_of_le (Nat.not_lt.mp (two_pow_lt_floatLimit.not.mpr (Nat.not_lt.mpr h)))]

theorem roundHalfEven_bounds (q : ℚ) : ⌊q⌋ ≤ roundHalfEven q ∧ roundHalfEven q ≤ ⌊q⌋ + 1 := by
  simp only [roundHalfEven]
  split
  · omega
  · split
    · omega
    · split <;> omega

/-- A delay between zero and an hour is in the range of a `timedelta`. -/
theorem timedelta_ok {seconds : ℚ} (hpos : 0 ≤ seconds) (hle : seconds ≤ 3600) :
    timedelta seconds = .ok (roundHalfEven (seconds * 1000000)) := by
  have hlow : (0 : Int) ≤ ⌊seconds * 1000000⌋ := Int.floor_nonneg.mpr (by positivity)
  have hhigh : ⌊seconds * 1000000⌋ ≤ 3600000000 := by
    have hreal : seconds * 1000000 ≤ (3600000000 : Int) := by
      push_cast
      linarith
    exact_mod_cast (Int.floor_le (seconds * 1000000)).trans hreal
  have hround := roundHalfEven_bounds (seconds * 1000000)
  simp only [timedelta]
  rw [if_pos]
  constructor <;> omega

end TallyConnector
