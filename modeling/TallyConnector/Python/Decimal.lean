import Mathlib.Data.Nat.Digits.Defs
import Mathlib.Data.Rat.Defs
import Mathlib.Tactic.FieldSimp
import Mathlib.Tactic.Ring

/-! # Decimal numbers

The decimal digits of `re` and `decimal`, and the exact numbers `Decimal`
makes of plain numerals.
-/

namespace TallyConnector

/-- The zeros of the decimal digits (category Nd, as of Unicode 14), each
followed by its digits one to nine. -/
def decimalZeros : List Nat := [
  0x30, 0x660, 0x6F0, 0x7C0, 0x966, 0x9E6, 0xA66, 0xAE6, 0xB66, 0xBE6, 0xC66, 0xCE6, 0xD66,
  0xDE6, 0xE50, 0xED0, 0xF20, 0x1040, 0x1090, 0x17E0, 0x1810, 0x1946, 0x19D0, 0x1A80, 0x1A90,
  0x1B50, 0x1BB0, 0x1C40, 0x1C50, 0xA620, 0xA8D0, 0xA900, 0xA9D0, 0xA9F0, 0xAA50, 0xABF0,
  0xFF10, 0x104A0, 0x10D30, 0x11066, 0x110F0, 0x11136, 0x111D0, 0x112F0, 0x11450, 0x114D0,
  0x11650, 0x116C0, 0x11730, 0x118E0, 0x11950, 0x11C50, 0x11D50, 0x11DA0, 0x16A60, 0x16AC0,
  0x16B50, 0x1D7CE, 0x1D7D8, 0x1D7E2, 0x1D7EC, 0x1D7F6, 0x1E140, 0x1E2F0, 0x1E950, 0x1FBF0]

/-- `unicodedata.decimal(c)` -/
def digitValue (c : Char) : Option Nat :=
  (decimalZeros.find? fun start => start ≤ c.toNat && c.toNat ≤ start + 9).map (c.toNat - ·)

/-- `\d` -/
def isDecimalDigit (c : Char) : Bool := (digitValue c).isSome

/-- The number the digits stand for. -/
def ofDigits (digits : List Char) : Nat :=
  Nat.ofDigits 10 (digits.reverse.map fun c => (digitValue c).getD 0)

@[simp] theorem ofDigits_nil : ofDigits [] = 0 := rfl

theorem ofDigits_append (whole fraction : List Char) :
    ofDigits (whole ++ fraction) = ofDigits whole * 10 ^ fraction.length + ofDigits fraction := by
  unfold ofDigits
  rw [List.reverse_append, List.map_append, Nat.ofDigits_append, List.length_map,
    List.length_reverse]
  ring

/-- A finite `Decimal`: sign, coefficient and the number of fraction digits. -/
structure Decimal where
  negative : Bool
  coefficient : Nat
  places : Nat
deriving DecidableEq, Repr

namespace Decimal

/-- The number it stands for. -/
def toRat (d : Decimal) : ℚ :=
  (if d.negative then -1 else 1) * (d.coefficient / 10 ^ d.places)

/-- A numeral without sign and exponent. -/
def parseUnsigned (negative : Bool) (s : List Char) : Option Decimal :=
  let whole := s.takeWhile isDecimalDigit
  match s.drop whole.length with
  | [] => if whole.isEmpty then none else some ⟨negative, ofDigits whole, 0⟩
  | '.' :: fraction =>
      if (whole ++ fraction).isEmpty || !fraction.all isDecimalDigit then none
      else some ⟨negative, ofDigits (whole ++ fraction), fraction.length⟩
  | _ => none

/-- `Decimal(s)` for a text without exponent; `none` is `InvalidOperation`. -/
def parse : List Char → Option Decimal
  | '-' :: s => parseUnsigned true s
  | '+' :: s => parseUnsigned false s
  | s => parseUnsigned false s

theorem parseUnsigned_append {negative : Bool} {whole digits : List Char}
    (hwhole : ∀ c ∈ whole, isDecimalDigit c = true)
    (hdigits : ∀ c ∈ digits, isDecimalDigit c = true) (hne : digits ≠ []) :
    parseUnsigned negative (whole ++ '.' :: digits) =
      some ⟨negative, ofDigits (whole ++ digits), digits.length⟩ := by
  have htake : (whole ++ '.' :: digits).takeWhile isDecimalDigit = whole := by
    rw [List.takeWhile_append_of_pos hwhole, List.takeWhile_cons_of_neg (by decide),
      List.append_nil]
  have hall : digits.all isDecimalDigit = true := List.all_eq_true.mpr hdigits
  simp [parseUnsigned, htake, hall, hne]

theorem parseUnsigned_whole {negative : Bool} {whole : List Char}
    (hwhole : ∀ c ∈ whole, isDecimalDigit c = true) :
    parseUnsigned negative whole =
      if whole = [] then none else some ⟨negative, ofDigits whole, 0⟩ := by
  have htake : whole.takeWhile isDecimalDigit = whole := by
    rw [← List.append_nil whole, List.takeWhile_append_of_pos hwhole, List.takeWhile_nil]
  simp [parseUnsigned, htake]

end Decimal

end TallyConnector
