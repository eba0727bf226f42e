import TallyConnector.Python.Decimal
import TallyConnector.Tally.XmlParser

/-! # Voucher models

`_coerce_tally_decimal` of `models/vouchers.py`, for strings; any other value
is returned as it is. The pattern `_LEADING_NUMBER` is read off from left to
right: its repetitions never have to give a character back.
-/

namespace TallyConnector

/-- `[\d,]` -/
def isRunChar (c : Char) : Bool := isDecimalDigit c || c == ','

/-- `(?:\.\d+)?` -/
def fractionPart : List Char → List Char
  | '.' :: s =>
      let digits := s.takeWhile isDecimalDigit
      if digits.isEmpty then [] else '.' :: digits
  | _ => []

/-- `_LEADING_NUMBER.match(s).group(1)`, the pattern being
`^\s*(-?[\d,]+(?:\.\d+)?)`. -/
def leadingNumber (s : List Char) : Option (List Char) :=
  let s := s.dropWhile isPySpace
  let sign := if s.head? = some '-' then ['-'] else []
  let s := s.drop sign.length
  let run := s.takeWhile isRunChar
  if run.isEmpty then none
  else some (sign ++ run ++ fractionPart (s.drop run.length))

/-- What `_coerce_tally_decimal` returns. -/
inductive Coerced where
  | none
  | text (value : String)
  | decimal (d : Decimal)
deriving DecidableEq, Repr

def coerceTallyDecimal (value : String) : Coerced :=
  let cleaned := pyStrip value
  if cleaned = "" then .none
  else
    match leadingNumber cleaned.toList with
    | none => .text value
    | some group =>
        match Decimal.parse (group.filter (· != ',')) with
        | some d => .decimal d
        -- InvalidOperation
        | none => .text value

end TallyConnector
