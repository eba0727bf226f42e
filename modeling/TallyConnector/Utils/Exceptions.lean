/-! # Exceptions

`utils/exceptions.py`, together with the exceptions of Python, pydantic and
`sqlite3` that can reach the connector's handlers. All of them derive from
`Exception`, so `except Exception` catches every one.
-/

namespace TallyConnector

/-- The class of an exception. -/
inductive ExnKind where
  | tallyConnectionError
  | tallyResponseError
  | tallyXMLParseError
  | frappeAuthError
  | frappeAPIError
  | tallyDataError
  /-- `_TransientFrappeError`, internal to the Frappe client. -/
  | transientFrappeError
  | validationError
  | operationalError
  | integrityError
  | programmingError
  | overflowError
  | valueError
  | unicodeError
  | typeError
  | keyError
  | indexError
  | attributeError
  | recursionError
deriving DecidableEq, Repr

/-- A raised exception: its class and `str(exc)`. -/
structure Exn where
  kind : ExnKind
  message : String
deriving DecidableEq, Repr

/-- `except TallyConnectorError`: the subclasses of the connector's own base
class. -/
def Exn.isTallyConnectorError (exc : Exn) : Bool :=
  match exc.kind with
  | .tallyConnectionError | .tallyResponseError | .tallyXMLParseError
  | .frappeAuthError | .frappeAPIError | .tallyDataError => true
  | _ => false

/-- `except (ValidationError, TallyDataError)`: no retry can help. -/
def Exn.isPermanent (exc : Exn) : Bool :=
  exc.kind = .validationError || exc.kind = .tallyDataError

end TallyConnector
