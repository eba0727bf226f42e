import TallyConnector.Python.Json
import TallyConnector.Utils.Exceptions

/-! # Entity specs, records and models

`models/entity_spec.py` and `tally/mapper.py`. The parser, the engine and the
mapping are generic over an `EntitySpec`; its `pydanticModel` is the class
that validates a raw record, so validation is a field of the spec here too.
-/

namespace TallyConnector

/-- A parsed record: field values are strings, entry lists are lists of
objects. -/
abbrev Record := Dict

/-- A validated model, known by its `model_dump(mode="json")`. -/
structure Model where
  dump : Dict
deriving DecidableEq

inductive EntityKind where
  | master
  | voucher
deriving DecidableEq, Repr

structure EntitySpec where
  name : String
  kind : EntityKind
  tallyObjectType : String
  fetchFields : List String
  /-- Calling the model class: the validated model, or the text of the
  `ValidationError`. -/
  pydanticModel : Record → Except String Model
  voucherTypeFilter : Option String := none
  ledgerEntriesFields : Option (List String) := none
  inventoryEntriesFields : Option (List String) := none
  naturalKeyField : String := "guid"
  dependsOn : List String := []

namespace EntitySpec

def isVoucher (spec : EntitySpec) : Bool := spec.kind = .voucher

end EntitySpec

namespace Model

/-- `getattr(model, "alter_id", None)`; the field is declared `int | None`. -/
def alterId (model : Model) : Option Int :=
  match model.dump.lookup "alter_id" with
  | some (.int n) => some n
  | _ => none

/-- `getattr(model, spec.natural_key_field, None)` for a string field. -/
def naturalKey (model : Model) (spec : EntitySpec) : Option String :=
  match model.dump.lookup spec.naturalKeyField with
  | some (.str s) => some s
  | _ => none

/-- The natural key if it is usable, i.e. truthy. -/
def usableKey (model : Model) (spec : EntitySpec) : Option String :=
  (model.naturalKey spec).filter (· ≠ "")

theorem usableKey_eq_some {model : Model} {spec : EntitySpec} {key : String} :
    model.usableKey spec = some key ↔ model.naturalKey spec = some key ∧ key ≠ "" := by
  simp [usableKey, Option.filter_eq_some_iff]

theorem lookup_of_usableKey {model : Model} {spec : EntitySpec} {key : String}
    (h : model.usableKey spec = some key) :
    model.dump.lookup spec.naturalKeyField = some (.str key) := by
  have hkey := (usableKey_eq_some.mp h).1
  unfold naturalKey at hkey
  split at hkey
  · next s hs =>
    cases hkey
    exact hs
  · cases hkey

end Model

/-- `to_model(raw, spec)`. -/
def toModel (raw : Record) (spec : EntitySpec) : Except Exn Model :=
  match spec.pydanticModel raw with
  | .ok model => .ok model
  | .error text => .error ⟨.validationError, text⟩

theorem toModel_ok {raw : Record} {spec : EntitySpec} {model : Model} :
    toModel raw spec = .ok model ↔ spec.pydanticModel raw = .ok model := by
  unfold toModel
  split <;> simp_all

end TallyConnector
