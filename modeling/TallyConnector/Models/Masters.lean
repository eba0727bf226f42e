import TallyConnector.Tally.XmlParser

/-! # The master model

`TallyMaster` of `models/masters.py` with the configuration of
`models/base.py`, and the specs `models/registry.py` builds with `_master`.
What pydantic itself reads a value as comes as a parameter; extra fields are
kept, and the texts of its errors are not modelled.
-/

namespace TallyConnector

/-- What pydantic reads a value as, for a field of each type; `none` is an
error. A date and a decimal are written as `model_dump(mode="json")` writes
them. -/
structure Pydantic where
  /-- With `str_strip_whitespace`. -/
  str : Json → Option String
  int : Json → Option Int
  date : Json → Option Json
  decimal : Json → Option Json
  bool : Json → Option Json

namespace Pydantic

variable (pydantic : Pydantic)

/-! ## Field types -/

/-- `field: str` -/
def strField (record : Record) (field : String) : Except String Json :=
  match record.lookup field with
  | none => .error (field ++ ": Field required")
  | some value =>
      match pydantic.str value with
      | some s => .ok (.str s)
      | none => .error (field ++ ": Input should be a valid string")

/-- `field: str | None = None` -/
def optionalStrField (record : Record) (field : String) : Except String Json :=
  match record.lookup field with
  | none | some .null => .ok .null
  | some _ => pydantic.strField record field

/-- `field: int | None = None` -/
def optionalIntField (record : Record) (field : String) : Except String Json :=
  match record.lookup field with
  | none | some .null => .ok .null
  | some value =>
      match pydantic.int value with
      | some n => .ok (.int n)
      | none => .error (field ++ ": Input should be a valid integer")

/-- `TallyMaster(**raw)` -/
def tallyMaster (raw : Record) : Except String Model := do
  let guid ← pydantic.optionalStrField raw "guid"
  let name ← pydantic.strField raw "name"
  let parent ← pydantic.optionalStrField raw "parent"
  let alterId ← pydantic.optionalIntField raw "alter_id"
  let fields := raw.insert "guid" guid
  let fields := fields.insert "name" name
  let fields := fields.insert "parent" parent
  pure ⟨fields.insert "alter_id" alterId⟩

/-- A string field takes strings only, and strips them. -/
def StripsStrings : Prop :=
  ∀ value s, pydantic.str value = some s → ∃ text, value = .str text ∧ s = pyStrip text

/-- A string without whitespace around it is taken as it is. -/
def KeepsStrings : Prop := ∀ s, pyStrip s = s → pydantic.str (.str s) = some s

end Pydantic

/-! ## What a valid field is -/

theorem exists_of_bind_ok {ε α β : Type} {x : Except ε α} {f : α → Except ε β} {b : β}
    (h : (x >>= f) = .ok b) : ∃ a, x = .ok a ∧ f a = .ok b := by
  cases x with
  | error exc => cases h
  | ok a => exact ⟨a, rfl, h⟩

namespace Pydantic

variable {pydantic : Pydantic}

theorem strField_ok (hstrips : pydantic.StripsStrings) {record : Record} {field : String}
    {value : Json} (h : pydantic.strField record field = .ok value) :
    ∃ s, record.lookup field = some (.str s) ∧ value = .str (pyStrip s) := by
  unfold strField at h
  split at h
  · cases h
  · next raw hraw =>
    split at h
    · next s hs =>
      cases h
      obtain ⟨text, rfl, rfl⟩ := hstrips raw s hs
      exact ⟨text, hraw, rfl⟩
    · cases h

/-- A text of an optional field comes from the raw record, too. -/
theorem optionalStrField_ok (hstrips : pydantic.StripsStrings) {record : Record}
    {field key : String} (h : pydantic.optionalStrField record field = .ok (.str key)) :
    ∃ s, record.lookup field = some (.str s) ∧ key = pyStrip s := by
  unfold optionalStrField at h
  split at h
  · cases h
  · cases h
  · rcases strField_ok hstrips h with ⟨s, hs, hvalue⟩
    cases hvalue
    exact ⟨s, hs, rfl⟩

theorem tallyMaster_ok {raw : Record} {model : Model} (h : pydantic.tallyMaster raw = .ok model) :
    ∃ guid name parent alterId, pydantic.optionalStrField raw "guid" = .ok guid ∧
      pydantic.strField raw "name" = .ok name ∧
      pydantic.optionalStrField raw "parent" = .ok parent ∧
      model = ⟨(((raw.insert "guid" guid).insert "name" name).insert "parent" parent).insert
        "alter_id" alterId⟩ := by
  rcases exists_of_bind_ok h with ⟨guid, hguid, h⟩
  rcases exists_of_bind_ok h with ⟨name, hname, h⟩
  rcases exists_of_bind_ok h with ⟨parent, hparent, h⟩
  rcases exists_of_bind_ok h with ⟨alterId, -, h⟩
  cases h
  exact ⟨guid, name, parent, alterId, hguid, hname, hparent, rfl⟩

/-! ## Specs -/

variable (pydantic)

/-- `_master(name, tally_object_type, fetch_fields, …)` -/
def master (name tallyObjectType : String) (fetchFields : List String)
    (dependsOn : List String := []) (naturalKeyField : String := "guid") : EntitySpec where
  name := name
  kind := .master
  tallyObjectType := tallyObjectType
  fetchFields := fetchFields
  pydanticModel := pydantic.tallyMaster
  dependsOn := dependsOn
  naturalKeyField := naturalKeyField

/-- The `group` entry of `REGISTRY`. -/
def group : EntitySpec := pydantic.master "group" "Group" ["Name", "Parent", "GUID", "AlterID"]

end Pydantic

end TallyConnector
