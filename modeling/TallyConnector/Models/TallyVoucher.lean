import TallyConnector.Models.Masters
import TallyConnector.Models.Vouchers
import TallyConnector.Python.DateTime

/-! # The voucher model

`LedgerEntry`, `InventoryEntry` and `TallyVoucher` of `models/vouchers.py`, and
the specs `models/registry.py` builds with `_voucher`. What pydantic itself
reads a value as that the coercions leave as it is comes as a parameter; the
texts of its errors are not modelled.
-/

namespace TallyConnector

/-! ## Coercions -/

/-- `text.zfill(width)`, for a text without sign. -/
def zeroFill (width : Nat) (text : String) : String :=
  String.ofList (List.replicate (width - text.length) '0') ++ text

/-- `datetime.strptime(value, "%Y%m%d").date().isoformat()`, for eight decimal
digits. A month is written in ASCII digits, and so is the first digit of a day,
and the second one after `0` and `3`. -/
def strptimeDate : List Char → Option String
  | [y₁, y₂, y₃, y₄, m₁, m₂, d₁, d₂] =>
      let year := ofDigits [y₁, y₂, y₃, y₄]
      let month := ofDigits [m₁, m₂]
      let day := ofDigits [d₁, d₂]
      let written := [m₁, m₂, d₁].all Char.isDigit && (d₂.isDigit || d₁ == '1' || d₁ == '2')
      if written ∧ 1 ≤ year ∧ 1 ≤ month ∧ month ≤ 12 ∧ 1 ≤ day ∧ day ≤ daysInMonth year month then
        some (zeroFill 4 (toString year) ++ "-" ++ zeroFill 2 (toString month) ++ "-" ++
          zeroFill 2 (toString day))
      else none
  | _ => none

/-- `str(d)` -/
def Decimal.text (d : Decimal) : String :=
  let digits := toString d.coefficient
  let leftDigits : Int := digits.length - d.places
  let dotPlace : Int := if leftDigits > -6 then leftDigits else 1
  let number :=
    if dotPlace ≤ 0 then "0." ++ zeroFill (digits.length + dotPlace.natAbs) digits
    else if dotPlace ≥ digits.length then digits
    else String.ofList (digits.toList.take dotPlace.toNat) ++ "." ++
      String.ofList (digits.toList.drop dotPlace.toNat)
  let exponent := if leftDigits = dotPlace then "" else "E" ++ toString (leftDigits - dotPlace)
  (if d.negative then "-" else "") ++ number ++ exponent

namespace Pydantic

variable (pydantic : Pydantic)

/-- `field: date`, before it `_coerce_tally_date`. Text with digits that are not
decimal is refused either way. -/
def dateField (record : Record) (field : String) : Except String Json :=
  let read (value : Json) : Except String Json :=
    match pydantic.date value with
    | some date => .ok date
    | none => .error (field ++ ": Input should be a valid date")
  match record.lookup field with
  | none => .error (field ++ ": Field required")
  | some (.str s) =>
      if s.length = 8 ∧ s.toList.all isDecimalDigit then
        match strptimeDate s.toList with
        | some date => .ok (.str date)
        | none => .error (field ++ ": time data does not match format '%Y%m%d'")
      else read (.str s)
  | some value => read value

/-- `field: Decimal | None`, before it `_coerce_tally_decimal`. -/
def decimalOf (field : String) (value : Json) : Except String Json :=
  let read (value : Json) : Except String Json :=
    match pydantic.decimal value with
    | some d => .ok d
    | none => .error (field ++ ": Input should be a valid decimal")
  match value with
  | .str s =>
      match coerceTallyDecimal s with
      | .none => .ok .null
      | .decimal d => .ok (.str d.text)
      | .text value => read (.str value)
  | .null => .ok .null
  | value => read value

/-- `field: Decimal` -/
def decimalField (record : Record) (field : String) : Except String Json :=
  match record.lookup field with
  | none => .error (field ++ ": Field required")
  | some value => do
      match ← pydantic.decimalOf field value with
      | .null => .error (field ++ ": Input should be a valid decimal")
      | d => .ok d

/-- `field: Decimal | None = None` -/
def optionalDecimalField (record : Record) (field : String) : Except String Json :=
  match record.lookup field with
  | none => .ok .null
  | some value => pydantic.decimalOf field value

/-- `field: bool | None = None`, before it `_coerce_tally_bool`. -/
def optionalBoolField (record : Record) (field : String) : Except String Json :=
  match record.lookup field with
  | none | some .null => .ok .null
  | some (.str s) => .ok (.bool (["yes", "true", "1"].contains (pyStrip s).toLower))
  | some value =>
      match pydantic.bool value with
      | some b => .ok b
      | none => .error (field ++ ": Input should be a valid boolean")

/-! ## Models -/

/-- `LedgerEntry(**entry)` -/
def ledgerEntry (entry : Record) : Except String (List (String × Json)) := do
  let ledgerName ← pydantic.strField entry "ledger_name"
  let amount ← pydantic.decimalField entry "amount"
  let isDeemedPositive ← pydantic.optionalBoolField entry "is_deemed_positive"
  pure [("ledger_name", ledgerName), ("amount", amount),
    ("is_deemed_positive", isDeemedPositive)]

/-- `InventoryEntry(**entry)` -/
def inventoryEntry (entry : Record) : Except String (List (String × Json)) := do
  let stockItemName ← pydantic.strField entry "stock_item_name"
  let actualQty ← pydantic.optionalDecimalField entry "actual_qty"
  let rate ← pydantic.optionalDecimalField entry "rate"
  let amount ← pydantic.optionalDecimalField entry "amount"
  let godownName ← pydantic.optionalStrField entry "godown_name"
  pure [("stock_item_name", stockItemName), ("actual_qty", actualQty), ("rate", rate),
    ("amount", amount), ("godown_name", godownName)]

/-- `field: list[Entry] = []`; the fields that `Entry` does not declare follow
the ones it does. -/
def entriesField (entryOf : Record → Except String (List (String × Json))) (record : Record)
    (field : String) : Except String Json :=
  match record.lookup field with
  | none => .ok (.list [])
  | some (.list entries) => do
      let dumps ← entries.mapM fun entry =>
        match entry with
        | .obj kvs => do
            let declared ← entryOf (kvs.foldl (fun entry kv => entry.insert kv.1 kv.2) ∅)
            let extra := kvs.filter fun kv => (declared.lookup kv.1).isNone
            pure (Json.obj (declared ++ extra))
        | _ => .error (field ++ ": Input should be a valid dictionary")
      pure (.list dumps)
  | some _ => .error (field ++ ": Input should be a valid list")

/-- `TallyVoucher(**raw)` -/
def tallyVoucher (raw : Record) : Except String Model := do
  let guid ← pydantic.strField raw "guid"
  let voucherType ← pydantic.strField raw "voucher_type"
  let voucherNumber ← pydantic.optionalStrField raw "voucher_number"
  let date ← pydantic.dateField raw "date"
  let partyLedgerName ← pydantic.optionalStrField raw "party_ledger_name"
  let narration ← pydantic.optionalStrField raw "narration"
  let alterId ← pydantic.optionalIntField raw "alter_id"
  let ledgerEntries ← entriesField pydantic.ledgerEntry raw "ledger_entries"
  let inventoryEntries ← entriesField pydantic.inventoryEntry raw "inventory_entries"
  let fields := raw.insert "guid" guid
  let fields := fields.insert "voucher_type" voucherType
  let fields := fields.insert "voucher_number" voucherNumber
  let fields := fields.insert "date" date
  let fields := fields.insert "party_ledger_name" partyLedgerName
  let fields := fields.insert "narration" narration
  let fields := fields.insert "alter_id" alterId
  let fields := fields.insert "ledger_entries" ledgerEntries
  pure ⟨fields.insert "inventory_entries" inventoryEntries⟩

/-- The string fields of a voucher, as far as they make it into the model. -/
theorem tallyVoucher_ok {raw : Record} {model : Model}
    (h : pydantic.tallyVoucher raw = .ok model) :
    (∃ guid, pydantic.strField raw "guid" = .ok guid ∧ model.dump.lookup "guid" = some guid) ∧
      (∃ voucherType, pydantic.strField raw "voucher_type" = .ok voucherType ∧
        model.dump.lookup "voucher_type" = some voucherType) ∧
      ∀ field ∈ ["voucher_number", "party_ledger_name", "narration"],
        ∃ value, pydantic.optionalStrField raw field = .ok value ∧
          model.dump.lookup field = some value := by
  rcases exists_of_bind_ok h with ⟨guid, hguid, h⟩
  rcases exists_of_bind_ok h with ⟨voucherType, htype, h⟩
  rcases exists_of_bind_ok h with ⟨voucherNumber, hnumber, h⟩
  rcases exists_of_bind_ok h with ⟨date, -, h⟩
  rcases exists_of_bind_ok h with ⟨partyLedgerName, hparty, h⟩
  rcases exists_of_bind_ok h with ⟨narration, hnarration, h⟩
  rcases exists_of_bind_ok h with ⟨alterId, -, h⟩
  rcases exists_of_bind_ok h with ⟨ledgerEntries, -, h⟩
  rcases exists_of_bind_ok h with ⟨inventoryEntries, -, h⟩
  cases h
  refine ⟨⟨guid, hguid, ?_⟩, ⟨voucherType, htype, ?_⟩, ?_⟩
  · simp [Finmap.lookup_insert_of_ne]
  · simp [Finmap.lookup_insert_of_ne]
  · simp only [List.forall_mem_cons, List.not_mem_nil, false_imp_iff, implies_true, and_true]
    refine ⟨⟨voucherNumber, hnumber, ?_⟩, ⟨partyLedgerName, hparty, ?_⟩, ⟨narration, hnarration, ?_⟩⟩
    · simp [Finmap.lookup_insert_of_ne]
    · simp [Finmap.lookup_insert_of_ne]
    · simp [Finmap.lookup_insert_of_ne]

/-! ## Specs -/

/-- `_voucher(name, voucher_type_filter, …)` -/
def voucher (name voucherTypeFilter : String) (hasInventory : Bool) (dependsOn : List String) :
    EntitySpec where
  name := name
  kind := .voucher
  tallyObjectType := "Voucher"
  voucherTypeFilter := some voucherTypeFilter
  fetchFields := ["Date", "VoucherNumber", "GUID", "AlterID", "PartyLedgerName", "Narration",
    "VoucherTypeName"]
  ledgerEntriesFields := some ["LedgerName", "Amount", "IsDeemedPositive"]
  inventoryEntriesFields :=
    if hasInventory then some ["StockItemName", "ActualQty", "Rate", "Amount", "GodownName"]
    else none
  pydanticModel := pydantic.tallyVoucher
  dependsOn := dependsOn

/-- The `receipt_voucher` entry of `REGISTRY`. -/
def receiptVoucher : EntitySpec :=
  pydantic.voucher "receipt_voucher" "Receipt" false ["ledger", "voucher_type"]

end Pydantic

example : strptimeDate "20240229".toList = some "2024-02-29" := by decide

example : (Decimal.mk true 150 2).text = "-1.50" := by decide

end TallyConnector
