import TallyConnector.Models.TallyVoucher
import TallyConnector.World.Groups

/-! # A deployment that syncs receipts

The `receipt_voucher` entity with its entry of `frappe/mapping.yaml`, between a
Tally whose responses are the given receipt lists and a Frappe site.
-/

namespace TallyConnector

/-- A receipt as Tally has it. -/
structure Receipt where
  guid : String
  /-- The day, and as `%Y%m%d`. -/
  day : Date
  date : String
  alterId : Nat
deriving DecidableEq

namespace Receipt

def element (r : Receipt) : Element :=
  .mk "VOUCHER" [] none [.mk "DATE" [] (some r.date) [], .mk "GUID" [] (some r.guid) [],
    .mk "ALTERID" [] (some (toString r.alterId)) []]

def xml (r : Receipt) : String :=
  "<VOUCHER><DATE>" ++ r.date ++ "</DATE><GUID>" ++ r.guid ++ "</GUID><ALTERID>" ++
    toString r.alterId ++ "</ALTERID></VOUCHER>"

/-- The dates of the receipts are written in eight digits, and they have no
entries: strings and integers are read as those of a group. -/
def pydantic : Pydantic := groupPydantic

def spec : EntitySpec := pydantic.receiptVoucher

def version (r : Receipt) : Version where
  entityName := "receipt_voucher"
  alterId := r.alterId
  date := r.day
  raw := parseRow spec r.element

/-- The bytes of a response that lists the receipts. -/
def page (receipts : List Receipt) : Bytes :=
  ascii ("<ENVELOPE>" ++ String.join (receipts.map xml) ++ "</ENVELOPE>")

/-- The `receipt_voucher` entry of `frappe/mapping.yaml`. -/
def mapping : MappingEntry where
  entityName := "receipt_voucher"
  frappeDoctype := "Tally Receipt Voucher"
  fieldMap := [("guid", "tally_guid"), ("voucher_number", "voucher_number"),
    ("date", "posting_date"), ("party_ledger_name", "party"), ("narration", "narration"),
    ("alter_id", "tally_alter_id"), ("ledger_entries", "ledger_entries")]
  nodup := by decide

/-- An engine for the `receipt_voucher` entity alone. -/
def engine (pages : List (List Receipt)) : SyncEngine Dict where
  settings := { frappeBaseUrl := "https://erp.example.com" }
  mapping :=
    { entry := fun name => if name = "receipt_voucher" then some mapping else none
      named := by
        intro name me h
        split at h
        · next heq =>
          cases h
          exact heq.symm
        · cases h }
  registry := { specs := [spec], nodup := by decide }
  ext :=
    { groupExternal [] with
      fromstring := fun bytes =>
        match pages.find? fun receipts => page receipts == bytes with
        | some receipts => .ok (.mk "ENVELOPE" [] none (receipts.map element))
        | none => .error "Document is empty" }

end Receipt

end TallyConnector
