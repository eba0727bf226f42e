import TallyConnector.Frappe.Mapping

/-! # The shipped mapping

`frappe/mapping.yaml`, as `load_mapping` of `frappe/mapping.py` returns it.
-/

namespace TallyConnector

/-- An entry of the file. -/
structure RawEntry where
  entityName : String
  frappeDoctype : String
  fieldMap : List (String × String) := []

/-- A file with its entries by name; the keys of a YAML mapping are distinct. -/
structure MappingFile where
  entries : List RawEntry
  names : (entries.map (·.entityName)).Nodup
  fields : ∀ raw ∈ entries, (raw.fieldMap.map Prod.fst).Nodup

/-- `load_mapping(path)` -/
def loadMapping (file : MappingFile) : Mapping where
  entry name := (file.entries.attach.find? fun raw => raw.1.entityName == name).map fun raw =>
    { entityName := raw.1.entityName
      frappeDoctype := raw.1.frappeDoctype
      fieldMap := raw.1.fieldMap
      nodup := file.fields raw.1 raw.2 }
  named := by
    intro name me h
    obtain ⟨raw, hfind, rfl⟩ := Option.map_eq_some_iff.mp h
    simpa using List.find?_some hfind

def mappingFileEntries : List RawEntry := [
  { entityName := "company"
    frappeDoctype := "Tally Company"
    fieldMap := [("guid", "tally_guid"), ("name", "title"), ("alter_id", "tally_alter_id"),
      ("state_name", "state"), ("gst_registration_number", "gstin")] },
  { entityName := "group"
    frappeDoctype := "Tally Group"
    fieldMap := [("guid", "tally_guid"), ("name", "title"), ("parent", "parent_group"),
      ("alter_id", "tally_alter_id")] },
  { entityName := "ledger"
    frappeDoctype := "Tally Ledger"
    fieldMap := [("guid", "tally_guid"), ("name", "title"), ("parent", "ledger_group"),
      ("alter_id", "tally_alter_id"), ("opening_balance", "opening_balance"),
      ("closing_balance", "closing_balance"), ("party_gstin", "gstin"),
      ("ledger_contact", "contact_person")] },
  { entityName := "voucher_type"
    frappeDoctype := "Tally Voucher Type"
    fieldMap := [("guid", "tally_guid"), ("name", "title"), ("parent", "parent_voucher_type"),
      ("alter_id", "tally_alter_id")] },
  { entityName := "stock_group"
    frappeDoctype := "Tally Stock Group"
    fieldMap := [("guid", "tally_guid"), ("name", "title"), ("parent", "parent_stock_group"),
      ("alter_id", "tally_alter_id")] },
  { entityName := "stock_category"
    frappeDoctype := "Tally Stock Category"
    fieldMap := [("guid", "tally_guid"), ("name", "title"), ("parent", "parent_stock_category"),
      ("alter_id", "tally_alter_id")] },
  { entityName := "stock_item"
    frappeDoctype := "Tally Stock Item"
    fieldMap := [("guid", "tally_guid"), ("name", "title"), ("parent", "stock_group"),
      ("alter_id", "tally_alter_id"), ("base_units", "base_unit"),
      ("opening_balance", "opening_qty"), ("opening_rate", "opening_rate")] },
  { entityName := "unit"
    frappeDoctype := "Tally Unit"
    fieldMap := [("guid", "tally_guid"), ("name", "title"), ("alter_id", "tally_alter_id"),
      ("symbol", "symbol"), ("decimal_places", "decimal_places")] },
  { entityName := "godown"
    frappeDoctype := "Tally Godown"
    fieldMap := [("guid", "tally_guid"), ("name", "title"), ("parent", "parent_godown"),
      ("alter_id", "tally_alter_id")] },
  { entityName := "cost_centre"
    frappeDoctype := "Tally Cost Centre"
    fieldMap := [("guid", "tally_guid"), ("name", "title"), ("parent", "parent_cost_centre"),
      ("alter_id", "tally_alter_id"), ("category", "cost_category")] },
  { entityName := "cost_category"
    frappeDoctype := "Tally Cost Category"
    fieldMap := [("guid", "tally_guid"), ("name", "title"), ("alter_id", "tally_alter_id")] },
  { entityName := "currency"
    frappeDoctype := "Tally Currency"
    fieldMap := [("guid", "tally_guid"), ("name", "title"), ("alter_id", "tally_alter_id"),
      ("decimal_places", "decimal_places")] },
  { entityName := "gst_master"
    frappeDoctype := "Tally GST Master"
    fieldMap := [("guid", "tally_guid"), ("name", "title"), ("alter_id", "tally_alter_id"),
      ("hsn_code", "hsn_code"), ("gst_rate", "gst_rate")] },
  { entityName := "state"
    frappeDoctype := "Tally State"
    fieldMap := [("guid", "tally_guid"), ("name", "title"), ("alter_id", "tally_alter_id")] },
  { entityName := "sales_voucher"
    frappeDoctype := "Tally Sales Voucher"
    fieldMap := [("guid", "tally_guid"), ("voucher_number", "voucher_number"),
      ("date", "posting_date"), ("party_ledger_name", "party"), ("narration", "narration"),
      ("alter_id", "tally_alter_id"), ("ledger_entries", "ledger_entries"),
      ("inventory_entries", "items")] },
  { entityName := "purchase_voucher"
    frappeDoctype := "Tally Purchase Voucher"
    fieldMap := [("guid", "tally_guid"), ("voucher_number", "voucher_number"),
      ("date", "posting_date"), ("party_ledger_name", "party"), ("narration", "narration"),
      ("alter_id", "tally_alter_id"), ("ledger_entries", "ledger_entries"),
      ("inventory_entries", "items")] },
  { entityName := "receipt_voucher"
    frappeDoctype := "Tally Receipt Voucher"
    fieldMap := [("guid", "tally_guid"), ("voucher_number", "voucher_number"),
      ("date", "posting_date"), ("party_ledger_name", "party"), ("narration", "narration"),
      ("alter_id", "tally_alter_id"), ("ledger_entries", "ledger_entries")] },
  { entityName := "payment_voucher"
    frappeDoctype := "Tally Payment Voucher"
    fieldMap := [("guid", "tally_guid"), ("voucher_number", "voucher_number"),
      ("date", "posting_date"), ("party_ledger_name", "party"), ("narration", "narration"),
      ("alter_id", "tally_alter_id"), ("ledger_entries", "ledger_entries")] },
  { entityName := "contra_voucher"
    frappeDoctype := "Tally Contra Voucher"
    fieldMap := [("guid", "tally_guid"), ("voucher_number", "voucher_number"),
      ("date", "posting_date"), ("narration", "narration"), ("alter_id", "tally_alter_id"),
      ("ledger_entries", "ledger_entries")] },
  { entityName := "journal_voucher"
    frappeDoctype := "Tally Journal Voucher"
    fieldMap := [("guid", "tally_guid"), ("voucher_number", "voucher_number"),
      ("date", "posting_date"), ("narration", "narration"), ("alter_id", "tally_alter_id"),
      ("ledger_entries", "ledger_entries")] },
  { entityName := "debit_note_voucher"
    frappeDoctype := "Tally Debit Note Voucher"
    fieldMap := [("guid", "tally_guid"), ("voucher_number", "voucher_number"),
      ("date", "posting_date"), ("party_ledger_name", "party"), ("narration", "narration"),
      ("alter_id", "tally_alter_id"), ("ledger_entries", "ledger_entries"),
      ("inventory_entries", "items")] },
  { entityName := "credit_note_voucher"
    frappeDoctype := "Tally Credit Note Voucher"
    fieldMap := [("guid", "tally_guid"), ("voucher_number", "voucher_number"),
      ("date", "posting_date"), ("party_ledger_name", "party"), ("narration", "narration"),
      ("alter_id", "tally_alter_id"), ("ledger_entries", "ledger_entries"),
      ("inventory_entries", "items")] },
  { entityName := "stock_journal_voucher"
    frappeDoctype := "Tally Stock Journal Voucher"
    fieldMap := [("guid", "tally_guid"), ("voucher_number", "voucher_number"),
      ("date", "posting_date"), ("narration", "narration"), ("alter_id", "tally_alter_id"),
      ("ledger_entries", "ledger_entries"), ("inventory_entries", "items")] },
  { entityName := "purchase_order_voucher"
    frappeDoctype := "Tally Purchase Order"
    fieldMap := [("guid", "tally_guid"), ("voucher_number", "voucher_number"),
      ("date", "posting_date"), ("party_ledger_name", "party"), ("narration", "narration"),
      ("alter_id", "tally_alter_id"), ("ledger_entries", "ledger_entries"),
      ("inventory_entries", "items")] },
  { entityName := "sales_order_voucher"
    frappeDoctype := "Tally Sales Order"
    fieldMap := [("guid", "tally_guid"), ("voucher_number", "voucher_number"),
      ("date", "posting_date"), ("party_ledger_name", "party"), ("narration", "narration"),
      ("alter_id", "tally_alter_id"), ("ledger_entries", "ledger_entries"),
      ("inventory_entries", "items")] }]

theorem names_mappingFileEntries : (mappingFileEntries.map (·.entityName)).Nodup := by decide

theorem fields_mappingFileEntries :
    ∀ raw ∈ mappingFileEntries, (raw.fieldMap.map Prod.fst).Nodup := by decide

def shippedMapping : Mapping :=
  loadMapping ⟨mappingFileEntries, names_mappingFileEntries, fields_mappingFileEntries⟩

end TallyConnector
