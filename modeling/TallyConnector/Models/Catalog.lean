import TallyConnector.Models.Masters
import TallyConnector.Models.Registry
import TallyConnector.Models.TallyVoucher

/-! # The shipped registry

`_MASTERS`, `_VOUCHERS` and `REGISTRY` of `models/registry.py`.
-/

namespace TallyConnector

namespace Pydantic

variable (pydantic : Pydantic)

def masters : List EntitySpec := [
  pydantic.master "company" "Company" ["Name", "GUID", "AlterID", "StateName",
    "GSTRegistrationNumber"] [] "name",
  pydantic.group,
  pydantic.master "ledger" "Ledger" ["Name", "Parent", "GUID", "AlterID", "OpeningBalance",
    "ClosingBalance", "PartyGSTIN", "LedgerContact"] ["group"],
  pydantic.master "voucher_type" "VoucherType" ["Name", "Parent", "GUID", "AlterID"],
  pydantic.master "stock_group" "StockGroup" ["Name", "Parent", "GUID", "AlterID"],
  pydantic.master "stock_category" "StockCategory" ["Name", "Parent", "GUID", "AlterID"],
  pydantic.master "stock_item" "StockItem" ["Name", "Parent", "GUID", "AlterID", "BaseUnits",
    "OpeningBalance", "OpeningRate"] ["stock_group", "stock_category", "unit"],
  pydantic.master "unit" "Unit" ["Name", "GUID", "AlterID", "Symbol", "DecimalPlaces"],
  pydantic.master "godown" "Godown" ["Name", "Parent", "GUID", "AlterID"],
  pydantic.master "cost_centre" "CostCentre" ["Name", "Parent", "GUID", "AlterID", "Category"]
    ["cost_category"],
  pydantic.master "cost_category" "CostCategory" ["Name", "GUID", "AlterID"],
  pydantic.master "currency" "Currency" ["Name", "GUID", "AlterID", "DecimalPlaces"],
  pydantic.master "gst_master" "GSTClassification" ["Name", "GUID", "AlterID", "HSNCode",
    "GSTRate"],
  pydantic.master "state" "State" ["Name", "GUID", "AlterID"]]

def vouchers : List EntitySpec := [
  pydantic.voucher "sales_voucher" "Sales" true ["ledger", "voucher_type", "stock_item", "godown"],
  pydantic.voucher "purchase_voucher" "Purchase" true
    ["ledger", "voucher_type", "stock_item", "godown"],
  pydantic.receiptVoucher,
  pydantic.voucher "payment_voucher" "Payment" false ["ledger", "voucher_type"],
  pydantic.voucher "contra_voucher" "Contra" false ["ledger", "voucher_type"],
  pydantic.voucher "journal_voucher" "Journal" false ["ledger", "voucher_type"],
  pydantic.voucher "debit_note_voucher" "Debit Note" true
    ["ledger", "voucher_type", "stock_item", "godown"],
  pydantic.voucher "credit_note_voucher" "Credit Note" true
    ["ledger", "voucher_type", "stock_item", "godown"],
  pydantic.voucher "stock_journal_voucher" "Stock Journal" true
    ["voucher_type", "stock_item", "godown"],
  pydantic.voucher "purchase_order_voucher" "Purchase Order" true
    ["ledger", "voucher_type", "stock_item", "godown"],
  pydantic.voucher "sales_order_voucher" "Sales Order" true
    ["ledger", "voucher_type", "stock_item", "godown"]]

theorem names_catalog : (pydantic.masters ++ pydantic.vouchers).map (·.name) = ["company",
    "group", "ledger", "voucher_type", "stock_group", "stock_category", "stock_item", "unit",
    "godown", "cost_centre", "cost_category", "currency", "gst_master", "state",
    "sales_voucher", "purchase_voucher", "receipt_voucher", "payment_voucher", "contra_voucher",
    "journal_voucher", "debit_note_voucher", "credit_note_voucher", "stock_journal_voucher",
    "purchase_order_voucher", "sales_order_voucher"] := rfl

def registry : Registry where
  specs := pydantic.masters ++ pydantic.vouchers
  nodup := by
    rw [names_catalog]
    decide

end Pydantic

end TallyConnector
