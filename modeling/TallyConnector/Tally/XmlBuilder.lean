import TallyConnector.Models.EntitySpec

/-! # Collection requests

`tally/xml_builder.py`. A request is kept as its content — the static
variables, the `FETCH` lines and the filter formulae — not as XML text.
-/

namespace TallyConnector

/-- A calendar day, as `date.toordinal()`. -/
abbrev Date := Int

/-- The `SYSTEM` formulae a request can carry. -/
inductive Formula where
  /-- `$VoucherTypeName = "…"` -/
  | voucherTypeName (name : String)
  /-- `$AlterID > n` -/
  | alterIdAbove (n : Int)
deriving DecidableEq, Repr

structure CollectionRequest where
  /-- The collection is named `"<entityName> Collection"`. -/
  entityName : String
  /-- `SVCURRENTCOMPANY` -/
  currentCompany : Option String
  /-- `SVFROMDATE` -/
  fromDate : Option Date
  /-- `SVTODATE` -/
  toDate : Option Date
  objectType : String
  filters : List Formula
  fetch : List String
deriving DecidableEq, Repr

/-- `if value:` for an optional string. -/
def nonEmpty (s : Option String) : Option String := s.filter (· ≠ "")

/-- `if fields:` for an optional list. -/
def nonEmptyList (fields : Option (List String)) : Option (List String) :=
  fields.filter fun xs => !xs.isEmpty

def buildCollectionRequest (spec : EntitySpec) (sinceAlterId : Option Int)
    (dateFrom dateTo : Option Date) (company : Option String) : CollectionRequest where
  entityName := spec.name
  currentCompany := nonEmpty company
  fromDate := if spec.isVoucher then dateFrom else none
  toDate := if spec.isVoucher then dateTo else none
  objectType := spec.tallyObjectType
  filters :=
    (if spec.isVoucher then
      ((nonEmpty spec.voucherTypeFilter).map Formula.voucherTypeName).toList else []) ++
    (sinceAlterId.map Formula.alterIdAbove).toList
  fetch := spec.fetchFields ++
    (if spec.isVoucher && (nonEmptyList spec.ledgerEntriesFields).isSome then
      ["ALLLEDGERENTRIES.LIST"] else []) ++
    (if spec.isVoucher && (nonEmptyList spec.inventoryEntriesFields).isSome then
      ["ALLINVENTORYENTRIES.LIST"] else [])

end TallyConnector
