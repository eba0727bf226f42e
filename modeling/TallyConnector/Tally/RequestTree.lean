import TallyConnector.Python.DateTime
import TallyConnector.Python.Decimal
import TallyConnector.Tally.XmlParser

/-! # The XML of a collection request

The tree that `build_collection_request` of `tally/xml_builder.py` builds.
Writing it out as bytes is lxml's.
-/

namespace TallyConnector

open Sorting

/-- A `date`. -/
structure CalendarDate where
  year : Nat
  month : Nat
  day : Nat
  hyear : 1 ≤ year ∧ year ≤ 9999
  hmonth : 1 ≤ month ∧ month ≤ 12
  hday : 1 ≤ day ∧ day ≤ daysInMonth year month

namespace CalendarDate

/-- `value.toordinal()` -/
def ordinal (value : CalendarDate) : Date :=
  (daysBeforeYear value.year + daysBeforeMonth value.year value.month + value.day : Nat)

/-- `value.strftime("%Y%m%d")`; a year before 1000 is not filled up with zeros. -/
def text (value : CalendarDate) : String :=
  String.ofList (Nat.toDigits 10 value.year ++ (digits 2 value.month ++ digits 2 value.day))

end CalendarDate

/-- `_sub` with the text of the new element. -/
def leaf (tag text : String) : Element := .mk tag [] (some text) []

/-- `_sub` with the children it gets. -/
def branch (tag : String) (children : List Element) : Element := .mk tag [] none children

/-- The `SYSTEM` element of a filter. -/
def formula (name text : String) : Element :=
  .mk "SYSTEM" [("TYPE", "Formulae"), ("NAME", name)] (some text) []

/-- `static_vars` -/
def staticVariables (spec : EntitySpec) (dateFrom dateTo : Option CalendarDate)
    (company : Option String) : Element :=
  branch "STATICVARIABLES"
    (leaf "SVEXPORTFORMAT" "$$SysName:XML" ::
      ((nonEmpty company).map (leaf "SVCURRENTCOMPANY")).toList ++
      (if spec.isVoucher then
        (dateFrom.map fun value => leaf "SVFROMDATE" value.text).toList ++
          (dateTo.map fun value => leaf "SVTODATE" value.text).toList
      else []))

/-- The tree that `build_collection_request` writes out. -/
def collectionRequestTree (spec : EntitySpec) (sinceAlterId : Option Int)
    (dateFrom dateTo : Option CalendarDate) (company : Option String) : Element :=
  let collectionName := spec.name ++ " Collection"
  let voucherTypeFilter := if spec.isVoucher then nonEmpty spec.voucherTypeFilter else none
  let filterNames :=
    (voucherTypeFilter.map fun _ => "VchTypeFilter").toList ++
      (sinceAlterId.map fun _ => "AlterIdFilter").toList
  let fetch := spec.fetchFields ++
    (if spec.isVoucher && (nonEmptyList spec.ledgerEntriesFields).isSome then
      ["ALLLEDGERENTRIES.LIST"] else []) ++
    (if spec.isVoucher && (nonEmptyList spec.inventoryEntriesFields).isSome then
      ["ALLINVENTORYENTRIES.LIST"] else [])
  let collection : Element := .mk "COLLECTION" [("NAME", collectionName)] none
    (leaf "TYPE" spec.tallyObjectType :: filterNames.map (leaf "FILTER") ++
      fetch.map (leaf "FETCH"))
  let formulae :=
    (voucherTypeFilter.map fun name =>
      formula "VchTypeFilter" ("$VoucherTypeName = \"" ++ name ++ "\"")).toList ++
    (sinceAlterId.map fun n => formula "AlterIdFilter" ("$AlterID > " ++ toString n)).toList
  branch "ENVELOPE" [
    branch "HEADER" [leaf "VERSION" "1", leaf "TALLYREQUEST" "Export", leaf "TYPE" "Collection",
      leaf "ID" collectionName],
    branch "BODY" [branch "DESC" [staticVariables spec dateFrom dateTo company,
      branch "TDL" [branch "TDLMESSAGE" (collection :: formulae)]]]]

/-! ## What a request says -/

/-- The number in decimal digits. -/
def readNat (s : List Char) : Option Nat :=
  if s.all Char.isDigit && !s.isEmpty then some (ofDigits s) else none

/-- A day in eight digits. -/
def readDay (text : String) : Option Date := do
  let s := text.toList
  let year ← readNat (s.take 4)
  let month ← readNat ((s.drop 4).take 2)
  let day ← readNat (s.drop 6)
  if s.length = 8 ∧ 1 ≤ year ∧ 1 ≤ month ∧ month ≤ 12 ∧ 1 ≤ day ∧ day ≤ daysInMonth year month then
    some (daysBeforeYear year + daysBeforeMonth year month + day : Nat)
  else none

/-- What follows the given text. -/
def textAfter (before text : String) : Option String :=
  if before.toList.isPrefixOf text.toList then
    some (String.ofList (text.toList.drop before.length))
  else none

/-- What the given text follows. -/
def textBefore (after text : String) : Option String :=
  if after.toList.isSuffixOf text.toList then
    some (String.ofList (text.toList.take (text.length - after.length)))
  else none

/-- What a formula filters by. -/
def readFormula (text : String) : Option Formula :=
  match textAfter "$VoucherTypeName = \"" text with
  | some rest => (textBefore "\"" rest).map Formula.voucherTypeName
  | none => (textAfter "$AlterID > " text).bind fun rest => rest.toInt?.map Formula.alterIdAbove

/-- The formula that a filter names. -/
def readFilter (message : Element) (name : String) : Option Formula := do
  let system ← (message.findall "SYSTEM").find? fun elem =>
    elem.get "TYPE" == some "Formulae" && elem.get "NAME" == some name
  readFormula (← system.text)

/-- A child element that may be missing. -/
def readOptional {α : Type} (read : String → Option α) (elem : Element) (tag : String) :
    Option (Option α) :=
  match elem.find tag with
  | none => some none
  | some child => (child.text.bind read).map some

/-- The request is for the export of a collection as XML. -/
def isExport (header staticVars : Element) : Bool :=
  (header.find "VERSION").bind Element.text == some "1" &&
    (header.find "TALLYREQUEST").bind Element.text == some "Export" &&
    (header.find "TYPE").bind Element.text == some "Collection" &&
    (staticVars.find "SVEXPORTFORMAT").bind Element.text == some "$$SysName:XML"

/-- What such a request says. -/
def readCollectionRequest (root : Element) : Option CollectionRequest := do
  let header ← root.find "HEADER"
  let desc ← (root.find "BODY").bind (·.find "DESC")
  let staticVars ← desc.find "STATICVARIABLES"
  let message ← (desc.find "TDL").bind (·.find "TDLMESSAGE")
  let collection ← message.find "COLLECTION"
  let collectionName ← (header.find "ID").bind Element.text
  let entityName ← textBefore " Collection" collectionName
  let currentCompany ← readOptional some staticVars "SVCURRENTCOMPANY"
  let fromDate ← readOptional readDay staticVars "SVFROMDATE"
  let toDate ← readOptional readDay staticVars "SVTODATE"
  let objectType ← (collection.find "TYPE").bind Element.text
  let filterNames ← (collection.findall "FILTER").mapM Element.text
  let filters ← filterNames.mapM (readFilter message)
  let fetch ← (collection.findall "FETCH").mapM Element.text
  if isExport header staticVars && collection.get "NAME" == some collectionName then
    some { entityName, currentCompany, fromDate, toDate, objectType, filters, fetch }
  else none

end TallyConnector
