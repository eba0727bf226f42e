import TallyConnector.Tally.XmlBuilder

/-! # Collection responses

`tally/xml_parser.py`. The document tree is what lxml delivers; turning bytes
into a tree is lxml's and stays a parameter (`fromstring`). Field names and
object types are ASCII, as all those of the registry are: `upper` and `lower`
are those of ASCII letters.

The regular expressions are written as scanners over the text: a scanner
looks at the rest of the text at every position, and after a match counts
down the characters the match has consumed (`skip`), so matches are leftmost
and do not overlap.
-/

namespace TallyConnector

/-- An element: tag, attributes, the text before its first child, children. -/
inductive Element where
  | mk (tag : String) (attrs : List (String × String)) (text : Option String)
      (children : List Element)

namespace Element

def tag : Element → String
  | .mk tag _ _ _ => tag

def text : Element → Option String
  | .mk _ _ text _ => text

def children : Element → List Element
  | .mk _ _ _ children => children

/-- `element.get(name)` -/
def get : Element → String → Option String
  | .mk _ attrs _ _, name => attrs.lookup name

/-- `element.find(tag)`: the first child with that tag. -/
def find (elem : Element) (tag : String) : Option Element :=
  elem.children.find? fun child => child.tag == tag

/-- `element.findall(tag)`: the children with that tag. -/
def findall (elem : Element) (tag : String) : List Element :=
  elem.children.filter fun child => child.tag == tag

mutual

/-- All elements below this one, in document order. -/
def descendants : Element → List Element
  | .mk _ _ _ children => descendantsOf children

def descendantsOf : List Element → List Element
  | [] => []
  | child :: rest => child :: (descendants child ++ descendantsOf rest)

end

/-- `element.findall(".//tag")` -/
def findallBelow (elem : Element) (tag : String) : List Element :=
  elem.descendants.filter fun child => child.tag == tag

end Element

/-! ## Text -/

/-- The characters `str.strip()` removes. -/
def isPySpace (c : Char) : Bool :=
  let n := c.toNat
  (9 ≤ n && n ≤ 13) || (28 ≤ n && n ≤ 32) || n == 0x85 || n == 0xA0 || n == 0x1680 ||
    (0x2000 ≤ n && n ≤ 0x200A) || n == 0x2028 || n == 0x2029 || n == 0x202F ||
    n == 0x205F || n == 0x3000

/-- `s.strip()` -/
def pyStrip (s : String) : String :=
  String.ofList ((s.toList.dropWhile isPySpace).reverse.dropWhile isPySpace).reverse

/-- `s.upper()` on ASCII text. -/
def pyUpper (s : String) : String := String.ofList (s.toList.map Char.toUpper)

/-- `s.lower()` on ASCII text. -/
def pyLower (s : String) : String := String.ofList (s.toList.map Char.toLower)

/-- `_ACRONYM_BOUNDARY.sub(r"\1_\2", …)`, the pattern being
`(.)([A-Z][a-z]+)`. -/
def acronymBoundary (skip : Nat) : List Char → List Char
  | [] => []
  | c :: cs =>
      match skip with
      | n + 1 => c :: acronymBoundary n cs
      | 0 =>
          let lower := (cs.drop 1).takeWhile Char.isLower
          if c != '\n' && (cs.head?.any Char.isUpper) && !lower.isEmpty then
            c :: '_' :: acronymBoundary (lower.length + 1) cs
          else
            c :: acronymBoundary 0 cs

/-- `_LOWER_UPPER_BOUNDARY.sub(r"\1_\2", …)`, the pattern being
`([a-z0-9])([A-Z])`. -/
def lowerUpperBoundary (skip : Nat) : List Char → List Char
  | [] => []
  | c :: cs =>
      match skip with
      | n + 1 => c :: lowerUpperBoundary n cs
      | 0 =>
          if (c.isLower || c.isDigit) && cs.head?.any Char.isUpper then
            c :: '_' :: lowerUpperBoundary 1 cs
          else
            c :: lowerUpperBoundary 0 cs

def pascalToSnake (name : String) : String :=
  let step1 := acronymBoundary 0 name.toList
  pyLower (String.ofList (lowerUpperBoundary 0 step1))

abbrev Bytes := List UInt8

/-- How many bytes `_CONTROL_CHAR_ENTITY_PATTERN`
(`&#(?:[0-8]|1[124-9]|2[0-9]|3[01]);`) matches at the start, `0` for none. -/
def controlCharEntity : Bytes → Nat
  | 0x26 :: 0x23 :: a :: rest =>
      match rest with
      | b :: rest' =>
          if b == 0x3B then
            if 0x30 ≤ a && a ≤ 0x38 then 4 else 0
          else
            let two :=
              (a == 0x31 && (b == 0x31 || b == 0x32 || (0x34 ≤ b && b ≤ 0x39))) ||
              (a == 0x32 && 0x30 ≤ b && b ≤ 0x39) ||
              (a == 0x33 && (b == 0x30 || b == 0x31))
            if two && rest'.head? == some 0x3B then 5 else 0
      | [] => 0
  | _ => 0

/-- `_CONTROL_CHAR_ENTITY_PATTERN.sub(b"", …)` -/
def scrubControlChars (skip : Nat) : Bytes → Bytes
  | [] => []
  | b :: bs =>
      match skip with
      | n + 1 => scrubControlChars n bs
      | 0 =>
          match controlCharEntity (b :: bs) with
          | 0 => b :: scrubControlChars 0 bs
          | n + 1 => scrubControlChars n bs

/-! ## Rows -/

/-- `d[key] = value` on a dictionary in insertion order. -/
def setItem (d : List (String × String)) (key value : String) : List (String × String) :=
  if d.any (·.1 == key) then d.map fun kv => if kv.1 == key then (key, value) else kv
  else d ++ [(key, value)]

def rowTag (spec : EntitySpec) : String := pyUpper spec.tallyObjectType

/-- `_field_value(row, field_name)` -/
def fieldValue (row : Element) (fieldName : String) : Option String :=
  let tag := pyUpper fieldName
  match (row.find tag).bind Element.text with
  | some text => nonEmpty (some (pyStrip text))
  | none => (row.get tag).bind fun attr => nonEmpty (some (pyStrip attr))

/-- `_extract_fields(row, fields)` -/
def extractFields (row : Element) (fields : List String) : List (String × String) :=
  fields.foldl (fun result fieldName =>
    match fieldValue row fieldName with
    | some value => setItem result (pascalToSnake fieldName) value
    | none => result) []

/-- `_extract_entry_list(row, list_tag, fields)`: entries without any of the
fields are dropped. -/
def extractEntryList (row : Element) (listTag : String) (fields : List String) :
    List (List (String × String)) :=
  ((row.findall listTag).map fun entry => extractFields entry fields).filter
    fun entry => !entry.isEmpty

/-- An entry list as the value of a record. -/
def entriesJson (entries : List (List (String × String))) : Json :=
  .list (entries.map fun entry => .obj (entry.map fun kv => (kv.1, .str kv.2)))

/-- The body of the row loop of `parse_collection_response`. -/
def parseRow (spec : EntitySpec) (row : Element) : Record :=
  let record : Record := (extractFields row spec.fetchFields).foldl
    (fun record kv => record.insert kv.1 (.str kv.2)) ∅
  let record :=
    match nonEmpty (row.get "NAME") with
    | some nameAttr =>
        if (record.lookup "name").isSome then record
        else record.insert "name" (.str (pyStrip nameAttr))
    | none => record
  if spec.isVoucher then
    let record := record.insert "voucher_type" <|
      match nonEmpty spec.voucherTypeFilter with
      | some name => .str name
      | none => (record.lookup "voucher_type_name").getD (.str "")
    let record :=
      match nonEmptyList spec.ledgerEntriesFields with
      | some fields => record.insert "ledger_entries"
          (entriesJson (extractEntryList row "ALLLEDGERENTRIES.LIST" fields))
      | none => record
    match nonEmptyList spec.inventoryEntriesFields with
    | some fields => record.insert "inventory_entries"
        (entriesJson (extractEntryList row "ALLINVENTORYENTRIES.LIST" fields))
    | none => record
  else record

/-- `parse_collection_response(xml_bytes, spec)`; `fromstring` is lxml's. -/
def parseCollectionResponse (fromstring : Bytes → Except String Element)
    (xmlBytes : Bytes) (spec : EntitySpec) : Except Exn (List Record) :=
  match fromstring (scrubControlChars 0 xmlBytes) with
  | .error exc => .error ⟨.tallyXMLParseError,
      "Could not parse Tally response for entity '" ++ spec.name ++ "': " ++ exc⟩
  | .ok root => .ok ((root.findallBelow (rowTag spec)).map (parseRow spec))

end TallyConnector
