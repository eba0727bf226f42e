import TallyConnector.Models.Masters
import TallyConnector.Python.Decimal
import TallyConnector.World.Open
import TallyConnector.World.Site

/-! # A deployment that syncs groups

The `group` entity with its entry of `frappe/mapping.yaml`, between a Tally
whose responses are the given group lists and a Frappe site. The results
about all runs and all deployments are tried out on it.
-/

namespace TallyConnector

/-- Strings are stripped, and an integer is a number or decimal digits. -/
def groupPydantic : Pydantic where
  str
    | .str s => some (pyStrip s)
    | _ => none
  int
    | .int n => some n
    | .str s => if s ≠ "" ∧ s.toList.all Char.isDigit then some (ofDigits s.toList) else none
    | _ => none
  date _ := none
  decimal _ := none
  bool _ := none

theorem stripsStrings_groupPydantic : groupPydantic.StripsStrings := by
  intro value s h
  cases value with
  | str text => exact ⟨text, rfl, (Option.some.inj h).symm⟩
  | _ => cases h

theorem keepsStrings_groupPydantic : groupPydantic.KeepsStrings :=
  fun _ hstripped => congrArg some hstripped

def group : EntitySpec := groupPydantic.group

/-- The `group` entry of `frappe/mapping.yaml`. -/
def groupMapping : MappingEntry where
  entityName := "group"
  frappeDoctype := "Tally Group"
  fieldMap := [("guid", "tally_guid"), ("name", "title"), ("parent", "parent_group"),
    ("alter_id", "tally_alter_id")]
  nodup := by decide

/-- A group as Tally has it. -/
structure Group where
  guid : String
  name : String
  parent : Option String := none
  alterId : Nat
deriving DecidableEq

namespace Group

/-- The `<GROUP>` element of a response. -/
def element (g : Group) : Element :=
  .mk "GROUP" [("NAME", g.name)] none
    (.mk "GUID" [] (some g.guid) [] ::
      ((g.parent.map fun parent => Element.mk "PARENT" [] (some parent) []).toList ++
        [.mk "ALTERID" [] (some (toString g.alterId)) []]))

def xml (g : Group) : String :=
  "<GROUP NAME=\"" ++ g.name ++ "\"><GUID>" ++ g.guid ++ "</GUID>" ++
    (match g.parent with
      | some parent => "<PARENT>" ++ parent ++ "</PARENT>"
      | none => "") ++
    "<ALTERID>" ++ toString g.alterId ++ "</ALTERID></GROUP>"

/-- What the parser makes of the element. -/
def raw (g : Group) : Record :=
  let record : Record := (∅ : Record).insert "name" (Json.str g.name)
  let record := match g.parent with
    | some parent => record.insert "parent" (Json.str parent)
    | none => record
  (record.insert "guid" (Json.str g.guid)).insert "alter_id" (Json.str (toString g.alterId))

def version (g : Group) : Version where
  entityName := "group"
  alterId := g.alterId
  date := 0
  raw := g.raw

end Group

def assets : Group := { guid := "g-1", name := "Assets", alterId := 1 }

def liabilities : Group := { guid := "g-2", name := "Liabilities", alterId := 2 }

/-- The bytes of a response that lists the groups. -/
def groupPage (groups : List Group) : Bytes :=
  ascii ("<ENVELOPE>" ++ String.join (groups.map Group.xml) ++ "</ENVELOPE>")

def groupTree (groups : List Group) : Element :=
  .mk "ENVELOPE" [] none (groups.map Group.element)

/-- The libraries, as far as responses listing one of `pages` need them; the
digest of a payload is the payload. -/
def groupExternal (pages : List (List Group)) : External Dict where
  fromstring bytes :=
    match pages.find? fun groups => groupPage groups == bytes with
    | some groups => .ok (groupTree groups)
    | none => .error "Document is empty"
  isoformat instant := toString instant
  hexdigest payload := payload
  repr s := "'" ++ s ++ "'"
  strDict _ := "{}"
  decode _ := ""

/-- A mapping of the `group` entity alone. -/
def groupsOnly (me : MappingEntry) (hname : me.entityName = "group") : Mapping where
  entry name := if name = "group" then some me else none
  named := by
    intro name me' h
    split at h
    · next heq =>
      cases h
      rw [hname, heq]
    · cases h

/-- An engine for the `group` entity alone. -/
def groupEngine (retryMaxAttempts : Int) (pages : List (List Group)) : SyncEngine Dict where
  settings := { frappeBaseUrl := "https://erp.example.com", retryMaxAttempts }
  mapping := groupsOnly groupMapping rfl
  registry := { specs := [group], nodup := by decide }
  ext := groupExternal pages

theorem group_mem_specs (retryMaxAttempts : Int) (pages : List (List Group)) :
    group ∈ (groupEngine retryMaxAttempts pages).registry.specs := List.mem_cons_self

theorem contentHash_groupEngine_injective (retryMaxAttempts : Int) (pages : List (List Group)) :
    Function.Injective (groupEngine retryMaxAttempts pages).contentHash := fun _ _ h => h

/-- A company with these groups. -/
def groupCompany (groups : List Group) (lastId : Nat) : Company where
  records := groups.map Group.version
  lastId := lastId

/-- An empty site next to a fresh database. -/
def groupWorld (company : Company) : World Dict where
  db := .empty
  tally := company
  docs := []
  result := { entityName := "" }
  fetched := none
  pushes := []
  log := []

/-- A successful response listing the groups. -/
def groupResponse (groups : List Group) : Choice := .tally (.response 200 (groupPage groups))

/-! ## Good and bad records -/

/-- A group without a GUID, which no mapping can push. -/
def nameless : Group := { guid := "", name := "Nameless", alterId := 3 }

/-- The parser leaves empty elements out. -/
def nameless.parsed : Record :=
  ((∅ : Record).insert "name" (.str "Nameless")).insert "alter_id" (.str "3")

def mixedGroups : List Group := [assets, nameless, liabilities]

/-- A sync of the mixed groups: Frappe creates the first one, the second one is
dropped, and the third one is refused and queued. -/
def mixedReplies : List Reply :=
  [.done, .tally (.response 200 (groupPage mixedGroups)), .done,
    .done, .frappe (okOutcome (foundBody [])), .done, .frappe (okOutcome (savedBody "GRP-1")),
    .done, .clock 0, .done,
    .done,
    .done, .frappe (.response { status := 403, body := .empty }), .done, .clock 0, .clock 0, .done,
    .clock 0, .clock 0, .done, .done]

end TallyConnector
