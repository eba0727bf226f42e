import TallyConnector.Effects.Prog
import TallyConnector.Sync.Schema
import TallyConnector.Tally.XmlParser

/-! # The connector's calls to the outside

Everything the connector does apart from computing: reading the clock, one
HTTP request to Tally, one HTTP request to Frappe, one SQL statement. A
fifth call stands for the `EntitySyncResult` object that `_sync_entity`
creates and `_push_record` bumps; a bump of a push counter carries the push
it counts, for the history of the run.
-/

namespace TallyConnector

open Effects

/-! ## Tally -/

/-- What `requests.post` to Tally comes back with; the strings are the texts
of the exceptions. -/
inductive TallyOutcome where
  | timeout
  | connectionError (text : String)
  | requestException (text : String)
  | response (status : Nat) (content : Bytes)
deriving DecidableEq, Repr

/-! ## Frappe -/

/-- A response body: empty, or what `response.json()` makes of it. -/
inductive Body where
  | empty
  | json (value : Json)
  /-- A `ValueError`. -/
  | notJson
  /-- JSON that nests too deep: a `RecursionError` of this text. -/
  | tooDeep (text : String)
deriving DecidableEq

/-- `response.text` may fail, with a `UnicodeError` of the text that is kept:
some of the codecs that a `Content-Type` can name have no `errors="replace"`. -/
structure HttpResponse where
  status : Nat
  contentType : String := "application/json"
  text : Except String String := .ok ""
  body : Body
deriving DecidableEq

/-- What one `requests.request` to Frappe comes back with. -/
inductive HttpOutcome where
  | timeout (text : String)
  | connectionError (text : String)
  | requestException (text : String)
  | response (r : HttpResponse)
deriving DecidableEq

/-- A request to `/api/resource/<doctype>[/<name>]`. -/
inductive FrappeRequest where
  | get (baseUrl doctype : String) (filters : List (String × Json)) (fields : List String)
  | post (baseUrl doctype : String) (payload : Dict)
  | put (baseUrl doctype : String) (name : Option Json) (payload : Dict)
deriving DecidableEq

/-! ## Results -/

/-- One record version sent to Frappe, or found not to need sending. -/
structure Push where
  entityName : String
  naturalKey : String
  alterId : Option Int
  doctype : String
  frappeName : Json
  payload : Dict
deriving DecidableEq

structure EntitySyncResult where
  entityName : String
  fetched : Nat := 0
  created : Nat := 0
  updated : Nat := 0
  unchanged : Nat := 0
  failed : Nat := 0
deriving DecidableEq, Repr

/-- Operations on the current `EntitySyncResult`. -/
inductive ResultOp where
  | new (entityName : String)
  | fetched (n : Nat)
  | created (push : Push)
  | updated (push : Push)
  | unchanged (push : Push)
  | failed
  | read

/-- What a result operation does to the object. -/
def ResultOp.apply (result : EntitySyncResult) : ResultOp → EntitySyncResult
  | .new entityName => { entityName := entityName }
  | .fetched n => { result with fetched := n }
  | .created _ => { result with created := result.created + 1 }
  | .updated _ => { result with updated := result.updated + 1 }
  | .unchanged _ => { result with unchanged := result.unchanged + 1 }
  | .failed => { result with failed := result.failed + 1 }
  | .read => result

/-! ## Calls -/

inductive Call (δ : Type) where
  /-- `datetime.now(timezone.utc)`, in microseconds. -/
  | clock
  | tally (request : CollectionRequest)
  | frappe (request : FrappeRequest)
  | sql (stmt : Stmt δ)
  | result (op : ResultOp)

def Call.Resp {δ : Type} : Call δ → Type
  | .clock => Int
  | .tally _ => TallyOutcome
  | .frappe _ => HttpOutcome
  | .sql stmt => Except Exn stmt.Result
  | .result _ => EntitySyncResult

/-- Connector code. -/
abbrev Py (δ : Type) := Prog (@Call.Resp δ) Exn

section
variable {δ : Type}

def clock : Py δ Int := Prog.perform (R := Call.Resp) Call.clock

/-- Execute a statement; a database error is raised. -/
def sql (stmt : Stmt δ) : Py δ stmt.Result := do
  let r ← Prog.perform (R := Call.Resp) (.sql stmt)
  Prog.ofExcept r

def resultOp (op : ResultOp) : Py δ EntitySyncResult :=
  Prog.perform (R := Call.Resp) (.result op)

def raise {α : Type} (kind : ExnKind) (message : String) : Py δ α := throw ⟨kind, message⟩

end

/-! ## Libraries outside the repository -/

/-- The third-party and standard library functions the connector relies on. -/
structure External (δ : Type) where
  /-- `lxml.etree.fromstring`: the tree, or the text of the syntax error. -/
  fromstring : Bytes → Except String Element
  /-- `datetime.isoformat` of an instant in UTC. -/
  isoformat : Int → String
  /-- `sha256(json.dumps(payload, sort_keys=True, default=str).encode()).hexdigest()` -/
  hexdigest : Dict → δ
  /-- `repr` of a string. -/
  repr : String → String
  /-- `str` of a model dump. -/
  strDict : Dict → String
  /-- `bytes.decode("utf-8", errors="replace")` -/
  decode : Bytes → String

end TallyConnector
