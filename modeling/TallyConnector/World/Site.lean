import TallyConnector.Effects.Machine
import TallyConnector.Sync.Engine
import TallyConnector.World.Company
import TallyConnector.World.Docs

/-! # The world around the connector

The database, the Tally company, the Frappe documents and the result object
in memory, with a history of the run: the last fetch, the pushes Frappe
acknowledged and the traffic. The history is read by no program; statements
about runs are about it.

`SyncEngine.machine` puts the connector into this world as a machine of
`Effects/Machine.lean`: every call can fail as its `Choice` says, and an HTTP
request can also be applied and its answer lost.
-/

namespace TallyConnector

open Effects

/-- A collection request that was sent: what came back, the company at that
moment, and the records queued for retry since. -/
structure Fetch where
  request : CollectionRequest
  outcome : TallyOutcome
  company : Company
  queued : List Record := []
deriving DecidableEq

def Fetch.enqueue (fetch : Fetch) (raw : Record) : Fetch :=
  { fetch with queued := raw :: fetch.queued }

/-- Traffic, and what `_push_record` reported without any. -/
inductive Event where
  /-- A GET was answered. -/
  | polled (doctype : String) (filters : List (String × Json))
  /-- A POST was applied. -/
  | posted (doctype name : String) (payload : Dict)
  /-- A PUT was applied. -/
  | put (doctype name : String) (payload : Dict)
  /-- A `sync_cache` row was written. -/
  | cached (key : CacheKey)
  /-- A push was reported as unchanged, while the documents were these. -/
  | skipped (push : Push) (docs : List Doc)

structure World (δ : Type) where
  db : DB δ
  tally : Company
  docs : List Doc
  result : EntitySyncResult
  fetched : Option Fetch
  /-- The acknowledged pushes, the latest first. -/
  pushes : List Push
  /-- The traffic, the latest first. -/
  log : List Event

namespace World

variable {δ : Type}

def setTally (w : World δ) (company : Company) : World δ := { w with tally := company }

/-- The world after an applied POST. -/
def post (w : World δ) (doctype name : String) (payload : Dict) : World δ :=
  { w with
    docs := postDoc w.docs doctype name payload
    log := .posted doctype name payload :: w.log }

/-- The world after an applied PUT. -/
def put (w : World δ) (doctype name : String) (payload : Dict) : World δ :=
  { w with
    docs := putDoc w.docs doctype name payload
    log := .put doctype name payload :: w.log }

/-- A result operation, with the history of the pushes. -/
def applyResult (w : World δ) (op : ResultOp) : World δ :=
  let w := { w with result := op.apply w.result }
  match op with
  | .created push | .updated push => { w with pushes := push :: w.pushes }
  | .unchanged push => { w with log := .skipped push w.docs :: w.log }
  | _ => w

/-- A committed statement, with the history of the cache and of the queue. -/
def commit (w : World δ) (stmt : Stmt δ) (db : DB δ) : World δ :=
  match stmt with
  | .upsertCache key _ _ _ _ => { w with db := db, log := .cached key :: w.log }
  | .upsertRetry _ _ _ payloadJson _ _ _ =>
      { w with db := db, fetched := w.fetched.map (·.enqueue payloadJson) }
  | _ => { w with db := db }

/-- A file just created, no traffic yet. -/
structure Fresh (w : World δ) : Prop where
  db : w.db = .empty
  fetched : w.fetched = none
  pushes : w.pushes = []
  log : w.log = []

end World

/-- How the environment answers a call. -/
inductive Choice where
  /-- The clock shows this instant. -/
  | clock (now : Int)
  | tally (outcome : TallyOutcome)
  /-- Frappe does not apply the request. -/
  | refuse (outcome : HttpOutcome)
  /-- Frappe applies the request, but the answer is a failure. -/
  | lose (name : String) (outcome : HttpOutcome)
  /-- Frappe answers: a new document is called `name`, matches come in the
  order `order`. -/
  | serve (name : String) (order : List Doc)
  | commit
  /-- The statement fails and is rolled back. -/
  | abort (text : String)
  /-- The only way a result operation goes. -/
  | inMemory

namespace World

variable {δ : Type}

/-- A request that Frappe answers. -/
def serve (w : World δ) (name : String) (order : List Doc) :
    FrappeRequest → Option (HttpOutcome × World δ)
  | .get _ doctype filters _ =>
      if order.Perm (matching w.docs doctype filters) then
        some (okOutcome (foundBody order), { w with log := .polled doctype filters :: w.log })
      else none
  | .post _ doctype payload =>
      if FreshName w.docs doctype name then
        some (okOutcome (savedBody name), w.post doctype name payload)
      else none
  | .put _ doctype (some (.str docname)) payload =>
      if hasDoc w.docs doctype docname then
        some (okOutcome (savedBody docname), w.put doctype docname payload)
      else some (notFoundOutcome, w)
  | .put _ _ _ _ => some (notFoundOutcome, w)

/-- A request that Frappe applies without a good answer. -/
def lose (w : World δ) (name : String) : FrappeRequest → Option (World δ)
  | .get _ _ _ _ => none
  | .post _ doctype payload =>
      if FreshName w.docs doctype name then some (w.post doctype name payload) else none
  | .put _ doctype (some (.str docname)) payload =>
      if hasDoc w.docs doctype docname then some (w.put doctype docname payload) else none
  | .put _ _ _ _ => none

end World

namespace SyncEngine

variable {δ : Type} [DecidableEq δ] (engine : SyncEngine δ)

/-- The client raises on this outcome. -/
def fails (outcome : HttpOutcome) : Bool := (engine.frappe.readOutcome outcome).toOption.isNone

def execFrappe (request : FrappeRequest) (w : World δ) :
    Choice → Option (HttpOutcome × World δ)
  | .refuse outcome => if engine.fails outcome then some (outcome, w) else none
  | .lose name outcome =>
      if engine.fails outcome then (w.lose name request).map fun w' => (outcome, w') else none
  | .serve name order => w.serve name order request
  | _ => none

def execSql (stmt : Stmt δ) (w : World δ) :
    Choice → Option (Except Exn stmt.Result × World δ)
  | .commit =>
      match w.db.exec stmt with
      | .ok (result, db) => some (.ok result, w.commit stmt db)
      | .error exc => some (.error exc, w)
  | .abort text => some (.error ⟨.operationalError, text⟩, w)
  | _ => none

/-- A call in the world. -/
def exec (e : Call δ) (choice : Choice) (w : World δ) : Option (Call.Resp e × World δ) :=
  match e with
  | .clock =>
      match choice with
      | .clock now => some (now, w)
      | _ => none
  | .tally request =>
      match choice with
      | .tally outcome =>
          some (outcome, { w with fetched := some { request, outcome, company := w.tally } })
      | _ => none
  | .frappe request => engine.execFrappe request w choice
  | .sql stmt => execSql stmt w choice
  | .result op =>
      match choice with
      | .inMemory => some ((w.applyResult op).result, w.applyResult op)
      | _ => none

/-- The connector in its world, restricted to the operations in `ops`. Tally
edits replace the company by what it evolves to. -/
def machine (ops : Operation → Prop) :
    Machine (@Call.Resp δ) Exn (World δ) { op : Operation // ops op } Company Choice where
  edit company w :=
    if w.tally.Evolves company ∧ company.WellFormed engine.registry then
      some (w.setTally company)
    else none
  exec := engine.exec
  quiet e := match e with
    | .result _ => true
    | _ => false
  prog op := engine.prog op

/-! ## The records of a fetch -/

/-- What `_sync_entity` reads out of the outcome of a fetch. -/
def recordsOf (spec : EntitySpec) (outcome : TallyOutcome) : Except Exn (List Record) :=
  match engine.tally.readOutcome outcome with
  | .ok response => parseCollectionResponse engine.ext.fromstring response spec
  | .error exc => .error exc

/-- A fetch that succeeds returns a snapshot of the company. -/
def Snapshot (fetch : Fetch) : Prop :=
  ∀ spec ∈ engine.registry.specs, spec.name = fetch.request.entityName →
    ∀ records, engine.recordsOf spec fetch.outcome = .ok records →
      records.Perm ((fetch.company.select fetch.request).map (·.raw))

instance (fetch : Fetch) : Decidable (engine.Snapshot fetch) :=
  decidable_of_iff
    (∀ spec ∈ engine.registry.specs, spec.name = fetch.request.entityName →
      ∀ records ∈ (engine.recordsOf spec fetch.outcome).toOption,
        records.Perm ((fetch.company.select fetch.request).map (·.raw)))
    (by
      refine forall_congr' fun spec => forall_congr' fun _ => forall_congr' fun _ => ?_
      cases engine.recordsOf spec fetch.outcome <;> simp [Except.toOption])

end SyncEngine

/-- What is assumed of the answers in a run. -/
abbrev Assumed (δ : Type) := Machine.Assumption (Call δ) (World δ) Choice

/-- Tally's answers are snapshots. -/
def SyncEngine.snapshots {δ : Type} (engine : SyncEngine δ) : Assumed δ :=
  fun e choice w =>
    match e, choice with
    | .tally request, .tally outcome => engine.Snapshot { request, outcome, company := w.tally }
    | _, _ => True

/-- `snapshots`, decided. -/
def SyncEngine.checkSnapshots {δ : Type} (engine : SyncEngine δ) (e : Call δ) (choice : Choice)
    (w : World δ) : Bool :=
  match e, choice with
  | .tally request, .tally outcome =>
      decide (engine.Snapshot { request, outcome, company := w.tally })
  | _, _ => true

theorem SyncEngine.snapshots_of_check {δ : Type} (engine : SyncEngine δ) (e : Call δ)
    (choice : Choice) (w : World δ) (h : engine.checkSnapshots e choice w = true) :
    engine.snapshots e choice w := by
  unfold checkSnapshots at h
  unfold snapshots
  split at h
  · exact of_decide_eq_true h
  · trivial

end TallyConnector
