import TallyConnector.World.Site

/-! # The delivery protocol

The connector without its control flow: a transition system over the world
whose steps are single effects, each under the condition that makes it
sensible. `Sync/Refinement.lean` shows that every run of the code, with any
failures and crashes, is a run of this system; the invariants of the runs are
then proved here, one step at a time.
-/

namespace TallyConnector

open Tables

variable {δ : Type}

/-- A record that can be pushed: its entity is registered and mapped, the
record is valid and has a usable natural key. -/
structure Item (engine : SyncEngine δ) where
  spec : EntitySpec
  me : MappingEntry
  raw : Record
  model : Model
  key : String
  hspec : spec ∈ engine.registry.specs
  hme : engine.mapping.entry spec.name = some me
  hmodel : toModel raw spec = .ok model
  hkey : model.usableKey spec = some key

/-- No POST was applied since the last answered GET. -/
def polledSincePost : List Event → Bool
  | [] => false
  | .polled _ _ :: _ => true
  | .posted .. :: _ => false
  | _ :: log => polledSincePost log

/-- Frappe applied a POST or a PUT of the payload of the push, to the document
that the push is recorded with. -/
def Push.Served (push : Push) (w : World δ) : Prop :=
  ∃ name, push.frappeName = .str name ∧ (.posted push.doctype name push.payload ∈ w.log ∨
    .put push.doctype name push.payload ∈ w.log)

theorem Push.Served.mono {push : Push} {w w' : World δ} (h : push.Served w)
    (hlog : w.log ⊆ w'.log) : push.Served w' := by
  obtain ⟨name, hname, hserved⟩ := h
  exact ⟨name, hname, hserved.imp (@hlog _) (@hlog _)⟩

namespace Item

variable {engine : SyncEngine δ} (item : Item engine)

def payload : Dict := item.me.apply item.model.dump

def push (frappeName : Json) : Push :=
  SyncEngine.pushOf item.spec item.me item.model item.key frappeName

def cacheKey : CacheKey := engine.cacheKey item.spec.name item.key

def contentHash : δ := engine.contentHash item.payload

def doctype : String := item.me.frappeDoctype

/-- The Frappe field of the natural key. -/
def keyField : String := item.me.keyField item.spec.naturalKeyField

/-- The documents carrying the item's key. -/
def carriers (docs : List Doc) : List Doc :=
  TallyConnector.carriers docs item.doctype item.keyField (.str item.key)

/-- A document of this name holds the payload. -/
def Stored (name : String) (w : World δ) : Prop :=
  ∃ doc ∈ w.docs, doc.doctype = item.doctype ∧ doc.name = name ∧ doc.Holds item.payload

/-- The record was in the last fetch. -/
def Fetched (w : World δ) : Prop :=
  ∃ fetch records, w.fetched = some fetch ∧ fetch.request.entityName = item.spec.name ∧
    engine.recordsOf item.spec fetch.outcome = .ok records ∧ item.raw ∈ records

/-- The record is the payload of a queued row. -/
def Queued (w : World δ) : Prop :=
  ∃ row ∈ w.db.retryQueue.rows,
    row.key.entityName = item.spec.name ∧ row.val.payloadJson = item.raw

/-- Where the records that are pushed come from. -/
def Source (w : World δ) : Prop := item.Fetched w ∨ item.Queued w

/-- The payload was acknowledged, or skipped as unchanged. -/
def Delivered (w : World δ) : Prop :=
  (∃ name, item.push name ∈ w.pushes) ∨
    ∃ name docs, Event.skipped (item.push name) docs ∈ w.log

/-- A POST is not known to make a second document: the last GET, if it came
after the last POST, found none. -/
def Unposted (w : World δ) : Prop :=
  polledSincePost w.log = true → (∀ doc ∈ w.docs, doc.name ≠ "") → item.carriers w.docs = []

theorem keyOf_raw : item.spec.keyOf item.raw = some item.key := by
  simp [EntitySpec.keyOf, item.hmodel, item.hkey]

theorem entityName_me : item.me.entityName = item.spec.name :=
  engine.mapping.named _ _ item.hme

/-- The key `find_existing` looks under. -/
theorem cacheKey_me :
    (⟨item.me.entityName, item.key, engine.frappe.baseUrl⟩ : CacheKey) = item.cacheKey := by
  rw [item.entityName_me]
  rfl

/-- Items with one cache row are of one entity and one natural key. -/
theorem cacheKey_inj {item item' : Item engine} (h : item.cacheKey = item'.cacheKey) :
    item.spec = item'.spec ∧ item.key = item'.key := by
  have hkeys := (CacheKey.mk.injEq ..).mp h
  exact ⟨engine.registry.eq_of_name item.hspec item'.hspec hkeys.1, hkeys.2.1⟩

/-- The mapping of an item is the one of its entity. -/
theorem me_of_spec {spec : EntitySpec} {me : MappingEntry} (hspec : item.spec = spec)
    (hme : engine.mapping.entry spec.name = some me) : item.me = me := by
  have hitem := item.hme
  rw [hspec, hme] at hitem
  exact (Option.some.inj hitem).symm

/-- Two items of one record are the same. -/
theorem eq_of_raw {item item' : Item engine} (hspec : item.spec = item'.spec)
    (hraw : item.raw = item'.raw) : item = item' := by
  obtain ⟨spec, me, raw, model, key, _, hme, hmodel, hkey⟩ := item
  obtain ⟨spec', me', raw', model', key', _, hme', hmodel', hkey'⟩ := item'
  cases hspec
  cases hraw
  cases hme.symm.trans hme'
  cases hmodel.symm.trans hmodel'
  cases hkey.symm.trans hkey'
  rfl

end Item

/-- The record is valid and has a natural key, and its entity is mapped. -/
def SyncEngine.Pushable (engine : SyncEngine δ) (spec : EntitySpec) (raw : Record) : Prop :=
  ∃ item : Item engine, item.spec = spec ∧ item.raw = raw

theorem pushable_iff {engine : SyncEngine δ} {spec : EntitySpec} {raw : Record}
    (hspec : spec ∈ engine.registry.specs) :
    engine.Pushable spec raw ↔
      (spec.keyOf raw).isSome ∧ (engine.mapping.entry spec.name).isSome := by
  constructor
  · rintro ⟨item, rfl, rfl⟩
    simp [item.keyOf_raw, item.hme]
  · rintro ⟨hkey, hmapped⟩
    obtain ⟨me, hme⟩ := Option.isSome_iff_exists.mp hmapped
    obtain ⟨key, hkey⟩ := Option.isSome_iff_exists.mp hkey
    unfold EntitySpec.keyOf at hkey
    split at hkey
    · next model hmodel =>
      exact ⟨⟨spec, me, raw, model, key, hspec, hme, hmodel, hkey⟩, rfl, rfl⟩
    · cases hkey

namespace World

/-- A `sync_cache` row is written. -/
def setCache (w : World δ) (key : CacheKey) (row : CacheRow δ) : World δ :=
  { w with
    db := { w.db with syncCache := Function.update w.db.syncCache key (some row) }
    log := .cached key :: w.log }

/-- A record is queued under a key. -/
def enqueue (w : World δ) (key : RetryKey) (data : RetryData) : World δ :=
  { w with
    fetched := w.fetched.map (·.enqueue data.payloadJson)
    db := { w.db with
      retryQueue := w.db.retryQueue.upsert key { data with attemptCount := 0 }
        data.onConflict } }

/-- A queued row is deleted. -/
def settle (w : World δ) (id : Nat) : World δ :=
  { w with db := { w.db with retryQueue := w.db.retryQueue.delete id } }

/-- A queued row is put off. -/
def reschedule (w : World δ) (id : Nat) (error nextAttemptAt : String) : World δ :=
  { w with
    db := { w.db with
      retryQueue := w.db.retryQueue.update id fun old => { old with
        attemptCount := old.attemptCount + 1
        lastError := some error
        nextAttemptAt := nextAttemptAt } } }

/-- The `sync_state` row of an entity is written. -/
def checkpoint (w : World δ) (entityName : String) (row : SyncStateRow) : World δ :=
  { w with
    db := { w.db with syncState := Function.update w.db.syncState entityName (some row) } }

/-- After queueing there is a row of the key with the record. -/
theorem exists_row_enqueue (w : World δ) (key : RetryKey) (data : RetryData) :
    ∃ row ∈ (w.enqueue key data).db.retryQueue.rows,
      row.key = key ∧ row.val.payloadJson = data.payloadJson := by
  obtain ⟨row, hrow, hkey⟩ := AutoTable.exists_mem_upsert w.db.retryQueue key
    { data with attemptCount := 0 } data.onConflict
  refine ⟨row, hrow, hkey, ?_⟩
  rcases AutoTable.of_mem_upsert hrow hkey with ⟨_, _, _, rfl⟩ | rfl <;> rfl

/-- A row after queueing is a row of the key with the record, or an old row of
another key. -/
theorem of_mem_enqueue {w : World δ} {key : RetryKey} {data : RetryData} {row : RetryRow}
    (h : row ∈ (w.enqueue key data).db.retryQueue.rows) :
    (row.key = key ∧ row.val.payloadJson = data.payloadJson) ∨
      row ∈ w.db.retryQueue.rows := by
  by_cases hkey : row.key = key
  · left
    refine ⟨hkey, ?_⟩
    rcases AutoTable.of_mem_upsert h hkey with ⟨_, _, _, rfl⟩ | rfl <;> rfl
  · exact .inr ((AutoTable.mem_upsert_of_ne hkey).mp h)

/-- Putting a row off keeps its key and its record. -/
theorem of_mem_reschedule {w : World δ} {id : Nat} {error nextAttemptAt : String}
    {row : RetryRow} (h : row ∈ (w.reschedule id error nextAttemptAt).db.retryQueue.rows) :
    ∃ old ∈ w.db.retryQueue.rows,
      row.key = old.key ∧ row.val.payloadJson = old.val.payloadJson := by
  obtain ⟨old, hold, rfl⟩ := AutoTable.mem_update.mp h
  refine ⟨old, hold, ?_⟩
  split <;> exact ⟨rfl, rfl⟩

end World

namespace SyncEngine

variable (engine : SyncEngine δ)

/-- A fetched record needs nothing more from its sync: it can never be
pushed, its payload was delivered, or it was queued. -/
def Handled (spec : EntitySpec) (raw : Record) (w : World δ) : Prop :=
  spec.keyOf raw = none ∨
    (∃ item : Item engine, item.spec = spec ∧ item.raw = raw ∧ item.Delivered w) ∨
    ∃ fetch, w.fetched = some fetch ∧ raw ∈ fetch.queued

/-- A queued row needs no further push, if its entity is mapped at all. -/
def Settled (row : RetryRow) (w : World δ) : Prop :=
  ∀ spec ∈ engine.registry.specs, spec.name = row.key.entityName →
    (engine.mapping.entry spec.name).isSome →
      spec.keyOf row.val.payloadJson = none ∨
        ∃ item : Item engine, item.spec = spec ∧ item.raw = row.val.payloadJson ∧
          item.Delivered w

/-- The running maximum over the fetched records. -/
def seen (spec : EntitySpec) (maxAlterId : Option Int) (raw : Record) : Option Int :=
  match toModel raw spec with
  | .ok model => bumpMax maxAlterId model.alterId
  | .error _ => maxAlterId

theorem seen_of_ok {spec : EntitySpec} {since : Option Int} {raw : Record} {model : Model}
    (hmodel : toModel raw spec = .ok model) :
    seen spec since raw = bumpMax since model.alterId := by
  simp only [seen, hmodel]

theorem seen_of_error {spec : EntitySpec} {since : Option Int} {raw : Record} {exc : Exn}
    (hmodel : toModel raw spec = .error exc) : seen spec since raw = since := by
  simp only [seen, hmodel]

/-- A checkpoint after a failed fetch, or after a fetch all of whose records
are handled. -/
def Covered (spec : EntitySpec) (since : Option Int) (dateFrom dateTo : Option Date)
    (lastAlterId : Option Int) (w : World δ) : Prop :=
  lastAlterId = since ∨
    ∃ fetch records, w.fetched = some fetch ∧
      fetch.request = engine.collectionRequest spec since dateFrom dateTo ∧
      engine.recordsOf spec fetch.outcome = .ok records ∧
      lastAlterId = records.foldl (seen spec) since ∧
      ((engine.mapping.entry spec.name).isSome →
        ∀ raw ∈ records, engine.Handled spec raw w)

/-- The steps of the protocol. -/
inductive Step (ops : Operation → Prop) (allow : Assumed δ) : World δ → World δ → Prop
  | edit {w : World δ} (company : Company) (hev : w.tally.Evolves company)
      (hwf : company.WellFormed engine.registry) : Step ops allow w (w.setTally company)
  | count {w : World δ} (result : EntitySyncResult) :
      Step ops allow w { w with result := result }
  | fetch {w : World δ} (request : CollectionRequest) (outcome : TallyOutcome)
      (ha : allow (.tally request) (.tally outcome) w) :
      Step ops allow w { w with fetched := some { request, outcome, company := w.tally } }
  | poll {w : World δ} (doctype : String) (filters : List (String × Json)) :
      Step ops allow w { w with log := .polled doctype filters :: w.log }
  | post {w : World δ} (item : Item engine) (name : String) (choice : Choice)
      (hsource : item.Source w) (hfresh : FreshName w.docs item.doctype name)
      (hunposted : item.Unposted w)
      (hchoice : (∃ outcome, choice = .lose name outcome) ∨ ∃ order, choice = .serve name order)
      (ha : allow (.frappe (.post engine.frappe.baseUrl item.doctype item.payload)) choice w) :
      Step ops allow w (w.post item.doctype name item.payload)
  | put {w : World δ} (item : Item engine) (row : CacheRow δ) (hsource : item.Source w)
      (hrow : w.db.syncCache item.cacheKey = some row)
      (hdoc : hasDoc w.docs item.doctype row.frappeName = true) :
      Step ops allow w (w.put item.doctype row.frappeName item.payload)
  | ack {w : World δ} (item : Item engine) (name : Json) (op : ResultOp)
      (hsource : item.Source w)
      (hop : op = .created (item.push name) ∨ op = .updated (item.push name))
      (hserved : (item.push name).Served w)
      (ha : allow (.result op) .inMemory w) :
      Step ops allow w { w with pushes := item.push name :: w.pushes }
  | skip {w : World δ} (item : Item engine) (row : CacheRow δ)
      (hrow : w.db.syncCache item.cacheKey = some row)
      (hhash : row.contentHash = some item.contentHash)
      (ha : allow (.result (.unchanged (item.push (.str row.frappeName)))) .inMemory w) :
      Step ops allow w
        { w with log := .skipped (item.push (.str row.frappeName)) w.docs :: w.log }
  | remember {w : World δ} (item : Item engine) (name lastPushedAt : String)
      (hdoc : ∃ doc ∈ item.carriers w.docs, doc.name = name) :
      Step ops allow w (w.setCache item.cacheKey ⟨name, item.doctype, none, lastPushedAt⟩)
  | save {w : World δ} (item : Item engine) (name lastPushedAt : String)
      (hack : item.push (.str name) ∈ w.pushes)
      (hstored : item.Stored name w) :
      Step ops allow w
        (w.setCache item.cacheKey ⟨name, item.doctype, some item.contentHash, lastPushedAt⟩)
  | enqueue {w : World δ} (item : Item engine) (guid : String) (data : RetryData)
      (hfetched : item.Fetched w)
      (hguid : bindTextNotNull "retry_queue.record_guid" (recordGuid item.spec item.raw) =
        .ok guid)
      (hpayload : data.payloadJson = item.raw) :
      Step ops allow w (w.enqueue ⟨item.spec.name, guid, "create"⟩ data)
  | settle {w : World δ} (id : Nat)
      (hsettled : ∀ row ∈ w.db.retryQueue.rows, row.id = id → engine.Settled row w) :
      Step ops allow w (w.settle id)
  | reschedule {w : World δ} (id : Nat) (error nextAttemptAt : String) :
      Step ops allow w (w.reschedule id error nextAttemptAt)
  | checkpoint {w : World δ} (spec : EntitySpec) (since : Option Int)
      (dateFrom dateTo : Option Date) (row : SyncStateRow)
      (hspec : spec ∈ engine.registry.specs)
      (hsince : since = none ∨ since = w.db.lastAlterId spec.name)
      (hrange : (dateFrom = none ∧ dateTo = none) ∨
        ops (.resyncEntity spec.name dateFrom dateTo))
      (hcovered : engine.Covered spec since dateFrom dateTo row.lastAlterId w) :
      Step ops allow w (w.checkpoint spec.name row)

end SyncEngine

end TallyConnector
