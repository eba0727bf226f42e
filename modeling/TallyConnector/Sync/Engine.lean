import TallyConnector.Frappe.Dedup
import TallyConnector.Models.Registry
import TallyConnector.Sync.Backoff
import TallyConnector.Tally.Client

/-! # SyncEngine

`sync/engine.py`: one sync cycle (Tally, parse, map, dedup, Frappe) and the
drain of the retry queue. Logging is left out.
-/

namespace TallyConnector

open Effects

structure SyncEngine (δ : Type) where
  settings : Settings
  mapping : Mapping
  registry : Registry
  ext : External δ

namespace SyncEngine

variable {δ : Type} [DecidableEq δ] (engine : SyncEngine δ)

def tally : TallyClient δ := ⟨engine.settings, engine.ext⟩

def frappe : FrappeClient δ := ⟨engine.settings, engine.ext⟩

def store : StateStore δ := ⟨engine.ext⟩

/-- `_content_hash(payload)` -/
def contentHash (payload : Dict) : δ := engine.ext.hexdigest payload

/-- The cache key of a record on the engine's Frappe target. -/
def cacheKey (entityName naturalKey : String) : CacheKey :=
  ⟨entityName, naturalKey, engine.frappe.baseUrl⟩

/-! ## Pushing a record -/

/-- The push of a model under a document name. -/
def pushOf (spec : EntitySpec) (me : MappingEntry) (model : Model) (naturalKey : String)
    (frappeName : Json) : Push where
  entityName := spec.name
  naturalKey := naturalKey
  alterId := model.alterId
  doctype := me.frappeDoctype
  frappeName := frappeName
  payload := me.apply model.dump

/-- The last `if existing_name` of `_push_record`; returns `frappe_name`. -/
def sendRecord (me : MappingEntry) (naturalKey : String) (push : Json → Push)
    (payload : Dict) (existing : Json) : Py δ Json :=
  if existing.truthy then do
    let _ ← engine.frappe.update me.frappeDoctype existing payload
    let _ ← resultOp (.updated (push existing))
    pure existing
  else do
    let created ← engine.frappe.create me.frappeDoctype payload
    let frappeName ← Prog.ofExcept (pyGet created "name" (.str naturalKey))
    let _ ← resultOp (.created (push frappeName))
    pure frappeName

/-- `_push_record(spec, mapping_entry, model, result)` -/
def pushRecord (spec : EntitySpec) (me : MappingEntry) (model : Model) : Py δ Unit :=
  match model.usableKey spec with
  | none =>
      raise .tallyDataError ("'" ++ spec.name ++ "' record has no usable '" ++
        spec.naturalKeyField ++ "' value to dedupe on: " ++ engine.ext.strDict model.dump)
  | some naturalKey => do
      let payload := me.apply model.dump
      let contentHash := engine.contentHash payload
      let key := engine.cacheKey spec.name naturalKey
      let push := pushOf spec me model naturalKey
      let existing ← findExisting engine.store engine.frappe me spec.naturalKeyField naturalKey
      let cacheEntry ← engine.store.getCacheEntry key
      if existing.truthy && cacheEntry.any (·.contentHash == some contentHash) then do
        let _ ← resultOp (.unchanged (push existing))
        pure ()
      else do
        let frappeName ← engine.sendRecord me naturalKey push payload existing
        engine.store.upsertCache key frappeName me.frappeDoctype (some contentHash)

/-! ## Syncing an entity -/

/-- `record.get(spec.natural_key_field, record.get("guid", "unknown"))` -/
def recordGuid (spec : EntitySpec) (record : Record) : Json :=
  (record.lookup spec.naturalKeyField).getD ((record.lookup "guid").getD (.str "unknown"))

/-- `max(max_alter_id or 0, alter_id)` when the model has an `alter_id`. -/
def bumpMax (maxAlterId alterId : Option Int) : Option Int :=
  match alterId with
  | some n => some (max (maxAlterId.getD 0) n)
  | none => maxAlterId

/-- The `except` clauses around the push of a fetched record. -/
def pushFailed (spec : EntitySpec) (record : Record) (exc : Exn) : Py δ Unit := do
  if exc.kind = .tallyDataError then do
    let _ ← resultOp .failed
    pure ()
  else do
    let _ ← resultOp .failed
    engine.store.enqueueRetry spec.name (recordGuid spec record) "create" record exc.message

/-- The record loop of `_sync_entity`; returns the final `max_alter_id`. -/
def syncRecords (spec : EntitySpec) (mappingEntry : Option MappingEntry) :
    List Record → Option Int → Py δ (Option Int)
  | [], maxAlterId => pure maxAlterId
  | record :: records, maxAlterId =>
      match toModel record spec with
      | .error _ => do
          let _ ← resultOp .failed
          syncRecords spec mappingEntry records maxAlterId
      | .ok model => do
          let maxAlterId := bumpMax maxAlterId model.alterId
          match mappingEntry with
          | none => syncRecords spec mappingEntry records maxAlterId
          | some me => do
              tryCatch (engine.pushRecord spec me model) (engine.pushFailed spec record)
              syncRecords spec mappingEntry records maxAlterId

/-- The request of `_sync_entity`. -/
def collectionRequest (spec : EntitySpec) (sinceAlterId : Option Int)
    (dateFrom dateTo : Option Date) : CollectionRequest :=
  buildCollectionRequest spec sinceAlterId dateFrom dateTo
    (nonEmpty (some engine.settings.tallyCompany))

/-- The first `try` of `_sync_entity`: the records, or the caught exception. -/
def fetchRecords (spec : EntitySpec) (request : CollectionRequest) :
    Py δ (Except Exn (List Record)) :=
  tryCatch
    (do
      let response ← engine.tally.sendRequest request
      let records ← Prog.ofExcept (parseCollectionResponse engine.ext.fromstring response spec)
      pure (.ok records))
    fun exc => if exc.isTallyConnectorError then pure (.error exc) else throw exc

/-- `_sync_entity(spec, since_alter_id=…, date_from=…, date_to=…)` -/
def syncEntity (spec : EntitySpec) (sinceAlterId : Option Int)
    (dateFrom dateTo : Option Date) : Py δ EntitySyncResult := do
  let _ ← resultOp (.new spec.name)
  let fetched ← engine.fetchRecords spec
    (engine.collectionRequest spec sinceAlterId dateFrom dateTo)
  match fetched with
  | .error _ => do
      engine.store.updateLastSync spec.name sinceAlterId "error"
      resultOp .read
  | .ok records => do
      let _ ← resultOp (.fetched records.length)
      let maxAlterId ←
        engine.syncRecords spec (engine.mapping.entry spec.name) records sinceAlterId
      engine.store.updateLastSync spec.name maxAlterId "ok"
      resultOp .read

/-- The `since_alter_id` of a cycle. -/
def sinceAlterId (incremental : Bool) (spec : EntitySpec) : Py δ (Option Int) :=
  if incremental then do
    let last ← engine.store.getLastSync spec.name
    pure (Option.bind last SyncStateRow.lastAlterId)
  else pure none

/-- The loop of `_run_cycle`. -/
def syncEntities (incremental : Bool) : List EntitySpec → Py δ (List EntitySyncResult)
  | [] => pure []
  | spec :: specs => do
      let since ← engine.sinceAlterId incremental spec
      let result ← engine.syncEntity spec since none none
      let results ← syncEntities incremental specs
      pure (result :: results)

/-- `_run_cycle(incremental=…)` -/
def runCycle (incremental : Bool) : Py δ (List EntitySyncResult) := do
  let order ← Prog.ofExcept engine.registry.resolveSyncOrder
  engine.syncEntities incremental order

def runFullSync : Py δ (List EntitySyncResult) := engine.runCycle false

def runIncrementalSync : Py δ (List EntitySyncResult) := engine.runCycle true

def resyncEntity (entityName : String) (dateFrom dateTo : Option Date) :
    Py δ EntitySyncResult := do
  let spec ← Prog.ofExcept (engine.registry.getEntity entityName)
  engine.syncEntity spec none dateFrom dateTo

/-! ## Draining the retry queue -/

/-- `next_attempt` of a row that failed again. -/
def nextAttempt (attemptCount : Nat) : Py δ String := do
  let seconds ← Prog.ofExcept (backoffSeconds engine.settings.retryBackoffBaseSeconds attemptCount)
  let now ← clock
  let delay ← Prog.ofExcept (timedelta seconds)
  pure (engine.ext.isoformat (now + delay))

/-- The body of the `try` of `process_retry_queue`. -/
def attemptItem (spec : EntitySpec) (me : MappingEntry) (item : RetryRow) : Py δ Bool := do
  let model ← Prog.ofExcept (toModel item.val.payloadJson spec)
  let _ ← resultOp (.new spec.name)
  engine.pushRecord spec me model
  engine.store.markRetrySuccess item.id
  pure true

/-- The `except` clauses of `process_retry_queue`. -/
def attemptFailed (item : RetryRow) (exc : Exn) : Py δ Bool := do
  if exc.isPermanent then do
    engine.store.markRetrySuccess item.id
    pure false
  else do
    let nextAttemptAt ← engine.nextAttempt item.val.attemptCount
    engine.store.markRetryFailed item.id exc.message nextAttemptAt
    pure false

/-- One round of the drain; `true` when the item counts as succeeded. -/
def drainItem (item : RetryRow) : Py δ Bool := do
  let spec ← Prog.ofExcept (engine.registry.getEntity item.key.entityName)
  match engine.mapping.entry spec.name with
  | none => do
      engine.store.markRetrySuccess item.id
      pure false
  | some me => tryCatch (engine.attemptItem spec me item) (engine.attemptFailed item)

/-- The loop of `process_retry_queue`. -/
def drainItems : List RetryRow → Nat → Py δ Nat
  | [], succeeded => pure succeeded
  | item :: items, succeeded => do
      let ok ← engine.drainItem item
      drainItems items (if ok then succeeded + 1 else succeeded)

/-- `process_retry_queue(limit)` -/
def processRetryQueue (limit : Int) : Py δ Nat := do
  let due ← engine.store.dequeueDueRetries limit
  engine.drainItems due 0

end SyncEngine

/-! ## Operations -/

/-- What a user or the scheduler can ask of an engine. -/
inductive Operation where
  | fullSync
  | incrementalSync
  | resyncEntity (entityName : String) (dateFrom dateTo : Option Date)
  | processRetryQueue (limit : Int)
deriving DecidableEq, Repr

/-- The program of an operation, its result dropped. -/
def SyncEngine.prog {δ : Type} [DecidableEq δ] (engine : SyncEngine δ) :
    Operation → Py δ Unit
  | .fullSync => do
      let _ ← engine.runFullSync
      pure ()
  | .incrementalSync => do
      let _ ← engine.runIncrementalSync
      pure ()
  | .resyncEntity entityName dateFrom dateTo => do
      let _ ← engine.resyncEntity entityName dateFrom dateTo
      pure ()
  | .processRetryQueue limit => do
      let _ ← engine.processRetryQueue limit
      pure ()

end TallyConnector
