import TallyConnector.Calls

/-! # StateStore

The methods of `sync/state_store.py`. Every `_now()` is a reading of the
clock; the statements are in `Sync/Schema.lean`.
-/

namespace TallyConnector

open Effects

/-- The store talks to the database; `ext` formats its timestamps. -/
structure StateStore (δ : Type) where
  ext : External δ

namespace StateStore

variable {δ : Type} (store : StateStore δ)

/-- `_now()` -/
def now : Py δ String := do
  let t ← clock
  pure (store.ext.isoformat t)

def getLastSync (_store : StateStore δ) (entityName : String) :
    Py δ (Option SyncStateRow) :=
  sql (.selectSyncState entityName)

def updateLastSync (entityName : String) (lastAlterId : Option Int) (status : String) :
    Py δ Unit := do
  let lastSyncedAt ← store.now
  let updatedAt ← store.now
  sql (.upsertSyncState entityName ⟨lastSyncedAt, lastAlterId, status, updatedAt⟩)

def enqueueRetry (entityName : String) (recordGuid : Json) (operation : String)
    (payloadJson : Record) (error : String) : Py δ Unit := do
  let nextAttemptAt ← store.now
  let createdAt ← store.now
  sql (.upsertRetry entityName recordGuid operation payloadJson nextAttemptAt (some error)
    createdAt)

def dequeueDueRetries (limit : Int) : Py δ (List RetryRow) := do
  let now ← store.now
  sql (.selectDue now limit)

def markRetrySuccess (_store : StateStore δ) (retryId : Nat) : Py δ Unit := sql (.deleteRetry retryId)

def markRetryFailed (_store : StateStore δ) (retryId : Nat) (error nextAttemptAt : String) :
    Py δ Unit :=
  sql (.failRetry retryId error nextAttemptAt)

def getCachedFrappeName (_store : StateStore δ) (key : CacheKey) : Py δ (Option String) := do
  let row ← sql (.selectCache key)
  pure (Option.map CacheRow.frappeName row)

def getCacheEntry (_store : StateStore δ) (key : CacheKey) : Py δ (Option (CacheRow δ)) :=
  sql (.selectCache key)

def upsertCache (key : CacheKey) (frappeName : Json) (frappeDoctype : String)
    (contentHash : Option δ) : Py δ Unit := do
  let lastPushedAt ← store.now
  sql (.upsertCache key frappeName frappeDoctype contentHash lastPushedAt)

end StateStore

end TallyConnector
