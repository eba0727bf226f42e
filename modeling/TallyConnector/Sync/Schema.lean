import Mathlib.Logic.Function.Basic
import TallyConnector.Models.EntitySpec
import TallyConnector.Tables.AutoTable

/-! # The state database

`_SCHEMA` of `sync/state_store.py` and the statements the `StateStore`
methods execute. Each statement is one transaction: it takes effect as a
whole or, when a constraint or a binding fails, not at all.

`δ` is the type of content digests; the placeholder `""` that `find_existing`
writes is `none`, which no digest equals. A stored `payload_json` is kept as
the record it encodes.
-/

namespace TallyConnector

open Tables

structure SyncStateRow where
  lastSyncedAt : String
  lastAlterId : Option Int
  status : String
  updatedAt : String
deriving DecidableEq, Repr

/-- `UNIQUE(entity_name, record_guid, operation)` -/
structure RetryKey where
  entityName : String
  recordGuid : String
  operation : String
deriving DecidableEq, Repr

/-- The other columns of `retry_queue`, the id apart. -/
structure RetryData where
  payloadJson : Record
  attemptCount : Nat
  nextAttemptAt : String
  lastError : Option String
  createdAt : String

abbrev RetryRow := Row RetryKey RetryData

/-- The `DO UPDATE SET` of `enqueue_retry`. -/
def RetryData.onConflict (excluded old : RetryData) : RetryData :=
  { old with
    payloadJson := excluded.payloadJson
    attemptCount := old.attemptCount + 1
    nextAttemptAt := excluded.nextAttemptAt
    lastError := excluded.lastError }

/-- `PRIMARY KEY (entity_name, tally_guid, frappe_base_url)` -/
structure CacheKey where
  entityName : String
  tallyGuid : String
  frappeBaseUrl : String
deriving DecidableEq, Repr

structure CacheRow (δ : Type) where
  frappeName : String
  frappeDoctype : String
  contentHash : Option δ
  lastPushedAt : String

structure DB (δ : Type) where
  syncState : String → Option SyncStateRow
  retryQueue : AutoTable RetryKey RetryData
  syncCache : CacheKey → Option (CacheRow δ)

/-- A fresh database file. -/
def DB.empty {δ : Type} : DB δ where
  syncState := fun _ => none
  retryQueue := .empty
  syncCache := fun _ => none

inductive Stmt (δ : Type) where
  | selectSyncState (entityName : String)
  | upsertSyncState (entityName : String) (row : SyncStateRow)
  | upsertRetry (entityName : String) (recordGuid : Json) (operation : String)
      (payloadJson : Record) (nextAttemptAt : String) (error : Option String)
      (createdAt : String)
  | selectDue (now : String) (limit : Int)
  | deleteRetry (retryId : Nat)
  | failRetry (retryId : Nat) (error : String) (nextAttemptAt : String)
  | selectCache (key : CacheKey)
  | upsertCache (key : CacheKey) (frappeName : Json) (frappeDoctype : String)
      (contentHash : Option δ) (lastPushedAt : String)

/-- What a statement returns. -/
def Stmt.Result {δ : Type} : Stmt δ → Type
  | .selectSyncState _ => Option SyncStateRow
  | .selectDue _ _ => List RetryRow
  | .selectCache _ => Option (CacheRow δ)
  | _ => Unit

/-- Binding an int: SQLite integers have 64 bits. -/
def fitsInt64 (n : Int) : Bool := -2 ^ 63 ≤ n && n < 2 ^ 63

def intOverflow : Exn := ⟨.overflowError, "Python int too large to convert to SQLite INTEGER"⟩

/-- Binding a value to a TEXT column; numbers get the column's affinity. A
float is taken to be stored by its `repr`, and NaN is stored as NULL. -/
def bindText : Json → Except Exn (Option String)
  | .null => .ok none
  | .str s => .ok (some s)
  | .int n => if fitsInt64 n then .ok (some (toString n)) else .error intOverflow
  | .float text => .ok (if text = "nan" then none else some text)
  | .bool b => .ok (some (if b then "1" else "0"))
  | .list _ | .obj _ => .error ⟨.programmingError, "Error binding parameter: type is not supported"⟩

/-- Binding a value to a TEXT NOT NULL column. -/
def bindTextNotNull (column : String) (value : Json) : Except Exn String :=
  match bindText value with
  | .error exc => .error exc
  | .ok none => .error ⟨.integrityError, "NOT NULL constraint failed: " ++ column⟩
  | .ok (some s) => .ok s

@[simp] theorem bindTextNotNull_str (column s : String) :
    bindTextNotNull column (.str s) = .ok s := rfl

/-- `SELECT * FROM retry_queue WHERE next_attempt_at <= now ORDER BY id
LIMIT limit`; a negative limit is no limit. -/
def dueRows (queue : AutoTable RetryKey RetryData) (now : String) (limit : Int) : List RetryRow :=
  let due := queue.rows.filter fun row => row.val.nextAttemptAt ≤ now
  if limit < 0 then due else due.take limit.toNat

theorem dueRows_sublist (queue : AutoTable RetryKey RetryData) (now : String) (limit : Int) :
    (dueRows queue now limit).Sublist queue.rows := by
  unfold dueRows
  split
  · exact List.filter_sublist
  · exact (List.take_sublist _ _).trans List.filter_sublist

namespace DB

variable {δ : Type}

/-- Execute a statement and commit. -/
def exec (db : DB δ) : (stmt : Stmt δ) → Except Exn (stmt.Result × DB δ)
  | .selectSyncState entityName => .ok (db.syncState entityName, db)
  | .upsertSyncState entityName row =>
      if row.lastAlterId.all fitsInt64 then
        .ok ((), { db with syncState := Function.update db.syncState entityName (some row) })
      else .error intOverflow
  | .upsertRetry entityName recordGuid operation payloadJson nextAttemptAt error createdAt =>
      match bindTextNotNull "retry_queue.record_guid" recordGuid with
      | .error exc => .error exc
      | .ok guid =>
          let row : RetryData := ⟨payloadJson, 0, nextAttemptAt, error, createdAt⟩
          .ok ((), { db with
            retryQueue := db.retryQueue.upsert ⟨entityName, guid, operation⟩ row
              row.onConflict })
  | .selectDue now limit =>
      if fitsInt64 limit then .ok (dueRows db.retryQueue now limit, db) else .error intOverflow
  | .deleteRetry retryId =>
      .ok ((), { db with retryQueue := db.retryQueue.delete retryId })
  | .failRetry retryId error nextAttemptAt =>
      .ok ((), { db with
        retryQueue := db.retryQueue.update retryId fun old => { old with
          attemptCount := old.attemptCount + 1
          lastError := some error
          nextAttemptAt := nextAttemptAt } })
  | .selectCache key => .ok (db.syncCache key, db)
  | .upsertCache key frappeName frappeDoctype contentHash lastPushedAt =>
      match bindTextNotNull "sync_cache.frappe_name" frappeName with
      | .error exc => .error exc
      | .ok name =>
          .ok ((), { db with
            syncCache := Function.update db.syncCache key
              (some ⟨name, frappeDoctype, contentHash, lastPushedAt⟩) })

/-- The stored checkpoint of an entity. -/
def lastAlterId (db : DB δ) (entityName : String) : Option Int :=
  (db.syncState entityName).bind (·.lastAlterId)

end DB

end TallyConnector
