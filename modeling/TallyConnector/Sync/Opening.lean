import TallyConnector.Effects.Machine
import TallyConnector.Sync.Schema
import TallyConnector.Utils.Exceptions

/-! # Opening the state database

`StateStore.__init__` and `_migrate_sync_cache_schema` of `sync/state_store.py`.
A database file may lack tables, and its `sync_cache` may be that of an older
version. Every statement is a transaction of its own: `sqlite3` begins none for
a `DROP TABLE`, and `executescript` runs a script statement by statement.
-/

namespace TallyConnector

open Effects Tables

variable {δ : Type}

/-! ## Database files -/

/-- The columns of `sync_cache`. -/
def syncCacheColumns : List String :=
  ["entity_name", "tally_guid", "frappe_base_url", "frappe_name", "frappe_doctype", "content_hash",
    "last_pushed_at"]

/-- `sync_cache` in a file. -/
inductive CacheTable (δ : Type) where
  | absent
  /-- From before `frappe_base_url` was a column; a row has a value for each
  column. -/
  | legacy (columns : List String) (rows : List (List Json)) (hne : columns ≠ [])
      (hold : "frappe_base_url" ∉ columns)
  | current (rows : CacheKey → Option (CacheRow δ))

def CacheTable.columns : CacheTable δ → List String
  | .absent => []
  | .legacy columns _ _ _ => columns
  | .current _ => syncCacheColumns

/-- What the statements of a store can find in it. -/
def CacheTable.rows : CacheTable δ → CacheKey → Option (CacheRow δ)
  | .current rows => rows
  | _ => fun _ => none

/-- The rows of a table from before. -/
def CacheTable.oldRows : CacheTable δ → List (List Json)
  | .legacy _ rows _ _ => rows
  | _ => []

def CacheTable.write (rows : CacheKey → Option (CacheRow δ)) : CacheTable δ → CacheTable δ
  | .current _ => .current rows
  | old => old

structure DbFile (δ : Type) where
  syncState : Option (String → Option SyncStateRow)
  retryQueue : Option (AutoTable RetryKey RetryData)
  syncCache : CacheTable δ

namespace DbFile

/-- A file that was just created. -/
def blank : DbFile δ := ⟨none, none, .absent⟩

/-- What the tables of the current schema hold. -/
def view (file : DbFile δ) : DB δ where
  syncState := file.syncState.getD fun _ => none
  retryQueue := file.retryQueue.getD .empty
  syncCache := file.syncCache.rows

/-- New contents for the tables that are there. -/
def store (file : DbFile δ) (db : DB δ) : DbFile δ where
  syncState := file.syncState.map fun _ => db.syncState
  retryQueue := file.retryQueue.map fun _ => db.retryQueue
  syncCache := file.syncCache.write db.syncCache

end DbFile

/-! ## The statements of an open store -/

inductive TableName where
  | syncState
  | retryQueue
  | syncCache
deriving DecidableEq, Repr

def TableName.text : TableName → String
  | .syncState => "sync_state"
  | .retryQueue => "retry_queue"
  | .syncCache => "sync_cache"

/-- The table that a statement is about. -/
def Stmt.table : Stmt δ → TableName
  | .selectSyncState _ | .upsertSyncState .. => .syncState
  | .upsertRetry .. | .selectDue .. | .deleteRetry _ | .failRetry .. => .retryQueue
  | .selectCache _ | .upsertCache .. => .syncCache

def DbFile.hasTable (file : DbFile δ) : TableName → Bool
  | .syncState => file.syncState.isSome
  | .retryQueue => file.retryQueue.isSome
  | .syncCache =>
      match file.syncCache with
      | .current _ => true
      | _ => false

/-- Execute a statement of the store on a file. -/
def DbFile.execStmt (file : DbFile δ) (stmt : Stmt δ) : Except Exn (stmt.Result × DbFile δ) :=
  if file.hasTable stmt.table then
    match file.view.exec stmt with
    | .ok (result, db) => .ok (result, file.store db)
    | .error exc => .error exc
  else .error ⟨.operationalError, "no such table: " ++ stmt.table.text⟩

/-! ## Opening -/

inductive OpenCall where
  /-- `Path(db_path).parent.mkdir(parents=True, exist_ok=True)` -/
  | mkdir
  /-- `sqlite3.connect(db_path, …)` -/
  | connect
  /-- `PRAGMA journal_mode=WAL` -/
  | journalMode
  /-- `PRAGMA table_info(sync_cache)` -/
  | tableInfo
  /-- `DROP TABLE sync_cache` -/
  | dropSyncCache
  /-- The statements of `_SCHEMA`. -/
  | createTable (name : TableName)
  | commit
deriving DecidableEq, Repr

/-- The names of the columns, for `table_info`. -/
abbrev OpenCall.Result : OpenCall → Type
  | .tableInfo => List String
  | _ => Unit

def OpenCall.Resp (call : OpenCall) : Type := Except Exn call.Result

/-- `CREATE TABLE IF NOT EXISTS` -/
def DbFile.createTable (file : DbFile δ) : TableName → DbFile δ
  | .syncState => { file with syncState := some (file.syncState.getD fun _ => none) }
  | .retryQueue => { file with retryQueue := some (file.retryQueue.getD .empty) }
  | .syncCache =>
      { file with
        syncCache :=
          match file.syncCache with
          | .absent => .current fun _ => none
          | old => old }

/-- What a call does to the file when nothing fails. -/
def DbFile.perform (file : DbFile δ) : (call : OpenCall) → Except Exn (call.Result × DbFile δ)
  | .mkdir | .connect | .journalMode | .commit => .ok ((), file)
  | .tableInfo => .ok (file.syncCache.columns, file)
  | .dropSyncCache =>
      match file.syncCache with
      | .absent => .error ⟨.operationalError, "no such table: sync_cache"⟩
      | _ => .ok ((), { file with syncCache := .absent })
  | .createTable name => .ok ((), file.createTable name)

abbrev Opening := Prog OpenCall.Resp Exn

def openCall (call : OpenCall) : Opening call.Result := do
  let r ← Prog.perform (R := OpenCall.Resp) call
  Prog.ofExcept r

namespace StateStore

/-- `self._migrate_sync_cache_schema()` -/
def migrateSyncCacheSchema : Opening Unit := do
  let cols ← openCall .tableInfo
  if !cols.isEmpty && !cols.contains "frappe_base_url" then
    openCall .dropSyncCache
    openCall .commit

/-- `StateStore.__init__` -/
def init : Opening Unit := do
  openCall .mkdir
  openCall .connect
  openCall .journalMode
  migrateSyncCacheSchema
  openCall (.createTable .syncState)
  openCall (.createTable .retryQueue)
  openCall (.createTable .syncCache)
  openCall .commit

end StateStore

end TallyConnector
