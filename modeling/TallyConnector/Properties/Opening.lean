import TallyConnector.Sync.Opening

/-! # Opening the database is invisible

Whatever tables a file has, however often an opening of it failed or was cut
short, and whatever other processes store meanwhile: the tables hold what the
statements alone make of the file's contents (`opening_transparent`). Only the
rows of an old `sync_cache` are given up, all at once, and no statement ever
reads them. Once an opening has returned, every statement finds its table.
-/

namespace TallyConnector

open Effects Prog

variable {δ : Type}

/-! ## Statements on a file -/

/-- A statement changes its own table only. -/
theorem DB.exec_frame {db db' : DB δ} {stmt : Stmt δ} {result : stmt.Result}
    (h : db.exec stmt = .ok (result, db')) :
    (stmt.table ≠ .syncState → db'.syncState = db.syncState) ∧
      (stmt.table ≠ .retryQueue → db'.retryQueue = db.retryQueue) ∧
      (stmt.table ≠ .syncCache → db'.syncCache = db.syncCache) := by
  cases stmt with
  | selectSyncState entityName =>
    cases h
    exact ⟨fun _ => rfl, fun _ => rfl, fun _ => rfl⟩
  | upsertSyncState entityName row =>
    -- the table of the statement is the one that changes
    simp only [DB.exec] at h
    split at h <;> cases h
    exact ⟨fun hne => absurd rfl hne, fun _ => rfl, fun _ => rfl⟩
  | upsertRetry entityName recordGuid operation payloadJson nextAttemptAt error createdAt =>
    simp only [DB.exec] at h
    split at h <;> cases h
    exact ⟨fun _ => rfl, fun hne => absurd rfl hne, fun _ => rfl⟩
  | selectDue now limit =>
    -- a query leaves all tables as they are
    simp only [DB.exec] at h
    split at h <;> cases h
    exact ⟨fun _ => rfl, fun _ => rfl, fun _ => rfl⟩
  | deleteRetry retryId =>
    cases h
    exact ⟨fun _ => rfl, fun hne => absurd rfl hne, fun _ => rfl⟩
  | failRetry retryId error nextAttemptAt =>
    cases h
    exact ⟨fun _ => rfl, fun hne => absurd rfl hne, fun _ => rfl⟩
  | selectCache key =>
    cases h
    exact ⟨fun _ => rfl, fun _ => rfl, fun _ => rfl⟩
  | upsertCache key frappeName frappeDoctype contentHash lastPushedAt =>
    simp only [DB.exec] at h
    split at h <;> cases h
    exact ⟨fun _ => rfl, fun _ => rfl, fun hne => absurd rfl hne⟩

namespace DbFile

variable {file file' : DbFile δ}

/-- Contents that are empty where a table is missing are stored as they are. -/
theorem view_store {db : DB δ}
    (hstate : ¬ file.hasTable .syncState → db.syncState = file.view.syncState)
    (hqueue : ¬ file.hasTable .retryQueue → db.retryQueue = file.view.retryQueue)
    (hcache : ¬ file.hasTable .syncCache → db.syncCache = file.view.syncCache) :
    (file.store db).view = db := by
  rcases file with ⟨syncState, retryQueue, syncCache⟩
  rcases db with ⟨dbState, dbQueue, dbCache⟩
  have hstate' : (syncState.map fun _ => dbState).getD (fun _ => none) = dbState := by
    cases syncState with
    | none => exact (hstate (by simp [hasTable])).symm
    | some _ => rfl
  have hqueue' : (retryQueue.map fun _ => dbQueue).getD .empty = dbQueue := by
    cases retryQueue with
    | none => exact (hqueue (by simp [hasTable])).symm
    | some _ => rfl
  have hcache' : (syncCache.write dbCache).rows = dbCache := by
    cases syncCache with
    | absent => exact (hcache (by simp [hasTable])).symm
    | legacy columns rows hne hold => exact (hcache (by simp [hasTable])).symm
    | current rows => rfl
  unfold store view
  rw [hstate', hqueue', hcache']

/-- A statement does to the contents what it does to a database. -/
theorem view_execStmt {stmt : Stmt δ} (htable : file.hasTable stmt.table) :
    (file.execStmt stmt).map (fun x => (x.1, x.2.view)) = file.view.exec stmt := by
  unfold execStmt
  rw [if_pos htable]
  cases hexec : file.view.exec stmt with
  | error exc => rfl
  | ok x =>
    rcases x with ⟨result, db⟩
    rcases DB.exec_frame hexec with ⟨hstate, hqueue, hcache⟩
    have hview : (file.store db).view = db := by
      refine view_store (fun hno => hstate ?_) (fun hno => hqueue ?_) fun hno => hcache ?_
      · exact fun heq => hno (heq ▸ htable)
      · exact fun heq => hno (heq ▸ htable)
      · exact fun heq => hno (heq ▸ htable)
    show Except.ok (result, (file.store db).view) = .ok (result, db)
    rw [hview]

example : (blank : DbFile δ).view = .empty := rfl

/-- Which tables there are, and in which version. -/
def schema (file : DbFile δ) : Bool × Bool × List String :=
  (file.syncState.isSome, file.retryQueue.isSome, file.syncCache.columns)

theorem schema_store (file : DbFile δ) (db : DB δ) : (file.store db).schema = file.schema := by
  rcases file with ⟨syncState, retryQueue, syncCache⟩
  unfold schema store
  rw [Option.isSome_map, Option.isSome_map]
  cases syncCache <;> rfl

/-- No statement writes to an old table. -/
theorem oldRows_store (file : DbFile δ) (db : DB δ) :
    (file.store db).syncCache.oldRows = file.syncCache.oldRows := by
  rcases file with ⟨syncState, retryQueue, syncCache⟩
  cases syncCache <;> rfl

theorem hasTable_syncCache (file : DbFile δ) :
    file.hasTable .syncCache ↔ "frappe_base_url" ∈ file.syncCache.columns := by
  unfold hasTable
  cases file.syncCache with
  | absent => simp [CacheTable.columns]
  | legacy columns rows hne hold => simp [CacheTable.columns, hold]
  | current rows => simp [CacheTable.columns, syncCacheColumns]

/-- Every statement finds its table. -/
def Ready (file : DbFile δ) : Prop := ∀ name, file.hasTable name

theorem ready_iff : file.Ready ↔
    file.syncState.isSome ∧ file.retryQueue.isSome ∧
      "frappe_base_url" ∈ file.syncCache.columns := by
  constructor
  · intro h
    exact ⟨h .syncState, h .retryQueue, file.hasTable_syncCache.mp (h .syncCache)⟩
  · rintro ⟨hstate, hqueue, hcache⟩ name
    cases name with
    | syncState => exact hstate
    | retryQueue => exact hqueue
    | syncCache => exact file.hasTable_syncCache.mpr hcache

/-- Beside the tables of the current schema there is no old one. -/
theorem oldRows_of_ready (hready : file.Ready) : file.syncCache.oldRows = [] := by
  have hcolumns := (ready_iff.mp hready).2.2
  cases hcache : file.syncCache with
  | absent => rfl
  | legacy columns rows hne hold =>
    rw [hcache] at hcolumns
    exact absurd hcolumns hold
  | current rows => rfl

theorem ready_of_schema (h : file'.schema = file.schema) (hready : file.Ready) : file'.Ready := by
  simp only [schema, Prod.mk.injEq] at h
  rw [ready_iff] at hready ⊢
  rwa [h.1, h.2.1, h.2.2]

/-! ## Calls on a file -/

theorem view_createTable (file : DbFile δ) (name : TableName) :
    (file.createTable name).view = file.view := by
  rcases file with ⟨syncState, retryQueue, syncCache⟩
  cases name with
  | syncState => rfl
  | retryQueue => rfl
  | syncCache => cases syncCache <;> rfl

theorem ready_createTable (name : TableName) (h : file.Ready) : (file.createTable name).Ready := by
  rcases file with ⟨syncState, retryQueue, syncCache⟩
  rw [ready_iff] at h ⊢
  cases name with
  | syncState => exact ⟨rfl, h.2⟩
  | retryQueue => exact ⟨h.1, rfl, h.2.2⟩
  | syncCache =>
    refine ⟨h.1, h.2.1, ?_⟩
    cases syncCache with
    | absent => cases h.2.2
    | legacy columns rows hne hold => exact h.2.2
    | current rows => exact h.2.2

theorem oldRows_createTable (file : DbFile δ) (name : TableName) :
    (file.createTable name).syncCache.oldRows = file.syncCache.oldRows := by
  rcases file with ⟨syncState, retryQueue, syncCache⟩
  cases name with
  | syncState => rfl
  | retryQueue => rfl
  | syncCache => cases syncCache <;> rfl

/-- No call changes what the tables hold, unless it drops a current one; an old
one is dropped as a whole. -/
theorem perform_keeps {call : OpenCall} {result : call.Result}
    (hdrop : call = .dropSyncCache → "frappe_base_url" ∉ file.syncCache.columns)
    (h : file.perform call = .ok (result, file')) :
    file'.view = file.view ∧
      (file'.syncCache.oldRows = file.syncCache.oldRows ∨ file'.syncCache.oldRows = []) ∧
      (file.Ready → file'.Ready) := by
  cases call with
  | createTable name =>
    cases h
    exact ⟨file.view_createTable name, .inl (file.oldRows_createTable name),
      ready_createTable name⟩
  | dropSyncCache =>
    have hold := hdrop rfl
    rcases file with ⟨syncState, retryQueue, syncCache⟩
    cases syncCache with
    | absent => cases h
    | legacy columns rows hne hcolumns =>
      cases h
      exact ⟨rfl, .inr rfl, fun hready => absurd (ready_iff.mp hready).2.2 hold⟩
    | current rows => exact absurd (by simp [CacheTable.columns, syncCacheColumns]) hold
  | mkdir | connect | journalMode | commit | tableInfo =>
    cases h
    exact ⟨rfl, .inl rfl, id⟩

end DbFile

/-! ## The store's processes -/

/-- A file, and the statements that were executed on it, the newest first. -/
structure Opened (δ : Type) where
  file : DbFile δ
  log : List (Stmt δ)

def DB.after (stmt : Stmt δ) (db : DB δ) : DB δ :=
  match db.exec stmt with
  | .ok (_, db') => db'
  | .error _ => db

/-- What the statements make of a database. -/
def DB.replay (db : DB δ) (log : List (Stmt δ)) : DB δ := log.foldr DB.after db

inductive OpenOutcome where
  | done
  /-- The database is locked, the disk is full, … -/
  | fails (exc : Exn)
deriving DecidableEq, Repr

/-- One process opens the store, again and again, while other ones use it. -/
def openingMachine : Machine OpenCall.Resp Exn (Opened δ) Unit (Stmt δ) OpenOutcome where
  edit stmt w :=
    match w.file.execStmt stmt with
    | .ok (_, file) => some ⟨file, stmt :: w.log⟩
    | .error _ => none
  exec call outcome w :=
    match outcome with
    | .fails exc => some (.error exc, w)
    | .done =>
        match w.file.perform call with
        | .ok (result, file) => some (.ok result, { w with file })
        | .error exc => some (.error exc, w)
  quiet _ := false
  prog _ := StateStore.init

/-- What the tables hold is what the statements make of it, and tables stay,
unless an old one is dropped. -/
structure Keeps (w w' : Opened δ) : Prop where
  view : ∀ db : DB δ, w.file.view = db.replay w.log → w'.file.view = db.replay w'.log
  oldRows : w'.file.syncCache.oldRows = w.file.syncCache.oldRows ∨ w'.file.syncCache.oldRows = []
  ready : w.file.Ready → w'.file.Ready

variable {w w' : Opened δ}

theorem editStep_cases (h : openingMachine.EditStep w w') :
    ∃ stmt db result, w.file.view.exec stmt = .ok (result, db) ∧ w'.file = w.file.store db ∧
      w'.file.view = db ∧ w'.log = stmt :: w.log := by
  rcases h with ⟨stmt, hedit⟩
  simp only [openingMachine] at hedit
  split at hedit
  · next result file hstmt =>
    cases hedit
    have htable : w.file.hasTable stmt.table := by
      by_contra hno
      rw [DbFile.execStmt, if_neg hno] at hstmt
      cases hstmt
    have hview := w.file.view_execStmt htable
    rw [hstmt] at hview
    have hexec : w.file.view.exec stmt = .ok (result, file.view) := hview.symm
    refine ⟨stmt, file.view, result, hexec, ?_, rfl, rfl⟩
    simp only [DbFile.execStmt, if_pos htable, hexec] at hstmt
    injection hstmt with hpair
    exact (congrArg Prod.snd hpair).symm
  · cases hedit

theorem keeps_of_edit (h : openingMachine.EditStep w w') : Keeps w w' := by
  rcases editStep_cases h with ⟨stmt, db, result, hexec, hfile, hview, hlog⟩
  constructor
  · intro db₀ hreplay
    rw [hview, hlog, DB.replay, List.foldr_cons]
    show db = DB.after stmt (db₀.replay w.log)
    rw [← hreplay, DB.after, hexec]
  · rw [hfile]
    exact .inl (w.file.oldRows_store db)
  · exact DbFile.ready_of_schema (hfile ▸ w.file.schema_store db)

theorem schema_of_edits (h : openingMachine.Edits w w') : w'.file.schema = w.file.schema := by
  induction h with
  | refl => rfl
  | tail _ hstep ih =>
    rcases editStep_cases hstep with ⟨stmt, db, result, -, hfile, -⟩
    rw [hfile, DbFile.schema_store, ih]

/-! ## An opening -/

section opening

variable {allow : Machine.Assumption OpenCall (Opened δ) OpenOutcome} {failed : Prop}

/-- What an opening leaves behind: `P` if it returns. -/
def Leaves {α : Type} (failed : Prop) (P : α → Opened δ → Prop) : Except Exn α → Opened δ → Prop
  | .ok a, w => P a w
  | .error _, _ => failed

/-- A call, in whatever state of the tables it is made. -/
theorem safe_openCall {call : OpenCall} {P : call.Result → Opened δ → Prop}
    (hfails : ∀ e exc w, allow e (.fails exc) w → failed)
    (hdrop : call = .dropSyncCache →
      w.file.syncCache.columns ≠ [] ∧ "frappe_base_url" ∉ w.file.syncCache.columns)
    (hok : ∀ (w₁ : Opened δ) result file, w₁.file.schema = w.file.schema →
      w₁.file.perform call = .ok (result, file) → P result { w₁ with file }) :
    openingMachine.Safe allow Keeps (Leaves failed P) (openCall call) w := by
  refine .bind (Machine.safe_call.mpr fun w₁ hedits outcome r w₂ hallow hexec => ?_)
  have hschema := schema_of_edits hedits
  have hcolumns : w₁.file.syncCache.columns = w.file.syncCache.columns :=
    congrArg (fun x => x.2.2) hschema
  cases outcome with
  | fails exc =>
    cases hexec
    exact ⟨.refl, hfails call exc w₁ hallow⟩
  | done =>
    simp only [openingMachine] at hexec
    split at hexec
    · next result file hperform =>
      cases hexec
      have hkeeps := DbFile.perform_keeps (fun heq => hcolumns ▸ (hdrop heq).2) hperform
      refine ⟨.single ⟨fun db hreplay => hkeeps.1.trans hreplay, hkeeps.2.1, hkeeps.2.2⟩, ?_⟩
      exact hok w₁ result file hschema hperform
    · next exc hperform =>
      -- only a missing table cannot be dropped
      exfalso
      cases call with
      | dropSyncCache =>
        simp only [DbFile.perform] at hperform
        split at hperform
        · next habsent =>
          rw [habsent] at hcolumns
          exact (hdrop rfl).1 hcolumns.symm
        · cases hperform
      | createTable name => cases hperform
      | mkdir | connect | journalMode | commit | tableInfo => cases hperform

/-- A call that leaves the tables as they are. -/
theorem safe_still {call : OpenCall} {P : Bool × Bool × List String → Prop}
    (hfails : ∀ e exc w, allow e (.fails exc) w → failed)
    (hcall : call ∈ [.mkdir, .connect, .journalMode, .commit]) (h : P w.file.schema) :
    openingMachine.Safe allow Keeps (Leaves failed fun _ w' => P w'.file.schema)
      (openCall call) w := by
  refine safe_openCall hfails ?_ fun w₁ result file hschema hperform => ?_
  · rintro rfl
    exact absurd hcall (by decide)
  · have hfile : file = w₁.file := by
      simp only [List.mem_cons, List.not_mem_nil, or_false] at hcall
      rcases hcall with rfl | rfl | rfl | rfl <;> cases hperform <;> rfl
    show P file.schema
    rwa [hfile, hschema]

theorem safe_then {α β : Type} {p : Opening α} {f : α → Opening β} {P : α → Opened δ → Prop}
    {Q : β → Opened δ → Prop} (hp : openingMachine.Safe allow Keeps (Leaves failed P) p w)
    (hf : ∀ a w', P a w' → openingMachine.Safe allow Keeps (Leaves failed Q) (f a) w') :
    openingMachine.Safe allow Keeps (Leaves failed Q) (p >>= f) w := by
  refine .bind (hp.mono fun r w' hr => ?_)
  cases r with
  | error exc => exact hr
  | ok a => exact hf a w' hr

/-- There is no `sync_cache` from before. -/
def Migrated (schema : Bool × Bool × List String) : Prop :=
  schema.2.2 = [] ∨ "frappe_base_url" ∈ schema.2.2

theorem safe_migrateSyncCacheSchema (hfails : ∀ e exc w, allow e (.fails exc) w → failed) :
    openingMachine.Safe allow Keeps (Leaves failed fun _ w' => Migrated w'.file.schema)
      StateStore.migrateSyncCacheSchema w := by
  have hinfo : openingMachine.Safe allow Keeps
      (Leaves failed fun (cols : List String) w₁ => cols = w₁.file.syncCache.columns)
      (openCall .tableInfo) w := by
    refine safe_openCall hfails (fun heq => by cases heq) fun w₁ cols file _ hperform => ?_
    cases hperform
    rfl
  refine safe_then hinfo fun cols w₁ hcols => ?_
  subst hcols
  by_cases hold : (!w₁.file.syncCache.columns.isEmpty &&
      !w₁.file.syncCache.columns.contains "frappe_base_url") = true
  · -- an old table is dropped; other processes cannot have replaced it since
    rw [if_pos hold]
    simp only [Bool.and_eq_true, Bool.not_eq_true', List.isEmpty_eq_false_iff,
      List.contains_eq_mem, decide_eq_false_iff_not] at hold
    have hdropped : openingMachine.Safe allow Keeps
        (Leaves failed fun _ w₂ => w₂.file.schema.2.2 = []) (openCall .dropSyncCache) w₁ := by
      refine safe_openCall hfails (fun _ => hold) fun w₂ _ file _ hperform => ?_
      simp only [DbFile.perform] at hperform
      split at hperform <;> cases hperform
      rfl
    exact safe_then hdropped fun _ w₂ hnil =>
      safe_still hfails (by simp) (.inl hnil)
  · -- the table is missing or current
    rw [if_neg hold]
    by_cases hnil : w₁.file.syncCache.columns = []
    · exact .inl hnil
    · refine .inr ?_
      by_contra hno
      exact hold (by simp [hnil, show "frappe_base_url" ∉ w₁.file.syncCache.columns from hno])

/-- What `CREATE TABLE IF NOT EXISTS` needs and gives. -/
theorem safe_createTable {name : TableName} {P Q : Bool × Bool × List String → Prop}
    (hfails : ∀ e exc w, allow e (.fails exc) w → failed)
    (hcreated : ∀ file : DbFile δ, P file.schema → Q (file.createTable name).schema)
    (h : P w.file.schema) :
    openingMachine.Safe allow Keeps (Leaves failed fun _ w' => Q w'.file.schema)
      (openCall (.createTable name)) w := by
  refine safe_openCall hfails (fun heq => by cases heq) fun w₁ _ file hschema hperform => ?_
  cases hperform
  exact hcreated w₁.file (hschema ▸ h)

variable (failed) in
/-- After an opening every statement finds its table. -/
theorem safe_init (hfails : ∀ e exc w, allow e (.fails exc) w → failed) :
    openingMachine.Safe allow Keeps (Leaves failed fun _ w' => w'.file.Ready)
      StateStore.init w := by
  have hstill : ∀ {call : OpenCall} {w : Opened δ}, call ∈ [.mkdir, .connect, .journalMode, .commit] →
      openingMachine.Safe allow Keeps (Leaves failed fun _ _ => True) (openCall call) w :=
    fun hcall => safe_still (P := fun _ => True) hfails hcall trivial
  refine safe_then (hstill (by simp)) fun _ w _ => safe_then (hstill (by simp)) fun _ w _ =>
    safe_then (hstill (by simp)) fun _ w _ => ?_
  -- each statement adds its table to what is known of the schema
  refine safe_then (safe_migrateSyncCacheSchema hfails) fun _ w hmigrated => ?_
  refine safe_then (safe_createTable (P := Migrated)
    (Q := fun schema => schema.1 = true ∧ Migrated schema) hfails (fun file h => ⟨rfl, h⟩)
    hmigrated) fun _ w hstate => ?_
  refine safe_then (safe_createTable (P := fun schema => schema.1 = true ∧ Migrated schema)
    (Q := fun schema => schema.1 = true ∧ schema.2.1 = true ∧ Migrated schema) hfails
    (fun file h => ⟨h.1, rfl, h.2⟩) hstate) fun _ w hqueue => ?_
  refine safe_then (safe_createTable
    (P := fun schema => schema.1 = true ∧ schema.2.1 = true ∧ Migrated schema)
    (Q := fun schema => schema.1 = true ∧ schema.2.1 = true ∧ "frappe_base_url" ∈ schema.2.2)
    hfails ?_ hqueue) fun _ w hready => ?_
  · -- `IF NOT EXISTS` would leave an old `sync_cache` alone
    rintro ⟨syncState, retryQueue, syncCache⟩ ⟨hstate, hqueue, hcolumns⟩
    refine ⟨hstate, hqueue, ?_⟩
    cases syncCache with
    | absent => simp [DbFile.createTable, DbFile.schema, CacheTable.columns, syncCacheColumns]
    | legacy columns rows hne hold => exact hcolumns.resolve_left hne
    | current rows =>
      simp [DbFile.createTable, DbFile.schema, CacheTable.columns, syncCacheColumns]
  refine (safe_still
    (P := fun schema => schema.1 = true ∧ schema.2.1 = true ∧ "frappe_base_url" ∈ schema.2.2)
    hfails (by simp) hready).mono fun r w' hr => ?_
  cases r with
  | error exc => exact hr
  | ok _ => exact DbFile.ready_iff.mpr hr

end opening

theorem Keeps.trans {w₁ w₂ : Opened δ} (h : Keeps w w₁) (h' : Keeps w₁ w₂) : Keeps w w₂ where
  view db hreplay := h'.view db (h.view db hreplay)
  oldRows := by
    rcases h'.oldRows with heq | hnil
    · rw [heq]
      exact h.oldRows
    · exact .inr hnil
  ready hready := h'.ready (h.ready hready)

theorem keeps_of_steps (h : Relation.ReflTransGen Keeps w w') : Keeps w w' := by
  induction h with
  | refl => exact ⟨fun _ hreplay => hreplay, .inl rfl, id⟩
  | tail _ hstep ih => exact ih.trans hstep

/-- Any number of openings, interrupted or not. -/
theorem keeps_of_reach {c : Config OpenCall.Resp Exn (Opened δ)}
    (hc : openingMachine.Reach (fun _ _ _ => True) (· = w) c) : Keeps w c.world := by
  have hsafe : ∀ (op : Unit) (w : Opened δ), openingMachine.Safe (fun _ _ _ => True) Keeps
      (fun _ _ => True) ((openingMachine (δ := δ)).prog op) w := fun _ w =>
    (safe_init True fun _ _ _ _ => trivial).mono fun _ _ _ => trivial
  obtain ⟨⟨w₀, rfl, hsteps⟩, -⟩ := hc.sound (fun _ _ => keeps_of_edit) hsafe
  exact keeps_of_steps hsteps

/-- However many openings of a file were cut short or failed, and whatever was
stored meanwhile: the tables hold what the statements made of the contents of
the file, and an old `sync_cache` has its rows or is dropped. From an opening
that returns on it is gone, and all statements work on the contents of the
others. And an opening returns unless one of its calls fails. -/
theorem opening_transparent {file : DbFile δ}
    {c : Config OpenCall.Resp Exn (Opened δ)}
    (hc : openingMachine.Reach (fun _ _ _ => True) (· = ⟨file, []⟩) c) :
    c.world.file.view = file.view.replay c.world.log ∧
    (c.world.file.syncCache.oldRows = file.syncCache.oldRows ∨
      c.world.file.syncCache.oldRows = []) ∧
    (∀ w', StateStore.init.Runs (openingMachine.Answers fun _ _ _ => True) c.world (.ok ()) w' →
      ∀ c', openingMachine.Reach (fun _ _ _ => True) (· = w') c' →
        c'.world.file.view = file.view.replay c'.world.log ∧
        c'.world.file.syncCache.oldRows = [] ∧
        ∀ stmt : Stmt δ, (c'.world.file.execStmt stmt).map (fun x => (x.1, x.2.view)) =
          c'.world.file.view.exec stmt) ∧
    ∀ exc (w' : Opened δ), ¬ StateStore.init.Runs
      (openingMachine.Answers fun _ outcome _ => outcome = .done) c.world (.error exc) w' := by
  have hkept := keeps_of_reach hc
  have hview := hkept.view file.view rfl
  refine ⟨hview, hkept.oldRows, fun w' hrun c' hc' => ?_, fun exc w' hrun => ?_⟩
  · -- the file is ready when the opening returns, and stays so
    have hopened := (safe_init True fun _ _ _ _ => trivial).always
      (fun _ _ => keeps_of_edit) |>.of_runs hrun
    have hlater := keeps_of_reach hc'
    have hready := hlater.ready hopened.1
    refine ⟨hlater.view file.view ((keeps_of_steps hopened.2).view file.view hview),
      DbFile.oldRows_of_ready hready, fun stmt => ?_⟩
    exact DbFile.view_execStmt (hready stmt.table)
  · -- no call fails, so nothing can be raised
    have hopened := (safe_init False fun _ exc _ h => by cases h).always
      (fun _ _ => keeps_of_edit) |>.of_runs hrun
    exact hopened.1

/-- A file whose `sync_cache` is keyed by entity and guid, with one row. -/
def oldFile : DbFile String where
  syncState := some fun _ => none
  retryQueue := none
  syncCache := .legacy ["entity_name", "tally_guid", "frappe_name"]
    [[.str "ledger", .str "g-1", .str "CUST-1"]] (by decide) (by decide)

/-- An opening that is cut short after the old table was dropped, another one,
and then a sync. -/
def migration : List (Act Unit (Stmt String) OpenOutcome) :=
  .start () :: List.replicate 5 (.call .done) ++ .crash :: .start () ::
    List.replicate 8 (.call .done) ++
    [.finish, .edit (.upsertSyncState "ledger" ⟨"", some 1, "ok", ""⟩)]

theorem opening_transparent_migration :
    ∃ c : Config OpenCall.Resp Exn (Opened String),
      c.world.log.length = 1 ∧ c.world.file.schema = (true, true, syncCacheColumns) ∧
        c.world.file.view = oldFile.view.replay c.world.log ∧
        c.world.file.syncCache.oldRows = [] := by
  have hplay : (openingMachine.run (fun _ _ _ => true) migration ⟨⟨oldFile, []⟩, none⟩).any
      (fun c => c.world.log.length = 1 ∧ c.world.file.schema = (true, true, syncCacheColumns)) =
        true := by
    decide +kernel
  obtain ⟨c, hrun, hend⟩ := (Option.any_eq_true _ _).mp hplay
  have hc : openingMachine.Reach (fun _ _ _ => True) (· = ⟨oldFile, []⟩) c :=
    Machine.Reach.run (fun _ _ _ _ => trivial) (.init rfl) hrun
  obtain ⟨hlog, hschema⟩ := of_decide_eq_true hend
  obtain ⟨hview, hrows, -⟩ := opening_transparent hc
  -- the row of the old table was not kept
  have hcolumns : c.world.file.syncCache.columns = syncCacheColumns :=
    congrArg (fun schema => schema.2.2) hschema
  refine ⟨c, hlog, hschema, hview, hrows.resolve_left fun hold => ?_⟩
  cases hcache : c.world.file.syncCache with
  | absent =>
    rw [hcache] at hold
    cases hold
  | legacy columns rows hne hlegacy =>
    rw [hcache] at hcolumns
    obtain rfl : columns = syncCacheColumns := hcolumns
    exact absurd (by decide) hlegacy
  | current rows =>
    rw [hcache] at hold
    cases hold

end TallyConnector
