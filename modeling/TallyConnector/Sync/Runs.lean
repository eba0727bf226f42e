import TallyConnector.World.Site

/-! # Runs against a handler

How the pieces of the connector run when every call is answered by a handler
`h`: one lemma for each piece, from the answers to its own calls.
-/

namespace TallyConnector

open Effects Prog

variable {δ W α : Type} {h : (e : Call δ) → W → Call.Resp e × W} {w w' w'' : W}

@[simp] theorem run_clock (w : W) :
    Prog.run h (clock : Py δ Int) w = (.ok (h .clock w).1, (h .clock w).2) := rfl

@[simp] theorem run_resultOp (op : ResultOp) (w : W) :
    Prog.run h (resultOp op : Py δ EntitySyncResult) w =
      (.ok (h (.result op) w).1, (h (.result op) w).2) := rfl

theorem run_sql (stmt : Stmt δ) (w : W) :
    Prog.run h (sql stmt) w = h (.sql stmt) w := by
  unfold sql
  rw [perform_bind, run_call]
  cases hr : (h (.sql stmt) w).1 <;> exact Prod.ext hr.symm rfl

@[simp] theorem run_raise_exn (kind : ExnKind) (message : String) (w : W) :
    Prog.run h (raise kind message : Py δ α) w = (.error ⟨kind, message⟩, w) := rfl

@[simp] theorem run_now (store : StateStore δ) (w : W) :
    Prog.run h store.now w = (.ok (store.ext.isoformat (h .clock w).1), (h .clock w).2) := rfl

/-! ## The store -/

section store

variable (store : StateStore δ)

@[simp] theorem run_getLastSync (entityName : String) (w : W) :
    Prog.run h (store.getLastSync entityName) w = h (.sql (.selectSyncState entityName)) w :=
  run_sql _ _

@[simp] theorem run_markRetrySuccess (retryId : Nat) (w : W) :
    Prog.run h (store.markRetrySuccess retryId) w = h (.sql (.deleteRetry retryId)) w :=
  run_sql _ _

@[simp] theorem run_markRetryFailed (retryId : Nat) (error nextAttemptAt : String) (w : W) :
    Prog.run h (store.markRetryFailed retryId error nextAttemptAt) w =
      h (.sql (.failRetry retryId error nextAttemptAt)) w :=
  run_sql _ _

@[simp] theorem run_getCacheEntry (key : CacheKey) (w : W) :
    Prog.run h (store.getCacheEntry key) w = h (.sql (.selectCache key)) w :=
  run_sql _ _

@[simp] theorem run_dequeueDueRetries (limit : Int) (w : W) :
    Prog.run h (store.dequeueDueRetries limit) w =
      h (.sql (.selectDue (store.ext.isoformat (h .clock w).1) limit)) (h .clock w).2 :=
  run_sql _ _

@[simp] theorem run_upsertCache (key : CacheKey) (frappeName : Json) (frappeDoctype : String)
    (contentHash : Option δ) (w : W) :
    Prog.run h (store.upsertCache key frappeName frappeDoctype contentHash) w =
      h (.sql (.upsertCache key frappeName frappeDoctype contentHash
        (store.ext.isoformat (h .clock w).1))) (h .clock w).2 :=
  run_sql _ _

@[simp] theorem run_updateLastSync (entityName : String) (lastAlterId : Option Int)
    (status : String) (w : W) :
    Prog.run h (store.updateLastSync entityName lastAlterId status) w =
      h (.sql (.upsertSyncState entityName ⟨store.ext.isoformat (h .clock w).1, lastAlterId, status,
        store.ext.isoformat (h .clock (h .clock w).2).1⟩)) (h .clock (h .clock w).2).2 :=
  run_sql _ _

@[simp] theorem run_enqueueRetry (entityName : String) (recordGuid : Json) (operation : String)
    (payloadJson : Record) (error : String) (w : W) :
    Prog.run h (store.enqueueRetry entityName recordGuid operation payloadJson error) w =
      h (.sql (.upsertRetry entityName recordGuid operation payloadJson
        (store.ext.isoformat (h .clock w).1) (some error)
        (store.ext.isoformat (h .clock (h .clock w).2).1))) (h .clock (h .clock w).2).2 :=
  run_sql _ _

end store

/-- A program that returns is not tried again. -/
theorem run_retrying_ok {retryable : Exn → Bool} {extra : Nat} {p : Py δ α} {a : α}
    (hp : Prog.run h p w = (.ok a, w')) :
    Prog.run h (retrying retryable extra p) w = (.ok a, w') := by
  cases extra with
  | zero => exact hp
  | succ extra => exact run_tryCatch_ok _ hp

/-- A program that fails without a trace fails for good. -/
theorem run_retrying_error {retryable : Exn → Bool} {extra : Nat} {p : Py δ α} {exc : Exn}
    (hp : Prog.run h p w = (.error exc, w)) :
    Prog.run h (retrying retryable extra p) w = (.error exc, w) := by
  induction extra with
  | zero => exact hp
  | succ extra ih =>
      refine (run_tryCatch_error _ hp).trans ?_
      split
      · exact ih
      · rfl

/-! ## Requests -/

section requests

variable {client : FrappeClient δ} {request : FrappeRequest} {outcome : HttpOutcome}

/-- A request that is answered. -/
theorem run_request {value : Json} (hanswer : h (.frappe request) w = (outcome, w'))
    (hread : client.readOutcome outcome = .ok value) :
    Prog.run h (client.request request) w = (.ok value, w') := by
  refine run_tryCatch_ok _ (run_retrying_ok ?_)
  unfold FrappeClient.requestOnce
  rw [perform_bind, run_call, hanswer, run_ofExcept, hread]

/-- The first answer of a GET. -/
theorem run_get {doctype : String} {filters : List (String × Json)} {fields : List String}
    {data : List Json}
    (hanswer : h (.frappe (.get client.baseUrl doctype filters fields)) w =
      (okOutcome (.obj [("data", .list data)]), w')) :
    Prog.run h (client.get doctype filters fields) w = (.ok (.list data), w') :=
  run_bind_ok _ (run_request hanswer rfl)

theorem run_create {doctype : String} {payload : Dict} {name : String}
    (hanswer : h (.frappe (.post client.baseUrl doctype payload)) w =
      (okOutcome (savedBody name), w')) :
    Prog.run h (client.create doctype payload) w = (.ok (.obj [("name", .str name)]), w') :=
  run_bind_ok _ (run_request hanswer rfl)

end requests

/-! ## Looking a record up -/

section lookup

variable (store : StateStore δ) (client : FrappeClient δ) {me : MappingEntry} (keyField : String)
variable {key : String}

/-- Without a cached name Frappe is asked. -/
theorem run_findExisting_get {row : Option (CacheRow δ)}
    (hselect : h (.sql (.selectCache ⟨me.entityName, key, client.baseUrl⟩)) w = (.ok row, w'))
    (hname : ∀ r ∈ row, r.frappeName = "") :
    Prog.run h (findExisting store client me keyField key) w =
      Prog.run h (do
        let found ← client.get me.frappeDoctype [(me.keyField keyField, .str key)] ["name"]
        if found.truthy then do
          let frappeName ← Prog.ofExcept (firstName found)
          store.upsertCache ⟨me.entityName, key, client.baseUrl⟩ frappeName me.frappeDoctype none
          pure frappeName
        else pure .null) w' := by
  have hcached : Prog.run h (store.getCachedFrappeName ⟨me.entityName, key, client.baseUrl⟩) w =
      (.ok (row.map CacheRow.frappeName), w') :=
    run_bind_ok _ ((run_sql ..).trans hselect)
  have hnonEmpty : nonEmpty (row.map CacheRow.frappeName) = none := by
    cases row with
    | none => rfl
    | some r => simp [nonEmpty, Option.filter, hname r rfl]
  refine (run_bind_ok _ hcached).trans ?_
  rw [hnonEmpty]

/-- Frappe finds no document. -/
theorem run_findExisting_none {row : Option (CacheRow δ)}
    (hselect : h (.sql (.selectCache ⟨me.entityName, key, client.baseUrl⟩)) w = (.ok row, w'))
    (hname : ∀ r ∈ row, r.frappeName = "")
    (hget : h (.frappe (.get client.baseUrl me.frappeDoctype
      [(me.keyField keyField, .str key)] ["name"])) w' = (okOutcome (foundBody []), w'')) :
    Prog.run h (findExisting store client me keyField key) w = (.ok .null, w'') :=
  (run_findExisting_get store client keyField hselect hname).trans (run_bind_ok _ (run_get hget))

end lookup

/-! ## Pushing -/

section pushing

variable {engine : SyncEngine δ} {me : MappingEntry} {naturalKey : String} {push : Json → Push}
variable {payload : Dict}

theorem run_sendRecord_create {existing : Json} {name : String} (hexisting : existing.truthy = false)
    (hanswer : h (.frappe (.post engine.frappe.baseUrl me.frappeDoctype payload)) w =
      (okOutcome (savedBody name), w')) :
    Prog.run h (engine.sendRecord me naturalKey push payload existing) w =
      (.ok (.str name), (h (.result (.created (push (.str name)))) w').2) := by
  unfold SyncEngine.sendRecord
  rw [if_neg (by simp [hexisting])]
  exact run_bind_ok _ (run_create hanswer)

end pushing

/-! ## Fetching -/

section fetching

variable {engine : SyncEngine δ} {spec : EntitySpec} {outcome : TallyOutcome}
variable {request : CollectionRequest}

/-- A fetch that succeeds. -/
theorem run_fetchRecords {records : List Record}
    (hanswer : h (.tally request) w = (outcome, w'))
    (hrecords : engine.recordsOf spec outcome = .ok records) :
    Prog.run h (engine.fetchRecords spec request) w = (.ok (.ok records), w') := by
  unfold SyncEngine.recordsOf at hrecords
  split at hrecords
  · next response hread =>
    have hsend : Prog.run h (engine.tally.sendOnce request) w = (.ok response, w') := by
      unfold TallyClient.sendOnce
      rw [perform_bind, run_call, hanswer, run_ofExcept, hread]
    refine run_tryCatch_ok _ ((run_bind_ok _ (run_retrying_ok hsend)).trans ?_)
    rw [hrecords]
    rfl
  · cases hrecords

/-- A fetch that fails with one of the connector's own exceptions. -/
theorem run_fetchRecords_error {exc : Exn} (hanswer : h (.tally request) w = (outcome, w))
    (hrecords : engine.recordsOf spec outcome = .error exc)
    (hexc : exc.isTallyConnectorError = true) :
    Prog.run h (engine.fetchRecords spec request) w = (.ok (.error exc), w) := by
  have hread : ∀ r, engine.tally.readOutcome outcome = r →
      Prog.run h (engine.tally.sendOnce request) w = (r, w) := by
    intro r hr
    unfold TallyClient.sendOnce
    rw [perform_bind, run_call, hanswer, run_ofExcept, hr]
  have hbody : Prog.run h (do
      let response ← engine.tally.sendRequest request
      let records ← Prog.ofExcept (parseCollectionResponse engine.ext.fromstring response spec)
      pure (.ok records) : Py δ (Except Exn (List Record))) w = (.error exc, w) := by
    unfold SyncEngine.recordsOf at hrecords
    split at hrecords
    · next response hok =>
      refine (run_bind_ok _ (run_retrying_ok (hread _ hok))).trans ?_
      rw [hrecords]
      rfl
    · next exc' herror =>
      cases hrecords
      exact run_bind_error _ (run_retrying_error (hread _ herror))
  refine (run_tryCatch_error _ hbody).trans ?_
  rw [if_pos hexc]
  rfl

end fetching

end TallyConnector
