import TallyConnector.Sync.Engine

/-! # Which calls each function makes

A push reads and writes the cache row of its record on the engine's own
Frappe target and sends requests to that target, for the mapped doctype; it
touches neither the checkpoints nor the retry queue. Fetching touches no table
at all. Whatever the sync of an entity does concerns that entity. Later frame
arguments follow from these footprints.
-/

namespace TallyConnector

open Effects Prog

variable {δ : Type}

def FrappeRequest.baseUrl : FrappeRequest → String
  | .get baseUrl _ _ _ => baseUrl
  | .post baseUrl _ _ => baseUrl
  | .put baseUrl _ _ _ => baseUrl

def FrappeRequest.doctype : FrappeRequest → String
  | .get _ doctype _ _ => doctype
  | .post _ doctype _ => doctype
  | .put _ doctype _ _ => doctype

namespace Call

/-- The calls of a push under this cache key. -/
def PushesTo (key : CacheKey) (doctype : String) : Call δ → Prop
  | .clock => True
  | .result _ => True
  | .frappe request => request.baseUrl = key.frappeBaseUrl ∧ request.doctype = doctype
  | .sql (.selectCache key') => key' = key
  | .sql (.upsertCache key' _ doctype' _ _) => key' = key ∧ doctype' = doctype
  | _ => False

/-- The calls of a push to the target at `baseUrl`. -/
def IsPush (baseUrl : String) : Call δ → Prop
  | .clock => True
  | .result _ => True
  | .frappe request => request.baseUrl = baseUrl
  | .sql (.selectCache key) => key.frappeBaseUrl = baseUrl
  | .sql (.upsertCache key _ _ _ _) => key.frappeBaseUrl = baseUrl
  | _ => False

/-- The calls of a sync without the read of the checkpoint. -/
def IsSync (baseUrl : String) : Call δ → Prop
  | .tally _ => True
  | .sql (.upsertSyncState _ _) => True
  | .sql (.upsertRetry _ _ _ _ _ _ _) => True
  | e => e.IsPush baseUrl

/-- The calls of any operation on the target at `baseUrl`. -/
def Owned (baseUrl : String) : Call δ → Prop
  | .frappe request => request.baseUrl = baseUrl
  | .sql (.selectCache key) => key.frappeBaseUrl = baseUrl
  | .sql (.upsertCache key _ _ _ _) => key.frappeBaseUrl = baseUrl
  | _ => True

theorem PushesTo.isPush {key : CacheKey} {doctype : String} {e : Call δ}
    (h : e.PushesTo key doctype) : e.IsPush key.frappeBaseUrl := by
  cases e with
  | sql stmt =>
      cases stmt with
      | selectCache key' => exact congrArg CacheKey.frappeBaseUrl h
      | upsertCache key' name doctype' hash lastPushedAt =>
          exact congrArg CacheKey.frappeBaseUrl h.1
      | _ => exact h.elim
  | frappe request => exact h.1
  | tally request => exact h.elim
  | clock => exact h
  | result op => exact h

theorem IsPush.isSync {baseUrl : String} {e : Call δ} (h : e.IsPush baseUrl) :
    e.IsSync baseUrl := by
  cases e with
  | sql stmt => cases stmt <;> first | exact h | exact h.elim
  | tally request => exact h.elim
  | clock => exact h
  | frappe request => exact h
  | result op => exact h

theorem IsSync.owned {baseUrl : String} {e : Call δ} (h : e.IsSync baseUrl) :
    e.Owned baseUrl := by
  cases e with
  | sql stmt => cases stmt <;> trivial
  | frappe request => exact h
  | _ => trivial

end Call

section
variable {P : Call δ → Prop}

@[simp] theorem all_clock : (clock : Py δ Int).All P ↔ P .clock := all_perform _

@[simp] theorem all_resultOp (op : ResultOp) : (resultOp op : Py δ _).All P ↔ P (.result op) :=
  all_perform _

theorem all_sql {stmt : Stmt δ} (h : P (.sql stmt)) : (sql stmt).All P :=
  ((all_perform _).mpr h).bind fun _ => all_ofExcept _

theorem all_now (store : StateStore δ) (h : P .clock) : store.now.All P :=
  (all_clock.mpr h).bind fun _ => trivial

theorem all_retrying {α : Type} {retryable : Exn → Bool} {extra : Nat} {p : Py δ α}
    (h : p.All P) : (retrying retryable extra p).All P := by
  induction extra with
  | zero => exact h
  | succ extra ih =>
      refine All.tryCatch h fun exc => ?_
      split
      · exact ih
      · trivial

end

/-! ## Frappe -/

section
variable {client : FrappeClient δ}

theorem FrappeClient.all_request {P : Call δ → Prop} {request : FrappeRequest}
    (h : P (.frappe request)) : (client.request request).All P := by
  refine All.tryCatch (all_retrying ?_) fun exc => ?_
  · refine All.bind ?_ fun _ => all_ofExcept _
    exact (all_perform _).mpr h
  · split
    · trivial
    · trivial

theorem StateStore.all_getCachedFrappeName {P : Call δ → Prop} {store : StateStore δ}
    {key : CacheKey} (h : P (.sql (.selectCache key))) :
    (store.getCachedFrappeName key).All P := by
  refine All.bind ?_ fun _ => trivial
  exact all_sql h

theorem StateStore.all_upsertCache {store : StateStore δ} {key : CacheKey} {name : Json}
    {doctype : String} {hash : Option δ} :
    (store.upsertCache key name doctype hash).All (Call.PushesTo key doctype) := by
  exact (all_now store trivial).bind fun _ => all_sql ⟨rfl, rfl⟩

theorem all_findExisting (store : StateStore δ) (me : MappingEntry)
    (naturalKeyField naturalKeyValue : String) :
    (findExisting store client me naturalKeyField naturalKeyValue).All
      (Call.PushesTo ⟨me.entityName, naturalKeyValue, client.baseUrl⟩ me.frappeDoctype) := by
  refine All.bind (StateStore.all_getCachedFrappeName (P := Call.PushesTo _ _) rfl)
    fun cached => ?_
  split
  · trivial
  · refine All.bind (All.bind (FrappeClient.all_request ⟨rfl, rfl⟩) fun _ => all_ofExcept _)
      fun found => ?_
    split
    · refine (all_ofExcept _).bind fun name => ?_
      exact store.all_upsertCache.bind fun _ => trivial
    · trivial

end

/-! ## The engine -/

namespace SyncEngine

variable (engine : SyncEngine δ)

/-- The calls of the sync of an entity. -/
def Syncs (spec : EntitySpec) : Call δ → Prop
  | .clock => True
  | .result _ => True
  | .tally request => request.entityName = spec.name
  | .frappe request => request.baseUrl = engine.frappe.baseUrl ∧
      ∃ me, engine.mapping.entry spec.name = some me ∧ request.doctype = me.frappeDoctype
  | .sql (.upsertSyncState entityName _) => entityName = spec.name
  | .sql (.upsertRetry entityName _ _ _ _ _ _) => entityName = spec.name
  | .sql (.selectCache key) =>
      key.entityName = spec.name ∧ key.frappeBaseUrl = engine.frappe.baseUrl
  | .sql (.upsertCache key _ _ _ _) =>
      key.entityName = spec.name ∧ key.frappeBaseUrl = engine.frappe.baseUrl
  | .sql _ => False

/-- With the read of its checkpoint. -/
def Concerns (spec : EntitySpec) (e : Call δ) : Prop :=
  e = .sql (.selectSyncState spec.name) ∨ engine.Syncs spec e

variable {engine}

theorem syncs_of_pushesTo {spec : EntitySpec} {me : MappingEntry} {naturalKey : String}
    (hme : engine.mapping.entry spec.name = some me) {e : Call δ}
    (h : e.PushesTo (engine.cacheKey spec.name naturalKey) me.frappeDoctype) :
    engine.Syncs spec e := by
  cases e with
  | sql stmt =>
      cases stmt with
      | selectCache key =>
          obtain rfl : key = _ := h
          exact ⟨rfl, rfl⟩
      | upsertCache key name doctype hash lastPushedAt =>
          obtain ⟨rfl, -⟩ := h
          exact ⟨rfl, rfl⟩
      | _ => exact h.elim
  | frappe request => exact ⟨h.1, me, hme, h.2⟩
  | tally request => exact h.elim
  | clock => exact h
  | result op => exact h

theorem Syncs.isSync {spec : EntitySpec} {e : Call δ} (h : engine.Syncs spec e) :
    e.IsSync engine.frappe.baseUrl := by
  cases e with
  | sql stmt =>
      cases stmt with
      | selectCache key => exact h.2
      | upsertCache key name doctype hash lastPushedAt => exact h.2
      | upsertSyncState name row => trivial
      | upsertRetry _ _ _ _ _ _ _ => trivial
      | _ => exact h.elim
  | frappe request => exact h.1
  | tally request => trivial
  | clock => trivial
  | result op => trivial

variable (engine)

theorem all_sendRecord (me : MappingEntry) (entityName naturalKey : String) (push : Json → Push)
    (payload : Dict) (existing : Json) :
    (engine.sendRecord me naturalKey push payload existing).All
      (Call.PushesTo (engine.cacheKey entityName naturalKey) me.frappeDoctype) := by
  have hrequest : ∀ {request : FrappeRequest} {default : Json},
      request.baseUrl = engine.frappe.baseUrl → request.doctype = me.frappeDoctype → (do
        let result ← engine.frappe.request request
        Prog.ofExcept (pyGet result "data" default)).All
          (Call.PushesTo (engine.cacheKey entityName naturalKey) me.frappeDoctype) :=
    fun hbase hdoctype =>
      All.bind (FrappeClient.all_request ⟨hbase, hdoctype⟩) fun _ => all_ofExcept _
  unfold sendRecord
  split
  · refine All.bind (hrequest rfl rfl) fun _ => ?_
    exact ((all_resultOp _).mpr trivial).bind fun _ => trivial
  · refine All.bind (hrequest rfl rfl) fun created => ?_
    refine (all_ofExcept _).bind fun name => ?_
    exact ((all_resultOp _).mpr trivial).bind fun _ => trivial

theorem all_pushRecord_of [DecidableEq δ] {P : Call δ → Prop} (spec : EntitySpec)
    (me : MappingEntry) (model : Model)
    (hP : ∀ entityName, entityName = me.entityName ∨ entityName = spec.name → ∀ key, ∀ e : Call δ,
      model.usableKey spec = some key →
        e.PushesTo (engine.cacheKey entityName key) me.frappeDoctype → P e) :
    (engine.pushRecord spec me model).All P := by
  unfold pushRecord
  split
  · trivial
  · next key hkey =>
    have hself : ∀ e : Call δ,
        e.PushesTo (engine.cacheKey spec.name key) me.frappeDoctype → P e :=
      fun e => hP spec.name (.inr rfl) key e hkey
    refine ((all_findExisting _ _ _ _).mono fun e => hP _ (.inl rfl) key e hkey).bind
      fun existing => ?_
    refine (all_sql (hself (.sql (.selectCache _)) rfl)).bind fun cacheEntry => ?_
    split
    · exact ((all_resultOp _).mpr (hself _ trivial)).bind fun _ => trivial
    · refine ((engine.all_sendRecord _ _ _ _ _ _).mono hself).bind fun name => ?_
      exact engine.store.all_upsertCache.mono hself

theorem all_pushRecord [DecidableEq δ] (spec : EntitySpec) (me : MappingEntry)
    (model : Model) :
    (engine.pushRecord spec me model).All (Call.IsPush engine.frappe.baseUrl) :=
  engine.all_pushRecord_of spec me model fun _ _ _ _ _ h => h.isPush

theorem all_fetchRecords (spec : EntitySpec) (request : CollectionRequest) :
    (engine.fetchRecords spec request).All (fun e => e = .tally request) := by
  refine All.tryCatch ?_ fun exc => ?_
  · refine (all_retrying ?_).bind fun response => (all_ofExcept _).bind fun _ => trivial
    exact ((all_perform (P := fun e : Call δ => e = .tally request) _).mpr rfl).bind fun _ =>
      all_ofExcept _
  · split
    · trivial
    · trivial

theorem all_updateLastSync (spec : EntitySpec) (lastAlterId : Option Int) (status : String) :
    (engine.store.updateLastSync spec.name lastAlterId status).All (engine.Syncs spec) := by
  refine (all_now _ trivial).bind fun lastSyncedAt => ?_
  refine (all_now _ trivial).bind fun updatedAt => ?_
  exact all_sql rfl

theorem all_pushFailed (spec : EntitySpec) (record : Record) (exc : Exn) :
    (engine.pushFailed spec record exc).All (engine.Syncs spec) := by
  unfold pushFailed
  split
  · exact ((all_resultOp _).mpr trivial).bind fun _ => trivial
  · refine ((all_resultOp _).mpr trivial).bind fun _ => ?_
    refine (all_now _ trivial).bind fun nextAttemptAt => ?_
    refine (all_now _ trivial).bind fun createdAt => ?_
    exact all_sql rfl

variable [DecidableEq δ]

theorem all_syncRecords {spec : EntitySpec} {mappingEntry : Option MappingEntry}
    (hentry : engine.mapping.entry spec.name = mappingEntry) (records : List Record)
    (maxAlterId : Option Int) :
    (engine.syncRecords spec mappingEntry records maxAlterId).All (engine.Syncs spec) := by
  induction records generalizing maxAlterId with
  | nil => trivial
  | cons record records ih =>
      unfold syncRecords
      split
      · exact ((all_resultOp _).mpr trivial).bind fun _ => ih _
      · next model _ =>
        cases mappingEntry with
        | none => exact ih _
        | some me =>
            have hname := engine.mapping.named _ _ hentry
            refine All.bind ?_ fun _ => ih _
            refine All.tryCatch ?_ fun exc => engine.all_pushFailed spec record exc
            refine engine.all_pushRecord_of spec me model fun entityName hentity key e _ he => ?_
            obtain rfl : entityName = spec.name := hentity.elim (·.trans hname) id
            exact syncs_of_pushesTo hentry he

theorem all_syncEntity (spec : EntitySpec) (since : Option Int) (dateFrom dateTo : Option Date) :
    (engine.syncEntity spec since dateFrom dateTo).All (engine.Syncs spec) := by
  refine ((all_resultOp _).mpr trivial).bind fun _ => ?_
  have hfetch : ∀ e, e = .tally (engine.collectionRequest spec since dateFrom dateTo) →
      engine.Syncs spec e := by
    rintro _ rfl
    exact rfl
  refine ((engine.all_fetchRecords _ _).mono hfetch).bind fun fetched => ?_
  cases fetched with
  | error exc =>
      exact (engine.all_updateLastSync _ _ _).bind fun _ => (all_resultOp _).mpr trivial
  | ok records =>
      refine ((all_resultOp _).mpr trivial).bind fun _ => ?_
      refine (engine.all_syncRecords rfl _ _).bind fun maxAlterId => ?_
      exact (engine.all_updateLastSync _ _ _).bind fun _ => (all_resultOp _).mpr trivial

theorem all_syncEntities {P : Call δ → Prop} (incremental : Bool)
    (hsync : ∀ e : Call δ, e.IsSync engine.frappe.baseUrl → P e)
    (hselect : incremental = true → ∀ name, P (.sql (.selectSyncState name)))
    (specs : List EntitySpec) : (engine.syncEntities incremental specs).All P := by
  induction specs with
  | nil => trivial
  | cons spec specs ih =>
      refine All.bind ?_ fun since => ?_
      · unfold sinceAlterId
        split
        · next hincremental => exact (all_sql (hselect hincremental _)).bind fun _ => trivial
        · trivial
      · refine ((engine.all_syncEntity _ _ _ _).mono fun e h => hsync e h.isSync).bind
          fun result => ?_
        exact ih.bind fun _ => trivial

theorem all_runCycle {P : Call δ → Prop} (incremental : Bool)
    (hsync : ∀ e : Call δ, e.IsSync engine.frappe.baseUrl → P e)
    (hselect : incremental = true → ∀ name, P (.sql (.selectSyncState name))) :
    (engine.runCycle incremental).All P :=
  (all_ofExcept _).bind fun order => engine.all_syncEntities incremental hsync hselect order

theorem all_resyncEntity (entityName : String) (dateFrom dateTo : Option Date) :
    (engine.resyncEntity entityName dateFrom dateTo).All (Call.IsSync engine.frappe.baseUrl) :=
  (all_ofExcept _).bind fun spec =>
    (engine.all_syncEntity spec none dateFrom dateTo).mono fun _ h => h.isSync

theorem all_drainItem (item : RetryRow) :
    (engine.drainItem item).All (Call.Owned engine.frappe.baseUrl) := by
  have howned : ∀ e : Call δ, e.IsPush engine.frappe.baseUrl → e.Owned engine.frappe.baseUrl :=
    fun e h => h.isSync.owned
  refine (all_ofExcept _).bind fun spec => ?_
  cases engine.mapping.entry spec.name with
  | none => exact All.bind (all_sql trivial) fun _ => trivial
  | some me =>
      refine All.tryCatch ?_ fun exc => ?_
      · refine (all_ofExcept _).bind fun model => ?_
        refine ((all_resultOp _).mpr trivial).bind fun _ => ?_
        refine ((engine.all_pushRecord spec me model).mono howned).bind fun _ => ?_
        exact All.bind (all_sql trivial) fun _ => trivial
      · unfold attemptFailed
        split
        · exact All.bind (all_sql trivial) fun _ => trivial
        · refine All.bind ?_ fun nextAttemptAt => ?_
          · refine (all_ofExcept _).bind fun seconds => ?_
            refine (all_clock.mpr trivial).bind fun now => ?_
            exact (all_ofExcept _).bind fun _ => trivial
          · exact All.bind (all_sql trivial) fun _ => trivial

theorem all_processRetryQueue (limit : Int) :
    (engine.processRetryQueue limit).All (Call.Owned engine.frappe.baseUrl) := by
  refine All.bind ?_ fun due => ?_
  · exact (all_now _ trivial).bind fun _ => all_sql trivial
  · generalize 0 = succeeded
    induction due generalizing succeeded with
    | nil => trivial
    | cons item due ih => exact (engine.all_drainItem item).bind fun _ => ih _

/-- An operation only touches cache rows and documents of its own target. -/
theorem all_prog (op : Operation) : (engine.prog op).All (Call.Owned engine.frappe.baseUrl) := by
  have howned : ∀ e : Call δ, e.IsSync engine.frappe.baseUrl → e.Owned engine.frappe.baseUrl :=
    fun _ h => h.owned
  cases op with
  | fullSync =>
      exact (engine.all_runCycle false howned fun _ _ => trivial).bind fun _ => trivial
  | incrementalSync =>
      exact (engine.all_runCycle true howned fun _ _ => trivial).bind fun _ => trivial
  | resyncEntity entityName dateFrom dateTo =>
      exact ((engine.all_resyncEntity entityName dateFrom dateTo).mono howned).bind fun _ => trivial
  | processRetryQueue limit => exact (engine.all_processRetryQueue limit).bind fun _ => trivial

end SyncEngine

end TallyConnector
