import TallyConnector.Sync.Refinement
import TallyConnector.Tally.Rows
import TallyConnector.World.Receipts

/-! # The keys of queued records

A record whose push fails is queued under a key that is read off the parsed
dictionary, with two fallbacks, while the push had read its natural key off the
validated model. The queue has one row for each key, so a difference between
the two would let one failed record replace another.

The two agree for every record that comes out of the parser, since it strips
all it reads, as the models do. The voucher type alone is not read: it is the
filter of the spec, and that is not stripped.
-/

namespace TallyConnector

open Effects Prog Tables

/-! ## Specs whose natural key is a text -/

/-- The natural key is a string field of the model: when it is set, it is the
stripped text of the field in the raw record. -/
def EntitySpec.StringKey (spec : EntitySpec) : Prop :=
  ∀ raw model key, spec.pydanticModel raw = .ok model → model.naturalKey spec = some key →
    ∃ s, raw.lookup spec.naturalKeyField = some (.str s) ∧ key = pyStrip s

/-- A voucher type that is the natural key has no whitespace around it. -/
def EntitySpec.StrippedFilter (spec : EntitySpec) : Prop :=
  spec.naturalKeyField = "voucher_type" → spec.isVoucher →
    ∀ name, spec.voucherTypeFilter = some name → Stripped name

theorem naturalKey_eq_some {model : Model} {spec : EntitySpec} {key : String}
    (h : model.naturalKey spec = some key) :
    model.dump.lookup spec.naturalKeyField = some (.str key) := by
  unfold Model.naturalKey at h
  split at h
  · next s hs =>
    cases h
    exact hs
  · cases h

/-- The string fields of `TallyMaster`. -/
theorem stringKey_master {spec : EntitySpec} {pydantic : Pydantic}
    (hstrips : pydantic.StripsStrings) (hmodel : spec.pydanticModel = pydantic.tallyMaster)
    (hfield : spec.naturalKeyField ∈ ["guid", "name", "parent"]) : spec.StringKey := by
  intro raw model key h hkey
  have hlookup := naturalKey_eq_some hkey
  rw [hmodel] at h
  rcases Pydantic.tallyMaster_ok h with ⟨guid, name, parent, alterId, hguid, hname, hparent, rfl⟩
  simp only [List.mem_cons, List.not_mem_nil, or_false] at hfield
  rcases hfield with hfield | hfield | hfield
  · rw [hfield] at hlookup ⊢
    have heq : guid = .str key := by simpa [Finmap.lookup_insert_of_ne] using hlookup
    exact Pydantic.optionalStrField_ok hstrips (heq ▸ hguid)
  · rw [hfield] at hlookup ⊢
    have heq : name = .str key := by simpa [Finmap.lookup_insert_of_ne] using hlookup
    rcases Pydantic.strField_ok hstrips hname with ⟨s, hs, hvalue⟩
    rw [heq] at hvalue
    exact ⟨s, hs, Json.str.inj hvalue⟩
  · rw [hfield] at hlookup ⊢
    have heq : parent = .str key := by simpa [Finmap.lookup_insert_of_ne] using hlookup
    exact Pydantic.optionalStrField_ok hstrips (heq ▸ hparent)

/-- The string fields of `TallyVoucher`. -/
theorem stringKey_voucher {spec : EntitySpec} {pydantic : Pydantic}
    (hstrips : pydantic.StripsStrings) (hmodel : spec.pydanticModel = pydantic.tallyVoucher)
    (hfield : spec.naturalKeyField ∈
      ["guid", "voucher_type", "voucher_number", "party_ledger_name", "narration"]) :
    spec.StringKey := by
  intro raw model key h hkey
  have hlookup := naturalKey_eq_some hkey
  rw [hmodel] at h
  rcases pydantic.tallyVoucher_ok h with ⟨⟨guid, hguid, hguid'⟩, ⟨type, htype, htype'⟩, hoptional⟩
  -- `guid` and `voucher_type` are required texts
  have hrequired : ∀ {value}, pydantic.strField raw spec.naturalKeyField = .ok value →
      model.dump.lookup spec.naturalKeyField = some value →
      ∃ s, raw.lookup spec.naturalKeyField = some (.str s) ∧ key = pyStrip s := by
    intro value hvalue hvalue'
    rcases Pydantic.strField_ok hstrips hvalue with ⟨s, hs, heq⟩
    rw [hlookup, heq] at hvalue'
    exact ⟨s, hs, Json.str.inj (Option.some.inj hvalue')⟩
  rcases List.mem_cons.mp hfield with hfield | hfield
  · rw [← hfield] at hguid hguid'
    exact hrequired hguid hguid'
  rcases List.mem_cons.mp hfield with hfield | hfield
  · rw [← hfield] at htype htype'
    exact hrequired htype htype'
  -- the other keys are optional ones
  rcases hoptional _ hfield with ⟨value, hvalue, hvalue'⟩
  rw [hlookup] at hvalue'
  exact Pydantic.optionalStrField_ok hstrips (Option.some.inj hvalue' ▸ hvalue)

/-! ## The key of an enqueue -/

/-- For a record out of the parser, the key it is queued under is its natural
key. -/
theorem recordGuid_parseRow {spec : EntitySpec} (hstring : spec.StringKey)
    (hfilter : spec.StrippedFilter) {row : Element} {model : Model} {key : String}
    (hmodel : toModel (parseRow spec row) spec = .ok model)
    (hkey : model.usableKey spec = some key) :
    SyncEngine.recordGuid spec (parseRow spec row) = .str key := by
  rcases hstring _ model key (toModel_ok.mp hmodel) (Model.usableKey_eq_some.mp hkey).1 with
    ⟨s, hs, rfl⟩
  have hstripped : Stripped s := by
    rcases stripped_parseRow hs with h | ⟨hfield, hvoucher, hname⟩
    · exact h
    · exact hfilter hfield hvoucher s hname
  unfold SyncEngine.recordGuid
  rw [hs, show pyStrip s = s from hstripped]
  rfl

section
variable {δ : Type}

/-- An enqueue is made under the natural key of the record, which is not
empty. -/
def Call.QueuesByKey (spec : EntitySpec) : Call δ → Prop
  | .sql (.upsertRetry entityName recordGuid _ payloadJson _ _ _) =>
      entityName = spec.name ∧ ∃ model key, toModel payloadJson spec = .ok model ∧
        model.usableKey spec = some key ∧ key ≠ "" ∧ recordGuid = .str key
  | _ => True

theorem Call.IsPush.queuesByKey {spec : EntitySpec} {baseUrl : String} {e : Call δ}
    (h : e.IsPush baseUrl) : e.QueuesByKey spec := by
  cases e with
  | sql stmt => cases stmt <;> trivial
  | _ => trivial

variable (engine : SyncEngine δ) {spec : EntitySpec}

/-- Only a record with a natural key is queued when its push has failed. -/
theorem all_pushFailed_queuesByKey {record : Record} {model : Model} {key : String} (exc : Exn)
    (hmodel : toModel record spec = .ok model) (hkey : model.usableKey spec = some key)
    (hguid : SyncEngine.recordGuid spec record = .str key) :
    (engine.pushFailed spec record exc).All (Call.QueuesByKey spec) := by
  unfold SyncEngine.pushFailed
  split
  · exact ((all_resultOp _).mpr trivial).bind fun _ => trivial
  · refine ((all_resultOp _).mpr trivial).bind fun _ => ?_
    refine (all_now _ trivial).bind fun nextAttemptAt => ?_
    refine (all_now _ trivial).bind fun createdAt => ?_
    exact all_sql ⟨rfl, model, key, hmodel, hkey, (Model.usableKey_eq_some.mp hkey).2, hguid⟩

variable [DecidableEq δ]

theorem all_syncRecords_queuesByKey (mappingEntry : Option MappingEntry) {records : List Record}
    (hrecords : ∀ record ∈ records, ∀ model key, toModel record spec = .ok model →
      model.usableKey spec = some key → SyncEngine.recordGuid spec record = .str key)
    (maxAlterId : Option Int) :
    (engine.syncRecords spec mappingEntry records maxAlterId).All (Call.QueuesByKey spec) := by
  induction records generalizing maxAlterId with
  | nil => trivial
  | cons record records ih =>
    have hrest := ih fun record' h => hrecords record' (List.mem_cons_of_mem record h)
    unfold SyncEngine.syncRecords
    split
    · exact ((all_resultOp _).mpr trivial).bind fun _ => hrest _
    · next model hmodel =>
      cases mappingEntry with
      | none => exact hrest _
      | some me =>
        refine All.bind ?_ fun _ => hrest _
        cases hkey : model.usableKey spec with
        | none =>
          -- the push raises `TallyDataError` at once, and that is not retried
          have hraise : ∃ message, engine.pushRecord spec me model =
              raise .tallyDataError message := by
            unfold SyncEngine.pushRecord
            rw [hkey]
            exact ⟨_, rfl⟩
          rcases hraise with ⟨message, hraise⟩
          rw [hraise]
          exact ((all_resultOp _).mpr trivial).bind fun _ => trivial
        | some key =>
          refine All.tryCatch ?_ fun exc => ?_
          · exact (engine.all_pushRecord spec me model).mono fun _ h => h.queuesByKey
          · exact all_pushFailed_queuesByKey engine exc hmodel hkey
              (hrecords record List.mem_cons_self model key hmodel hkey)

omit [DecidableEq δ] in
/-- The records of a fetch are records of rows. -/
theorem yields_fetchRecords (request : CollectionRequest) :
    (engine.fetchRecords spec request).Yields fun fetched =>
      ∀ records, fetched = .ok records → ∀ record ∈ records, ∃ row, record = parseRow spec row := by
  refine Yields.tryCatch (Yields.bind fun response => ?_) fun exc => ?_
  · cases hparse : parseCollectionResponse engine.ext.fromstring response spec with
    | error exc => trivial
    | ok records =>
      intro records' heq record hrecord
      cases heq
      exact exists_row_of_mem hparse hrecord
  · split
    · intro records heq
      cases heq
    · trivial

theorem all_syncEntity_queuesByKey (hstring : spec.StringKey) (hfilter : spec.StrippedFilter)
    (since : Option Int) (dateFrom dateTo : Option Date) :
    (engine.syncEntity spec since dateFrom dateTo).All (Call.QueuesByKey spec) := by
  have hupdate : ∀ lastAlterId status, (do
      engine.store.updateLastSync spec.name lastAlterId status
      resultOp .read : Py δ EntitySyncResult).All (Call.QueuesByKey spec) := by
    intro lastAlterId status
    refine All.bind ?_ fun _ => (all_resultOp _).mpr trivial
    refine (all_now _ trivial).bind fun lastSyncedAt => ?_
    exact (all_now _ trivial).bind fun updatedAt => all_sql trivial
  refine ((all_resultOp _).mpr trivial).bind fun _ => ?_
  refine All.bind_yields ?_ (yields_fetchRecords engine _) fun fetched hfetched => ?_
  · refine (engine.all_fetchRecords _ _).mono ?_
    rintro _ rfl
    trivial
  · cases fetched with
    | error exc => exact hupdate _ _
    | ok records =>
      refine ((all_resultOp _).mpr trivial).bind fun _ => ?_
      refine (all_syncRecords_queuesByKey engine _ ?_ _).bind fun maxAlterId => hupdate _ _
      intro record hrecord model key hmodel hkey
      rcases hfetched records rfl record hrecord with ⟨row, rfl⟩
      exact recordGuid_parseRow hstring hfilter hmodel hkey

/-! ## The rows of a run -/

variable {ops : Operation → Prop} {allow : Assumed δ} {w w' : World δ}

/-- Every queued record of the entity is queued under its natural key. -/
def QueuedByKey (spec : EntitySpec) (w : World δ) : Prop :=
  ∀ row ∈ w.db.retryQueue.rows, row.key.entityName = spec.name →
    spec.keyOf row.val.payloadJson = some row.key.recordGuid

variable {engine}

omit [DecidableEq δ] in
/-- A fetched record is queued under its natural key. -/
theorem guid_of_fetched {item : Item engine} (hstring : item.spec.StringKey)
    (hfilter : item.spec.StrippedFilter) (hfetched : item.Fetched w) {guid : String}
    (hguid : bindTextNotNull "retry_queue.record_guid"
      (SyncEngine.recordGuid item.spec item.raw) = .ok guid) : guid = item.key := by
  rcases hfetched with ⟨fetch, records, -, -, hrecords, hraw⟩
  unfold SyncEngine.recordsOf at hrecords
  split at hrecords
  · next response _ =>
    rcases exists_row_of_mem hrecords hraw with ⟨row, hrow⟩
    have hmodel := item.hmodel
    rw [hrow] at hmodel
    rw [hrow, recordGuid_parseRow hstring hfilter hmodel item.hkey, bindTextNotNull_str] at hguid
    exact (Except.ok.inj hguid).symm
  · cases hrecords

omit [DecidableEq δ] in
theorem queuedByKey_step (hspec : spec ∈ engine.registry.specs) (hstring : spec.StringKey)
    (hfilter : spec.StrippedFilter) (hstep : engine.Step ops allow w w')
    (h : QueuedByKey spec w) : QueuedByKey spec w' := by
  cases hstep with
  | enqueue item guid data hfetched hguid hpayload =>
    intro row hrow hentity
    rcases World.of_mem_enqueue hrow with ⟨hkey, hraw⟩ | hold
    · -- the row of the item
      have hname : item.spec.name = spec.name := by
        rw [hkey] at hentity
        exact hentity
      have heq : item.spec = spec := engine.registry.eq_of_name item.hspec hspec hname
      subst heq
      rw [hraw, hpayload, hkey, item.keyOf_raw, guid_of_fetched hstring hfilter hfetched hguid]
    · exact h row hold hentity
  | settle id _ =>
    intro row hrow hentity
    exact h row (AutoTable.mem_delete.mp hrow).1 hentity
  | reschedule id error nextAttemptAt =>
    intro row hrow hentity
    rcases World.of_mem_reschedule hrow with ⟨old, hold, hkey, hraw⟩
    rw [hkey] at hentity
    rw [hraw, hkey]
    exact h old hold hentity
  | _ => exact h

/-- The queue keeps the records of an entity apart by their natural keys. -/
structure SyncEngine.KeepsApart (engine : SyncEngine δ) (spec : EntitySpec) : Prop where
  /-- Every enqueue of a sync is made under the natural key of the record. -/
  enqueues : ∀ since dateFrom dateTo,
    (engine.syncEntity spec since dateFrom dateTo).All (Call.QueuesByKey spec)
  /-- In every run, a row holds a record of the natural key it is queued
  under. -/
  rows : ∀ {ops : Operation → Prop} {allow : Assumed δ}
    {c : Config (@Call.Resp δ) Exn (World δ)},
    (engine.machine ops).Reach allow World.Fresh c → QueuedByKey spec c.world
  /-- Whatever a row held before, it was a record of the same natural key. -/
  overwrites : ∀ {ops : Operation → Prop} {allow : Assumed δ}
    {c c' : Config (@Call.Resp δ) Exn (World δ)},
    (engine.machine ops).Reach allow World.Fresh c →
    (engine.machine ops).Reach allow World.Fresh c' →
    ∀ row ∈ c.world.db.retryQueue.rows, ∀ row' ∈ c'.world.db.retryQueue.rows,
      row.key = row'.key → row.key.entityName = spec.name →
      spec.keyOf row.val.payloadJson = spec.keyOf row'.val.payloadJson

variable (engine) in
/-- The queue keeps records apart when the natural key is a string field of the
model, and no voucher type with whitespace around it. -/
theorem queue_keeps_apart (hspec : spec ∈ engine.registry.specs) (hstring : spec.StringKey)
    (hfilter : spec.StrippedFilter) : engine.KeepsApart spec := by
  have hrows : ∀ {ops : Operation → Prop} {allow : Assumed δ}
      {c : Config (@Call.Resp δ) Exn (World δ)},
      (engine.machine ops).Reach allow World.Fresh c → QueuedByKey spec c.world := by
    intro ops allow c hc
    refine engine.invariant ?_ (fun w w' hstep => queuedByKey_step hspec hstring hfilter hstep) hc
    intro w hw row hrow
    rw [hw.db] at hrow
    cases hrow
  constructor
  · intro since dateFrom dateTo
    exact all_syncEntity_queuesByKey engine hstring hfilter since dateFrom dateTo
  · exact hrows
  · intro ops allow c c' hc hc' row hrow row' hrow' hkey hentity
    rw [hrows hc row hrow hentity, hrows hc' row' hrow' (hkey ▸ hentity), hkey]

end

/-! ## Groups, and receipts with a padded filter -/

theorem queue_keeps_apart_groups : (groupEngine 1 [[assets]]).KeepsApart group :=
  queue_keeps_apart _ (group_mem_specs _ _)
      (stringKey_master stripsStrings_groupPydantic rfl List.mem_cons_self)
    fun hfield => absurd hfield (by decide)

/-- The receipts under their voucher type, with a filter that is padded. -/
def paddedReceipts : EntitySpec :=
  { Receipt.spec with
    voucherTypeFilter := some " Receipt "
    naturalKeyField := "voucher_type" }

def firstReceipt : Receipt := { guid := "r-1", day := 738917, date := "20240201", alterId := 1 }

/-- The company as it is synced under that spec. -/
def paddedCompany : Company :=
  ⟨[{ firstReceipt.version with raw := parseRow paddedReceipts firstReceipt.element }], 1⟩

def paddedEngine : SyncEngine Dict :=
  { Receipt.engine [[firstReceipt]] with
    settings := { frappeBaseUrl := "https://erp.example.com", retryMaxAttempts := 1 }
    registry := { specs := [paddedReceipts], nodup := by decide } }

/-- A receipt whose push is refused is queued under the filter, not under its
voucher type. -/
theorem padded_not_apart :
    paddedReceipts ∈ paddedEngine.registry.specs ∧ paddedReceipts.StringKey ∧
      ¬ paddedEngine.KeepsApart paddedReceipts := by
  refine ⟨List.mem_cons_self, stringKey_voucher stripsStrings_groupPydantic rfl (by decide), ?_⟩
  intro hapart
  have hinit : (groupWorld paddedCompany).Fresh := ⟨rfl, rfl, rfl, rfl⟩
  obtain ⟨c, hc, hfinal⟩ := Machine.Reach.exists_of_run
    (M := paddedEngine.machine fun _ => True) paddedEngine.snapshots_of_check hinit
    [.start ⟨.resyncEntity "receipt_voucher" none none, trivial⟩, .call .inMemory,
      .call (.tally (.response 200 (Receipt.page [firstReceipt]))), .call .inMemory,
      .call .commit, .call (.serve "" []), .call .commit,
      .call (.refuse (.response { status := 417, body := .empty })),
      .call .inMemory, .call (.clock 0), .call (.clock 0), .call .commit]
    (fun c => c.world.db.retryQueue.rows.any fun row =>
      decide (row.key.entityName = "receipt_voucher" ∧ row.key.recordGuid = " Receipt " ∧
        paddedReceipts.keyOf row.val.payloadJson = some "Receipt"))
    (by decide +kernel)
  rcases List.any_eq_true.mp hfinal with ⟨row, hrow, hpadded⟩
  rcases of_decide_eq_true hpadded with ⟨hentity, hguid, hkey⟩
  have hsame := hapart.rows hc row hrow hentity
  rw [hkey, hguid] at hsame
  exact absurd hsame (by decide)

end TallyConnector
