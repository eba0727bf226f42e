import TallyConnector.Sync.OpenPush
import TallyConnector.Sync.Refinement

/-! # A sync against any answers

The sync of an entity and the cycle over all entities taken apart: the fetch,
the treatment of one record after the other, the checkpoint. A complete run is
described by `Synced` and `Cycled`, with one constructor for each way it goes.
-/

namespace TallyConnector

open Effects Prog

variable {δ : Type} {s s' s₁ : Session δ}

/-! ## Steps of a sync -/

namespace Session

/-- Collection requests with these outcomes, the latest first. -/
def fetch (s : Session δ) (request : CollectionRequest) (outcomes : List TallyOutcome) :
    Session δ :=
  { s with history := outcomes.map (.fetched request) ++ s.history }

/-- The `sync_state` row of an entity is written. -/
def checkpoint (s : Session δ) (entityName : String) (row : SyncStateRow) : Session δ :=
  s.execute (.upsertSyncState entityName row) { s.db with
    syncState := Function.update s.db.syncState entityName (some row) }

/-- A record is queued. -/
def enqueue (s : Session δ) (entityName guid : String) (recordGuid : Json)
    (data : RetryData) : Session δ :=
  s.execute (.upsertRetry entityName recordGuid "create" data.payloadJson data.nextAttemptAt
    data.lastError data.createdAt) { s.db with
      retryQueue := s.db.retryQueue.upsert ⟨entityName, guid, "create"⟩ data data.onConflict }

end Session

namespace SyncEngine

variable [DecidableEq δ] (engine : SyncEngine δ)

/-- The body of the record loop of `_sync_entity`. -/
def syncRecord (spec : EntitySpec) (mappingEntry : Option MappingEntry) (record : Record) :
    Py δ Unit :=
  match toModel record spec with
  | .error _ => do
      let _ ← resultOp .failed
      pure ()
  | .ok model =>
      match mappingEntry with
      | none => pure ()
      | some me => tryCatch (engine.pushRecord spec me model) (engine.pushFailed spec record)

/-- Each record is treated once, and of the other records only the running
maximum is kept. -/
theorem syncRecords_cons (spec : EntitySpec) (mappingEntry : Option MappingEntry)
    (record : Record) (records : List Record) (maxAlterId : Option Int) :
    engine.syncRecords spec mappingEntry (record :: records) maxAlterId = (do
      engine.syncRecord spec mappingEntry record
      engine.syncRecords spec mappingEntry records (seen spec maxAlterId record)) := by
  simp only [syncRecords, syncRecord]
  cases hmodel : toModel record spec with
  | error exc =>
      rw [seen_of_error hmodel]
      rfl
  | ok model =>
      rw [seen_of_ok hmodel]
      cases mappingEntry with
      | none => rfl
      | some me => rfl

end SyncEngine

/-! ## The treatment of a record -/

section treatment

variable (engine : SyncEngine δ) (outside : Outside δ) (spec : EntitySpec)

/-- The record cannot be pushed: it is invalid, or its entity is mapped and it
has no usable natural key. -/
def SyncEngine.Drops (raw : Record) : Prop :=
  (∃ exc, toModel raw spec = .error exc) ∨
    (engine.mapping.entry spec.name).isSome ∧ spec.keyOf raw = none

/-- How the treatment of a record can end. -/
inductive SyncEngine.Treated (raw : Record) (s : Session δ) :
    List (Exchange δ) → Except Exn Unit → Session δ → Prop
  /-- Counted as failed and dropped. -/
  | dropped (hdrops : engine.Drops spec raw) :
      Treated raw s [.counted .failed] (.ok ()) (s.count .failed)
  /-- Valid, but there is nowhere to push it. -/
  | unmapped (model : Model) (hmodel : toModel raw spec = .ok model)
      (hme : engine.mapping.entry spec.name = none) : Treated raw s [] (.ok ()) s
  | pushed (item : Item engine) (hspec : item.spec = spec) (hraw : item.raw = raw)
      {new : List (Exchange δ)} {s' : Session δ} (hpushed : item.Pushed outside s new (.ok ()) s') :
      Treated raw s new (.ok ()) s'
  /-- The push raised, and the record was queued. -/
  | queued (item : Item engine) (hspec : item.spec = spec) (hraw : item.raw = raw)
      {new : List (Exchange δ)} {s₁ : Session δ} {exc : Exn}
      (hpushed : item.Pushed outside s new (.error exc) s₁) (guid : String)
      (hguid : bindTextNotNull "retry_queue.record_guid" (SyncEngine.recordGuid spec raw) =
        .ok guid)
      (nextAttemptAt createdAt : String) :
      Treated raw s
        (.executed (.upsertRetry spec.name (SyncEngine.recordGuid spec raw) "create" raw
          nextAttemptAt (some exc.message) createdAt) :: .counted .failed :: new) (.ok ())
        ((s₁.count .failed).enqueue spec.name guid (SyncEngine.recordGuid spec raw)
          ⟨raw, 0, nextAttemptAt, some exc.message, createdAt⟩)
  /-- The push raised, and the record could not be queued. -/
  | aborted (item : Item engine) (hspec : item.spec = spec) (hraw : item.raw = raw)
      {new : List (Exchange δ)} {s₁ : Session δ} {exc : Exn}
      (hpushed : item.Pushed outside s new (.error exc) s₁) (stmt : Stmt δ) (exc' : Exn)
      (hexc' : bindTextNotNull "retry_queue.record_guid" (SyncEngine.recordGuid spec raw) =
        .error exc' ∨ outside.fault stmt exc') :
      Treated raw s (.rejected stmt exc' :: .counted .failed :: new) (.error exc')
        ((s₁.count .failed).add (.rejected stmt exc'))

variable {engine outside spec}

theorem Item.not_drops (item : Item engine) : ¬ engine.Drops item.spec item.raw := by
  rintro (⟨exc, hexc⟩ | ⟨-, hkey⟩)
  · rw [item.hmodel] at hexc
    cases hexc
  · rw [item.keyOf_raw] at hkey
    cases hkey

theorem SyncEngine.Treated.after {raw : Record} {new : List (Exchange δ)} {r : Except Exn Unit}
    (h : engine.Treated outside spec raw s new r s') : s.After new s' := by
  cases h with
  | dropped _ => rfl
  | unmapped _ _ _ => rfl
  | pushed item _ _ hpushed => exact hpushed.after
  | queued item _ _ hpushed guid _ nextAttemptAt createdAt =>
      exact congrArg (fun history => _ :: _ :: history) hpushed.after
  | aborted item _ _ hpushed stmt exc' _ =>
      exact congrArg (fun history => _ :: _ :: history) hpushed.after

theorem open_pushFailed (item : Item engine) {exc : Exn} {new : List (Exchange δ)}
    (hpushed : item.Pushed outside s new (.error exc) s₁) (hexc : exc.Transient) :
    (engine.pushFailed item.spec item.raw exc).Always outside.step
      (fun r s' => ∃ new, engine.Treated outside item.spec item.raw s new r s') s₁ := by
  unfold SyncEngine.pushFailed
  have hkind : ¬ exc.kind = .tallyDataError := by
    intro hkind
    simp [Exn.Transient, Exn.isPermanent, hkind] at hexc
  rw [if_neg hkind]
  refine .bind (open_resultOp ?_)
  refine .bind (open_now fun nextAttemptAt => .bind (open_now fun createdAt => ?_))
  refine open_sql (fun result db hexec => ?_) fun exc' hexc' => ?_
  · simp only [DB.exec] at hexec
    split at hexec
    · cases hexec
    · next guid hguid =>
      cases hexec
      exact ⟨_, .queued item rfl rfl hpushed guid hguid nextAttemptAt createdAt⟩
  · -- the row was not written: its key could not be bound, or the database failed
    refine ⟨_, .aborted item rfl rfl hpushed _ exc' ?_⟩
    rcases hexc' with hexec | hfault
    · left
      simp only [DB.exec] at hexec
      split at hexec
      · next hbind =>
        cases hexec
        exact hbind
      · cases hexec
    · exact .inr hfault

variable [DecidableEq δ]

theorem open_syncRecord (hspec : spec ∈ engine.registry.specs) (raw : Record) :
    (engine.syncRecord spec (engine.mapping.entry spec.name) raw).Always outside.step
      (fun r s' => ∃ new, engine.Treated outside spec raw s new r s') s := by
  unfold SyncEngine.syncRecord
  cases hmodel : toModel raw spec with
  | error exc => exact .bind (open_resultOp ⟨_, .dropped (.inl ⟨exc, hmodel⟩)⟩)
  | ok model =>
      cases hme : engine.mapping.entry spec.name with
      | none => exact ⟨_, .unmapped model hmodel hme⟩
      | some me =>
          dsimp only
          cases hkey : model.usableKey spec with
          | none =>
              -- refused as TallyDataError, counted as failed
              obtain ⟨text, htext⟩ := engine.pushRecord_of_none me hkey
              rw [htext]
              refine .bind (open_resultOp ⟨_, .dropped (.inr ⟨?_, ?_⟩)⟩)
              · rw [hme]
                rfl
              · rw [keyOf_of_ok hmodel, hkey]
          | some key =>
              let item : Item engine := ⟨spec, me, raw, model, key, hspec, hme, hmodel, hkey⟩
              refine .tryCatch ((open_pushRecord item).mono fun r s₁ hr => ?_)
              obtain ⟨new, hpushed⟩ := hr
              cases r with
              | ok _ => exact ⟨new, .pushed item rfl rfl hpushed⟩
              | error exc =>
                  refine open_pushFailed item hpushed ?_
                  cases hpushed with
                  | failed _ _ _ _ hexc => exact hexc
                  | lost _ _ _ _ _ _ _ _ hexc => exact hexc

end treatment

/-! ## The record loop -/

/-- The treatment of one record in a loop: the record, the session before and
after, and the exchanges in between. -/
structure Part (δ : Type) where
  raw : Record
  before : Session δ
  new : List (Exchange δ)
  after : Session δ

/-- The exchanges of a loop, the latest first. -/
def exchanges : List (Part δ) → List (Exchange δ)
  | [] => []
  | part :: parts => exchanges parts ++ part.new

section loop

variable [DecidableEq δ] (engine : SyncEngine δ) (outside : Outside δ) (spec : EntitySpec)

/-- Records treated one after the other, without interruption: each part is a
run of the body of the loop. -/
inductive SyncEngine.Passes : Session δ → List (Part δ) → Session δ → Prop
  | nil (s : Session δ) : Passes s [] s
  | cons {s s' : Session δ} {part : Part δ} {parts : List (Part δ)} (hbefore : part.before = s)
      (hrun : (engine.syncRecord spec (engine.mapping.entry spec.name) part.raw).Runs outside.step
        part.before (.ok ()) part.after)
      (h : engine.Treated outside spec part.raw part.before part.new (.ok ()) part.after)
      (hrest : Passes part.after parts s') : Passes s (part :: parts) s'

variable {engine outside spec}

theorem SyncEngine.Passes.after {parts : List (Part δ)}
    (h : engine.Passes outside spec s parts s') : s.After (exchanges parts) s' := by
  induction h with
  | nil s => rfl
  | cons hbefore _ htreated _ ih =>
      subst hbefore
      exact htreated.after.trans ih

variable {since : Option Int}

/-- The loop treats every record, or is interrupted by one. -/
theorem open_syncRecords (hspec : spec ∈ engine.registry.specs) (records : List Record) :
    (engine.syncRecords spec (engine.mapping.entry spec.name) records since).Always outside.step
      (fun r s' => match r with
        | .ok maxAlterId => maxAlterId = records.foldl (SyncEngine.seen spec) since ∧
            ∃ parts, parts.map (·.raw) = records ∧ engine.Passes outside spec s parts s'
        | .error exc => ∃ parts raw rest s₁ new, records = parts.map (·.raw) ++ raw :: rest ∧
            engine.Passes outside spec s parts s₁ ∧
            engine.Treated outside spec raw s₁ new (.error exc) s') s := by
  induction records generalizing s since with
  | nil => exact ⟨rfl, [], rfl, .nil s⟩
  | cons raw records ih =>
      rw [SyncEngine.syncRecords_cons]
      refine .bind ((open_syncRecord hspec raw).with_runs.mono fun r s₁ hr => ?_)
      obtain ⟨hrun, new, htreated⟩ := hr
      cases r with
      | error exc => exact ⟨[], raw, records, s, new, rfl, .nil s, htreated⟩
      | ok _ =>
          refine ih.mono fun r s' hr => ?_
          -- the record joins those that were passed
          let part : Part δ := ⟨raw, s, new, s₁⟩
          cases r with
          | ok maxAlterId =>
              obtain ⟨rfl, parts, hparts, hpasses⟩ := hr
              exact ⟨rfl, part :: parts, by rw [List.map_cons, hparts], .cons rfl hrun htreated hpasses⟩
          | error exc =>
              obtain ⟨parts, raw', rest, s₂, new', hrecords, hpasses, hlast⟩ := hr
              exact ⟨part :: parts, raw', rest, s₂, new', by rw [hrecords]; rfl,
                .cons rfl hrun htreated hpasses, hlast⟩

end loop

/-! ## The fetch -/

section fetch

variable {engine : SyncEngine δ} {outside : Outside δ} {spec : EntitySpec}
variable {request : CollectionRequest}

/-- Every outcome fails, as a request or as a response. -/
def SyncEngine.FetchFails (engine : SyncEngine δ) (spec : EntitySpec)
    (outcomes : List TallyOutcome) : Prop :=
  ∀ outcome ∈ outcomes, ∃ exc, engine.recordsOf spec outcome = .error exc

theorem SyncEngine.FetchFails.cons {outcome : TallyOutcome} {rest : List TallyOutcome}
    {exc : Exn} (hrest : engine.FetchFails spec rest)
    (h : engine.recordsOf spec outcome = .error exc) :
    engine.FetchFails spec (outcome :: rest) := by
  intro outcome' hmem
  rcases List.mem_cons.mp hmem with rfl | hmem
  · exact ⟨exc, h⟩
  · exact hrest outcome' hmem

theorem isTallyConnectorError_of_readOutcome {client : TallyClient δ} {outcome : TallyOutcome}
    {exc : Exn} (h : client.readOutcome outcome = .error exc) :
    exc.isTallyConnectorError = true := by
  unfold TallyClient.readOutcome at h
  split at h
  · cases h
    rfl
  · cases h
    rfl
  · cases h
    rfl
  · split at h
    · cases h
      rfl
    · split at h <;> cases h
      rfl

theorem isTallyConnectorError_of_parse {fromstring : Bytes → Except String Element}
    {response : Bytes} {exc : Exn}
    (h : parseCollectionResponse fromstring response spec = .error exc) :
    exc.isTallyConnectorError = true := by
  unfold parseCollectionResponse at h
  split at h <;> cases h
  rfl

/-- A fetch ends with the first response that can be read, or fails with all
its attempts; it never raises. -/
theorem open_fetchRecords :
    (engine.fetchRecords spec request).Always outside.step
      (fun (r : Except Exn (Except Exn (List Record))) s' =>
        ∃ outcomes, s' = s.fetch request outcomes ∧ match r with
        | .ok (.ok records) => ∃ outcome rest, outcomes = outcome :: rest ∧
            engine.recordsOf spec outcome = .ok records ∧ engine.FetchFails spec rest
        | .ok (.error _) => outcomes ≠ [] ∧ engine.FetchFails spec outcomes
        | .error _ => False) s := by
  -- the attempts, up to the response that is parsed
  have hsend : (engine.tally.sendRequest request).Always outside.step
      (fun r s' => ∃ outcome rest, s' = s.fetch request (outcome :: rest) ∧
        engine.FetchFails spec rest ∧ engine.tally.readOutcome outcome = r) s := by
    refine always_retrying (I := fun s' => ∃ outcomes, s' = s.fetch request outcomes ∧
      engine.FetchFails spec outcomes) ?_ ⟨[], rfl, by simp [SyncEngine.FetchFails]⟩
    rintro s₁ ⟨outcomes, rfl, hfails⟩
    refine .bind ?_
    rintro outcome s' ⟨reply, -, he⟩
    cases reply <;> cases he
    refine .ofExcept ?_
    refine ⟨⟨outcome, outcomes, rfl, hfails, rfl⟩, fun exc hread => ?_⟩
    have houtcome : engine.recordsOf spec outcome = .error exc := by
      simp only [SyncEngine.recordsOf, hread]
    exact ⟨outcome :: outcomes, rfl, hfails.cons houtcome⟩
  refine .tryCatch (.bind (hsend.mono fun r s' hr => ?_))
  obtain ⟨outcome, rest, rfl, hrest, hread⟩ := hr
  cases r with
  | error exc =>
      dsimp only
      rw [if_pos (isTallyConnectorError_of_readOutcome hread)]
      have houtcome : engine.recordsOf spec outcome = .error exc := by
        simp only [SyncEngine.recordsOf, hread]
      exact ⟨_, rfl, List.cons_ne_nil _ _, hrest.cons houtcome⟩
  | ok response =>
      refine .bind (.ofExcept ?_)
      cases hparse : parseCollectionResponse engine.ext.fromstring response spec with
      | error exc =>
          dsimp only
          rw [if_pos (isTallyConnectorError_of_parse hparse)]
          have houtcome : engine.recordsOf spec outcome = .error exc := by
            simp only [SyncEngine.recordsOf, hread, hparse]
          exact ⟨_, rfl, List.cons_ne_nil _ _, hrest.cons houtcome⟩
      | ok records =>
          refine ⟨_, rfl, outcome, rest, rfl, ?_, hrest⟩
          simp only [SyncEngine.recordsOf, hread, hparse]

end fetch

/-! ## _sync_entity -/

/-- The exchanges of a sync up to its record loop, the latest first. -/
def opening (spec : EntitySpec) (request : CollectionRequest) (outcomes : List TallyOutcome) :
    List (Exchange δ) :=
  outcomes.map (.fetched request) ++ [.counted (.new spec.name)]

theorem fetched_mem_opening {spec : EntitySpec} {request request' : CollectionRequest}
    {outcomes : List TallyOutcome} {outcome : TallyOutcome} :
    (Exchange.fetched request' outcome : Exchange δ) ∈ opening spec request outcomes ↔
      request' = request ∧ outcome ∈ outcomes := by
  simp [opening, and_comm, eq_comm]

theorem after_opening {spec : EntitySpec} {request : CollectionRequest}
    {outcomes : List TallyOutcome} :
    s.After (opening spec request outcomes)
      ((s.count (.new spec.name)).fetch request outcomes) := by
  simp [Session.After, opening, Session.fetch, Session.count]

namespace Session.After

variable {new : List (Exchange δ)}

/-- The checkpoint and the return of the result come last. -/
theorem written (h : s.After new s') (entityName : String) (row : SyncStateRow) :
    s.After (.counted .read :: .executed (.upsertSyncState entityName row) :: new)
      ((s'.checkpoint entityName row).count .read) :=
  congrArg (fun history => _ :: _ :: history) h

/-- A statement that raises comes last. -/
theorem rejected (h : s.After new s') (stmt : Stmt δ) (exc : Exn) :
    s.After (.rejected stmt exc :: new) (s'.add (.rejected stmt exc)) :=
  congrArg (List.cons _) h

end Session.After

section entity

variable [DecidableEq δ] (engine : SyncEngine δ) (outside : Outside δ) (spec : EntitySpec)
variable (since : Option Int) (request : CollectionRequest)

namespace SyncEngine

/-- A sync up to its checkpoint: the `last_alter_id` and the status it is
about to write. -/
inductive Collected (s : Session δ) : Option Int → String → Session δ → Prop
  | unfetched (outcomes : List TallyOutcome) (hne : outcomes ≠ [])
      (hfails : engine.FetchFails spec outcomes) :
      Collected s since "error" ((s.count (.new spec.name)).fetch request outcomes)
  | fetched (outcome : TallyOutcome) (rest : List TallyOutcome) (records : List Record)
      (hrecords : engine.recordsOf spec outcome = .ok records)
      (hrest : engine.FetchFails spec rest) (parts : List (Part δ))
      (hparts : parts.map (·.raw) = records) (s₁ : Session δ)
      (hpasses : engine.Passes outside spec
        (((s.count (.new spec.name)).fetch request (outcome :: rest)).count
          (.fetched records.length)) parts s₁) :
      Collected s (records.foldl (seen spec) since) "ok" s₁

/-- How the sync of an entity can end. -/
inductive Synced (s : Session δ) : Except Exn EntitySyncResult → Session δ → Prop
  | written (maxAlterId : Option Int) (status : String) (s₁ : Session δ)
      (h : Collected engine outside spec since request s maxAlterId status s₁)
      (row : SyncStateRow) (hrow : row.lastAlterId = maxAlterId) (hstatus : row.status = status)
      (hfits : maxAlterId.all fitsInt64 = true) :
      Synced s (.ok s₁.result) ((s₁.checkpoint spec.name row).count .read)
  /-- The checkpoint could not be written. -/
  | unwritten (maxAlterId : Option Int) (status : String) (s₁ : Session δ)
      (h : Collected engine outside spec since request s maxAlterId status s₁)
      (row : SyncStateRow) (exc : Exn)
      (hexc : maxAlterId.all fitsInt64 = false ∨
        outside.fault (.upsertSyncState spec.name row) exc) :
      Synced s (.error exc) (s₁.add (.rejected (.upsertSyncState spec.name row) exc))
  /-- A record could not be queued. -/
  | interrupted (outcome : TallyOutcome) (outcomes : List TallyOutcome) (records : List Record)
      (hrecords : engine.recordsOf spec outcome = .ok records)
      (hfails : engine.FetchFails spec outcomes) (parts : List (Part δ)) (raw : Record)
      (rest : List Record) (hparts : records = parts.map (·.raw) ++ raw :: rest)
      (s₁ s' : Session δ) (new : List (Exchange δ)) (exc : Exn)
      (hpasses : engine.Passes outside spec
        (((s.count (.new spec.name)).fetch request (outcome :: outcomes)).count
          (.fetched records.length)) parts s₁)
      (htreated : engine.Treated outside spec raw s₁ new (.error exc) s') :
      Synced s (.error exc) s'

end SyncEngine

variable {engine outside spec since}

/-- The checkpoint and the return of the result. -/
theorem open_finish {status : String} {maxAlterId : Option Int}
    (h : engine.Collected outside spec since request s maxAlterId status s₁) :
    (do
      engine.store.updateLastSync spec.name maxAlterId status
      resultOp .read : Py δ EntitySyncResult).Always outside.step
        (fun r s' => engine.Synced outside spec since request s r s') s₁ := by
  refine .bind (.bind (open_now fun lastSyncedAt => .bind (open_now fun updatedAt => ?_)))
  refine open_sql (fun result db hexec => ?_) fun exc hexc => ?_
  · simp only [DB.exec] at hexec
    split at hexec
    · next hfits =>
      cases hexec
      exact open_resultOp (.written _ _ _ h ⟨lastSyncedAt, maxAlterId, status, updatedAt⟩ rfl rfl
        hfits)
    · cases hexec
  · refine .unwritten _ _ _ h _ exc ?_
    rcases hexc with hexec | hfault
    · left
      simp only [DB.exec] at hexec
      split at hexec
      · cases hexec
      · next hfits => simpa using hfits
    · exact .inr hfault

theorem open_syncEntity (hspec : spec ∈ engine.registry.specs) (dateFrom dateTo : Option Date) :
    (engine.syncEntity spec since dateFrom dateTo).Always outside.step
      (engine.Synced outside spec since
        (engine.collectionRequest spec since dateFrom dateTo) s) s := by
  refine .bind (open_resultOp ?_)
  refine .bind (open_fetchRecords.mono fun r s₁ hr => ?_)
  obtain ⟨outcomes, rfl, hr⟩ := hr
  cases r with
  | error exc => exact hr.elim
  | ok fetched =>
      cases fetched with
      | error exc => exact open_finish _ (.unfetched outcomes hr.1 hr.2)
      | ok records =>
          obtain ⟨outcome, rest, rfl, hrecords, hrest⟩ := hr
          refine .bind (open_resultOp ?_)
          refine .bind ((open_syncRecords hspec records).mono fun r s₁ hr => ?_)
          cases r with
          | ok maxAlterId =>
              obtain ⟨rfl, parts, hparts, hpasses⟩ := hr
              exact open_finish _ (.fetched outcome rest records hrecords hrest parts hparts s₁
                hpasses)
          | error exc =>
              -- the loop was left at one record
              obtain ⟨parts, raw, rest', s₂, new, hparts, hpasses, htreated⟩ := hr
              exact .interrupted outcome rest records hrecords hrest parts raw rest' hparts s₂ s₁
                new exc hpasses htreated

end entity

/-! ## Cycles -/

section cycle

variable (engine : SyncEngine δ) (outside : Outside δ) (incremental : Bool)

/-- The checkpoint a cycle starts an entity from. -/
def DB.sinceOf (incremental : Bool) (db : DB δ) (entityName : String) : Option Int :=
  if incremental then db.lastAlterId entityName else none

/-- The session after it was read. -/
def Session.readCheckpoint (incremental : Bool) (s : Session δ) (entityName : String) :
    Session δ :=
  if incremental then s.execute (.selectSyncState entityName) s.db else s

variable [DecidableEq δ]

/-- The sync of an entity together with the read of its checkpoint. -/
def SyncEngine.visit (spec : EntitySpec) (dateFrom dateTo : Option Date) :
    Py δ EntitySyncResult := do
  let since ← engine.sinceAlterId incremental spec
  engine.syncEntity spec since dateFrom dateTo

/-- A run of it, and how the sync went. -/
structure SyncEngine.Visit (spec : EntitySpec) (dateFrom dateTo : Option Date) (s : Session δ)
    (r : Except Exn EntitySyncResult) (s' : Session δ) : Prop where
  run : (engine.visit incremental spec dateFrom dateTo).Runs outside.step s r s'
  synced : engine.Synced outside spec (s.db.sinceOf incremental spec.name)
    (engine.collectionRequest spec (s.db.sinceOf incremental spec.name) dateFrom dateTo)
    (s.readCheckpoint incremental spec.name) r s'

/-- The sync of an entity as part of a cycle. -/
abbrev SyncEngine.SyncedIn (spec : EntitySpec) (s : Session δ) :
    Except Exn EntitySyncResult → Session δ → Prop :=
  engine.Visit outside incremental spec none none s

/-- Entities synced one after the other, each to its end. -/
inductive SyncEngine.Cycled :
    Session δ → List EntitySpec → List EntitySyncResult → Session δ → Prop
  | nil (s : Session δ) : Cycled s [] [] s
  | cons {s s₁ s' : Session δ} {spec : EntitySpec} {specs : List EntitySpec}
      {result : EntitySyncResult} {results : List EntitySyncResult}
      (h : engine.SyncedIn outside incremental spec s (.ok result) s₁)
      (hrest : Cycled s₁ specs results s') : Cycled s (spec :: specs) (result :: results) s'

variable {engine outside incremental}

theorem open_visit (hworks : ∀ stmt exc, ¬ outside.fault stmt exc) {spec : EntitySpec}
    (hspec : spec ∈ engine.registry.specs) (dateFrom dateTo : Option Date) :
    (engine.visit incremental spec dateFrom dateTo).Always outside.step
      (engine.Visit outside incremental spec dateFrom dateTo s) s := by
  have hstart : (engine.sinceAlterId incremental spec).Always outside.step
      (fun r s' => r = .ok (s.db.sinceOf incremental spec.name) ∧
        s' = s.readCheckpoint incremental spec.name) s := by
    cases incremental with
    | false => exact ⟨rfl, rfl⟩
    | true =>
        -- the checkpoint is read by one query, which does not fail
        refine .bind (open_sql (fun result db hexec => ?_) fun exc hexc => ?_)
        · cases hexec
          exact ⟨rfl, rfl⟩
        · rcases hexc with hexec | hfault
          · cases hexec
          · exact absurd hfault (hworks _ _)
  have hsynced : (engine.visit incremental spec dateFrom dateTo).Always outside.step
      (engine.Synced outside spec (s.db.sinceOf incremental spec.name)
        (engine.collectionRequest spec (s.db.sinceOf incremental spec.name) dateFrom dateTo)
        (s.readCheckpoint incremental spec.name)) s := by
    refine .bind (hstart.mono fun r s₁ hr => ?_)
    obtain ⟨rfl, rfl⟩ := hr
    exact open_syncEntity hspec dateFrom dateTo
  exact hsynced.with_runs.mono fun r s' hr => ⟨hr.1, hr.2⟩

theorem SyncEngine.syncEntities_cons (spec : EntitySpec) (specs : List EntitySpec) :
    engine.syncEntities incremental (spec :: specs) = (do
      let result ← engine.visit incremental spec none none
      let results ← engine.syncEntities incremental specs
      pure (result :: results)) :=
  (Prog.bind_assoc _ _ _).symm

/-- A cycle syncs every entity, or ends with the first sync that raises. -/
theorem open_syncEntities (hworks : ∀ stmt exc, ¬ outside.fault stmt exc) {specs : List EntitySpec}
    (hspecs : specs ⊆ engine.registry.specs) :
    (engine.syncEntities incremental specs).Always outside.step
      (fun r s' => match r with
        | .ok results => engine.Cycled outside incremental s specs results s'
        | .error exc => ∃ before spec after results s₁, specs = before ++ spec :: after ∧
            engine.Cycled outside incremental s before results s₁ ∧
            engine.SyncedIn outside incremental spec s₁ (.error exc) s') s := by
  induction specs generalizing s with
  | nil => exact .nil s
  | cons spec specs ih =>
      rw [SyncEngine.syncEntities_cons]
      refine .bind ((open_visit hworks (hspecs List.mem_cons_self) none none).mono
        fun r s₁ hr => ?_)
      cases r with
      | error exc => exact ⟨[], spec, specs, [], s, rfl, .nil s, hr⟩
      | ok result =>
          refine .bind ((ih fun _ h => hspecs (List.mem_cons_of_mem _ h)).mono fun r s₂ hr' => ?_)
          cases r with
          | error exc =>
              -- the exception came from one of the later entities
              obtain ⟨before, spec', after, results, s₃, rfl, hcycled, hlast⟩ := hr'
              exact ⟨spec :: before, spec', after, result :: results, s₃, rfl, .cons hr hcycled,
                hlast⟩
          | ok results => exact .cons hr hr'

end cycle

end TallyConnector
