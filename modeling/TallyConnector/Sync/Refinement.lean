import TallyConnector.Sync.PushRefinement

/-! # The code refines the protocol

The record loop of a sync, the drain of the retry queue and the four
operations. The result is `SyncEngine.refines`: whatever the environment
answers, an operation only takes steps of `SyncEngine.Step`. From it,
`SyncEngine.invariant` derives the invariants of all runs, crashes included.
-/

namespace TallyConnector

open Effects Relation

variable {δ : Type} {engine : SyncEngine δ} {spec : EntitySpec}
variable {request : CollectionRequest} {records done : List Record}
variable {syncState : String → Option SyncStateRow} {w w' : World δ} {raw : Record}

/-! ## The records of a sync -/

/-- The records of a fetch are being worked on; those in `done` are handled,
if the entity is mapped. -/
structure Syncing (engine : SyncEngine δ) (spec : EntitySpec) (request : CollectionRequest)
    (records done : List Record) (syncState : String → Option SyncStateRow)
    (w : World δ) : Prop where
  fetched : ∃ fetch, w.fetched = some fetch ∧ fetch.request = request ∧
    engine.recordsOf spec fetch.outcome = .ok records
  syncState : w.db.syncState = syncState
  handled : (engine.mapping.entry spec.name).isSome →
    ∀ raw ∈ done, engine.Handled spec raw w

theorem stable_syncing : Stable (Syncing engine spec request records done syncState) :=
  fun _ _ h => ⟨h.fetched, h.syncState, h.handled⟩

theorem Item.Delivered.frame {item : Item engine} (h : item.Delivered w)
    (hF : PushFrame w w') : item.Delivered w' := by
  rcases h with ⟨name, hname⟩ | ⟨name, docs, hskip⟩
  · exact .inl ⟨name, hF.pushes hname⟩
  · exact .inr ⟨name, docs, hF.log hskip⟩

theorem SyncEngine.Handled.frame (h : engine.Handled spec raw w) (hF : PushFrame w w') :
    engine.Handled spec raw w' := by
  rcases h with hnone | ⟨item, hspec, hraw, hdelivered⟩ | hqueued
  · exact .inl hnone
  · exact .inr (.inl ⟨item, hspec, hraw, hdelivered.frame hF⟩)
  · refine .inr (.inr ?_)
    rw [hF.fetched]
    exact hqueued

theorem Syncing.frame (h : Syncing engine spec request records done syncState w)
    (hF : PushFrame w w') : Syncing engine spec request records done syncState w' where
  fetched := by
    rw [hF.fetched]
    exact h.fetched
  syncState := hF.syncState.trans h.syncState
  handled := fun hmapped raw hraw => (h.handled hmapped raw hraw).frame hF

theorem Syncing.count (h : Syncing engine spec request records done syncState w)
    (result : EntitySyncResult) :
    Syncing engine spec request records done syncState { w with result := result } :=
  ⟨h.fetched, h.syncState, h.handled⟩

/-- One more record is handled. -/
theorem Syncing.snoc (h : Syncing engine spec request records done syncState w)
    (hraw : (engine.mapping.entry spec.name).isSome → engine.Handled spec raw w) :
    Syncing engine spec request records (done ++ [raw]) syncState w where
  fetched := h.fetched
  syncState := h.syncState
  handled := by
    intro hmapped raw' hraw'
    rcases List.mem_append.mp hraw' with hdone | hnew
    · exact h.handled hmapped raw' hdone
    · rw [List.mem_singleton.mp hnew]
      exact hraw hmapped

theorem Syncing.enqueue (h : Syncing engine spec request records done syncState w)
    (key : RetryKey) (data : RetryData) (hraw : data.payloadJson = raw) :
    Syncing engine spec request records (done ++ [raw]) syncState (w.enqueue key data) := by
  obtain ⟨fetch, hfetch, hrequest, hrecords⟩ := h.fetched
  have hfetch' : (w.enqueue key data).fetched = some (fetch.enqueue raw) := by
    simp [World.enqueue, hfetch, hraw]
  refine Syncing.snoc ⟨⟨_, hfetch', hrequest, hrecords⟩, h.syncState, ?_⟩ fun _ => ?_
  · intro hmapped raw' hraw'
    rcases h.handled hmapped raw' hraw' with hnone | hdelivered | ⟨fetch', hf', hqueued⟩
    · exact .inl hnone
    · exact .inr (.inl hdelivered)
    · refine .inr (.inr ⟨_, hfetch', ?_⟩)
      rw [hfetch] at hf'
      cases hf'
      exact List.mem_cons_of_mem _ hqueued
  · exact .inr (.inr ⟨_, hfetch', List.mem_cons_self⟩)

theorem keyOf_of_error {exc : Exn} (h : toModel raw spec = .error exc) :
    spec.keyOf raw = none := by
  simp [EntitySpec.keyOf, h]

theorem keyOf_of_ok {model : Model} (h : toModel raw spec = .ok model) :
    spec.keyOf raw = model.usableKey spec := by
  simp [EntitySpec.keyOf, h]

/-! ## The rows of a drain -/

/-- The rows still to be drained are in the queue, each once. -/
structure Draining (items : List RetryRow) (w : World δ) : Prop where
  mem : ∀ row ∈ items, row ∈ w.db.retryQueue.rows
  nodup : (items.map (·.id)).Nodup

theorem stable_draining {items : List RetryRow} :
    Stable (Draining items : World δ → Prop) := fun _ _ h => ⟨h.mem, h.nodup⟩

theorem Draining.frame {items : List RetryRow} (h : Draining items w) (hF : PushFrame w w') :
    Draining items w' where
  mem := by
    rw [hF.retryQueue]
    exact h.mem
  nodup := h.nodup

theorem Draining.count {items : List RetryRow} (h : Draining items w)
    (result : EntitySyncResult) : Draining items { w with result := result } :=
  ⟨h.mem, h.nodup⟩

theorem Draining.ne {item : RetryRow} {items : List RetryRow} (h : Draining (item :: items) w)
    {row : RetryRow} (hrow : row ∈ items) : row.id ≠ item.id := by
  have hnodup := h.nodup
  rw [List.map_cons, List.nodup_cons] at hnodup
  intro heq
  exact hnodup.1 (List.mem_map.mpr ⟨row, hrow, heq⟩)

theorem Draining.tail {item : RetryRow} {items : List RetryRow}
    (h : Draining (item :: items) w) : Draining items w :=
  ⟨fun row hrow => h.mem row (List.mem_cons_of_mem _ hrow), h.nodup.of_cons⟩

/-- Deleting the first row leaves the others. -/
theorem Draining.settle {item : RetryRow} {items : List RetryRow}
    (h : Draining (item :: items) w) : Draining items (w.settle item.id) where
  mem := fun row hrow => Tables.AutoTable.mem_delete.mpr ⟨h.tail.mem row hrow, h.ne hrow⟩
  nodup := h.tail.nodup

theorem Draining.reschedule {item : RetryRow} {items : List RetryRow}
    (h : Draining (item :: items) w) (error nextAttemptAt : String) :
    Draining items (w.reschedule item.id error nextAttemptAt) where
  mem := fun row hrow => Tables.AutoTable.mem_update.mpr
    ⟨row, h.tail.mem row hrow, by rw [if_neg (h.ne hrow)]⟩
  nodup := h.tail.nodup

/-- The row of an id being drained is the row that was read. -/
theorem Draining.eq_of_id {item row : RetryRow} {items : List RetryRow}
    (h : Draining (item :: items) w) (hrow : row ∈ w.db.retryQueue.rows)
    (hid : row.id = item.id) : row = item :=
  w.db.retryQueue.eq_of_id hrow (h.mem item List.mem_cons_self) hid

/-! ## One fetched record -/

variable [DecidableEq δ] {ops : Operation → Prop} {allow : Assumed δ}

/-- A failed push of a fetched item is queued. -/
theorem conforms_pushFailed (item : Item engine) {exc : Exn} (hexc : exc.Transient)
    (hrequest : request.entityName = item.spec.name) (hraw : item.raw ∈ records)
    (hw : Syncing engine item.spec request records done syncState w) :
    engine.Conforms ops allow
      (fun r w' => match r with
        | .ok _ => Syncing engine item.spec request records (done ++ [item.raw]) syncState w'
        | .error _ => True)
      (engine.pushFailed item.spec item.raw exc) w := by
  -- only a push that may succeed later is queued
  have hkind : exc.kind ≠ .tallyDataError := by
    intro h
    simp [Exn.Transient, Exn.isPermanent, h] at hexc
  unfold SyncEngine.pushFailed
  rw [if_neg hkind]
  refine .bind (conforms_count (fun _ => rfl) stable_syncing hw fun w result hw => ?_)
  refine .bind (conforms_now stable_syncing (hw.count result) fun nextAttemptAt w hw => ?_)
  refine .bind (conforms_now stable_syncing hw fun createdAt w hw => ?_)
  refine conforms_sql stable_syncing hw (fun w result db hw hexec => ?_) fun _ _ _ _ => trivial
  simp only [DB.exec] at hexec
  -- the statement is refused, or the row is written
  split at hexec
  · cases hexec
  · next guid hguid =>
    cases hexec
    obtain ⟨fetch, hfetch, hreq, hrecords⟩ := hw.fetched
    have hfetched : item.Fetched w :=
      ⟨fetch, records, hfetch, by rw [hreq, hrequest], hrecords, hraw⟩
    let data : RetryData := ⟨item.raw, 0, nextAttemptAt, some exc.message, createdAt⟩
    exact ⟨.single (.enqueue item guid data hfetched hguid rfl),
      hw.enqueue ⟨item.spec.name, guid, "create"⟩ data rfl⟩

/-- The push of one fetched record, with its `except` clauses. -/
theorem conforms_pushFetched {me : MappingEntry} {model : Model}
    (hspec : spec ∈ engine.registry.specs) (hme : engine.mapping.entry spec.name = some me)
    (hmodel : toModel raw spec = .ok model) (hrequest : request.entityName = spec.name)
    (hraw : raw ∈ records) (hw : Syncing engine spec request records done syncState w) :
    engine.Conforms ops allow
      (fun r w' => match r with
        | .ok _ => Syncing engine spec request records (done ++ [raw]) syncState w'
        | .error _ => True)
      (tryCatch (engine.pushRecord spec me model) (engine.pushFailed spec raw)) w := by
  cases hkey : model.usableKey spec with
  | none =>
      -- refused as TallyDataError, counted as failed
      obtain ⟨text, htext⟩ := engine.pushRecord_of_none me hkey
      rw [htext]
      refine .bind (conforms_count (fun _ => rfl) stable_syncing hw fun w result hw => ?_)
      refine (hw.count result).snoc fun _ => .inl ?_
      rw [keyOf_of_ok hmodel, hkey]
  | some key =>
      let item : Item engine := ⟨spec, me, raw, model, key, hspec, hme, hmodel, hkey⟩
      have hsource : item.Source w := by
        obtain ⟨fetch, hfetch, hreq, hrecords⟩ := hw.fetched
        exact .inl ⟨fetch, records, hfetch, by rw [hreq, hrequest], hrecords, hraw⟩
      refine .tryCatch ((conforms_pushRecord_frame item hsource).mono fun r w' hr => ?_)
      cases r with
      | ok _ =>
          have hdelivered : item.Delivered w' := hr.1
          exact (hw.frame hr.2).snoc fun _ => .inr (.inl ⟨item, rfl, rfl, hdelivered⟩)
      | error exc => exact conforms_pushFailed item hr.1 hrequest hraw (hw.frame hr.2)

theorem conforms_syncRecords (hspec : spec ∈ engine.registry.specs)
    (hrequest : request.entityName = spec.name) {rest : List Record} {maxAlterId : Option Int}
    (hrest : records = done ++ rest)
    (hw : Syncing engine spec request records done syncState w) :
    engine.Conforms ops allow
      (fun r w' => match r with
        | .ok lastAlterId => lastAlterId = rest.foldl (SyncEngine.seen spec) maxAlterId ∧
            Syncing engine spec request records records syncState w'
        | .error _ => True)
      (engine.syncRecords spec (engine.mapping.entry spec.name) rest maxAlterId) w := by
  induction rest generalizing done maxAlterId w with
  | nil =>
      rw [List.append_nil] at hrest
      subst hrest
      exact ⟨rfl, hw⟩
  | cons raw rest ih =>
      have hrest' : records = (done ++ [raw]) ++ rest := by simpa using hrest
      have hraw : raw ∈ records := by simp [hrest]
      simp only [SyncEngine.syncRecords, List.foldl_cons]
      cases hmodel : toModel raw spec with
      | error exc =>
          -- a record without model is counted and left out
          refine .bind (conforms_count (fun _ => rfl) stable_syncing hw fun w result hw => ?_)
          have hseen : SyncEngine.seen spec maxAlterId raw = maxAlterId := by
            simp [SyncEngine.seen, hmodel]
          rw [hseen]
          exact ih hrest' ((hw.count result).snoc fun _ => .inl (keyOf_of_error hmodel))
      | ok model =>
          have hseen : SyncEngine.seen spec maxAlterId raw =
              SyncEngine.bumpMax maxAlterId model.alterId := by
            simp [SyncEngine.seen, hmodel]
          rw [hseen]
          cases hme : engine.mapping.entry spec.name with
          | none =>
              -- of an entity without mapping nothing is sent
              have hdone : Syncing engine spec request records (done ++ [raw]) syncState w :=
                hw.snoc fun hmapped => by simp [hme] at hmapped
              simpa only [hme] using ih hrest' hdone
          | some me =>
              refine .bind ((conforms_pushFetched hspec hme hmodel hrequest hraw hw).mono
                fun r w' hr => ?_)
              cases r with
              -- what a push raises ends the loop
              | error exc => trivial
              | ok _ => simpa only [hme] using ih hrest' hr

/-! ## The sync of an entity -/

/-- A fetch that returns records is recorded with them. -/
theorem conforms_fetchRecords (hw : w.db.syncState = syncState) :
    engine.Conforms ops allow
      (fun (r : Except Exn (Except Exn (List Record))) w' => match r with
        | .ok (.ok records) => Syncing engine spec request records [] syncState w'
        | .ok (.error _) => w'.db.syncState = syncState
        | .error _ => True)
      (engine.fetchRecords spec request) w := by
  have hstable : Stable fun w : World δ => w.db.syncState = syncState := fun _ _ h => h
  unfold SyncEngine.fetchRecords
  refine .tryCatch (.bind ((conforms_retrying (P := fun w : World δ => w.db.syncState = syncState)
    (Q := fun r w' => w'.db.syncState = syncState ∧ ∀ response, r = .ok response →
      ∃ fetch, w'.fetched = some fetch ∧ fetch.request = request ∧
        engine.tally.readOutcome fetch.outcome = .ok response)
    (fun w hw => ?_) hw).mono fun r w' hr => ?_))
  · -- one attempt
    refine .bind (conforms_call hstable hw fun w c outcome w' hw ha he => ?_)
    cases c <;> cases he
    refine ⟨.single (.fetch request _ ha), .ofExcept ?_⟩
    cases hread : engine.tally.readOutcome outcome with
    | ok response =>
        refine ⟨hw, fun response' hresponse => ⟨_, rfl, rfl, ?_⟩⟩
        cases hresponse
        exact hread
    | error exc => exact ⟨hw, hw, fun _ h => by cases h⟩
  · cases r with
    | error exc =>
        -- no answer was read: this is returned or raised
        dsimp only
        split
        · exact hr.1
        · trivial
    | ok response =>
        obtain ⟨fetch, hfetch, hrequest, hread⟩ := hr.2 response rfl
        refine .bind (.ofExcept ?_)
        cases hparse : parseCollectionResponse engine.ext.fromstring response spec with
        | error exc =>
            -- an answer that is no XML
            dsimp only
            split
            · exact hr.1
            · trivial
        | ok records =>
            -- the records are those of the answer
            have hrecords : engine.recordsOf spec fetch.outcome = .ok records := by
              simp [SyncEngine.recordsOf, hread, hparse]
            exact ⟨⟨fetch, hfetch, hrequest, hrecords⟩, hr.1, fun _ _ h => by cases h⟩

theorem conforms_updateLastSync {since lastAlterId : Option Int} {dateFrom dateTo : Option Date}
    {status : String} (hspec : spec ∈ engine.registry.specs)
    (hsince : since = none ∨ since = w.db.lastAlterId spec.name)
    (hrange : (dateFrom = none ∧ dateTo = none) ∨
      ops (.resyncEntity spec.name dateFrom dateTo))
    (hcovered : engine.Covered spec since dateFrom dateTo lastAlterId w) :
    engine.Conforms ops allow (fun _ _ => True)
      (engine.store.updateLastSync spec.name lastAlterId status) w := by
  have hstable : Stable fun w : World δ =>
      (since = none ∨ since = w.db.lastAlterId spec.name) ∧
        engine.Covered spec since dateFrom dateTo lastAlterId w := fun _ _ h => h
  refine .bind (conforms_now hstable ⟨hsince, hcovered⟩ fun lastSyncedAt w hw => ?_)
  refine .bind (conforms_now hstable hw fun updatedAt w hw => ?_)
  refine conforms_sql hstable hw (fun w result db hw hexec => ?_) fun _ _ _ _ => trivial
  simp only [DB.exec] at hexec
  split at hexec <;> cases hexec
  exact ⟨.single (.checkpoint spec since dateFrom dateTo
    ⟨lastSyncedAt, lastAlterId, status, updatedAt⟩ hspec hw.1 hrange hw.2), trivial⟩

theorem conforms_syncEntity {since : Option Int} {dateFrom dateTo : Option Date}
    (hspec : spec ∈ engine.registry.specs)
    (hsince : since = none ∨ since = w.db.lastAlterId spec.name)
    (hrange : (dateFrom = none ∧ dateTo = none) ∨
      ops (.resyncEntity spec.name dateFrom dateTo)) :
    engine.Conforms ops allow (fun _ _ => True)
      (engine.syncEntity spec since dateFrom dateTo) w := by
  have hlast : ∀ w' : World δ, w'.db.syncState = w.db.syncState →
      (since = none ∨ since = w'.db.lastAlterId spec.name) := by
    intro w' h
    simpa only [DB.lastAlterId, h] using hsince
  have hread : ∀ w' : World δ, engine.Conforms ops allow (fun _ _ => True)
      (resultOp .read) w' := fun w' =>
    conforms_count (P := fun _ => True) (fun _ => rfl) (fun _ _ h => h) trivial
      fun _ _ _ => trivial
  refine .bind (conforms_count (P := fun w' => w'.db.syncState = w.db.syncState)
    (fun _ => rfl) (fun _ _ h => h) rfl fun w₁ result hw₁ => ?_)
  refine .bind ((conforms_fetchRecords (w := { w₁ with result := result }) hw₁).mono
    fun r w₂ hr => ?_)
  cases r with
  | error exc => trivial
  | ok fetched =>
      cases fetched with
      | error exc =>
          -- the fetch failed: the checkpoint is written back
          refine .bind ((conforms_updateLastSync hspec (hlast w₂ hr) hrange
            (.inl rfl)).mono fun r w₃ _ => ?_)
          cases r with
          | error exc => trivial
          | ok _ => exact hread w₃
      | ok records =>
          refine .bind (conforms_count (fun _ => rfl) stable_syncing hr
            fun w₃ result hw₃ => ?_)
          refine .bind ((conforms_syncRecords hspec rfl (List.nil_append records).symm
            (hw₃.count result)).mono fun r w₄ hr => ?_)
          cases r with
          | error exc => trivial
          | ok lastAlterId =>
              obtain ⟨hlastAlterId, hw₄⟩ := hr
              obtain ⟨fetch, hfetch, hrequest, hrecords⟩ := hw₄.fetched
              have hcovered : engine.Covered spec since dateFrom dateTo lastAlterId w₄ :=
                .inr ⟨fetch, records, hfetch, hrequest, hrecords, hlastAlterId, hw₄.handled⟩
              refine .bind ((conforms_updateLastSync hspec (hlast w₄ hw₄.syncState) hrange
                hcovered).mono fun r w₅ _ => ?_)
              cases r with
              | error exc => trivial
              | ok _ => exact hread w₅

/-! ## Cycles and resyncs -/

theorem conforms_sinceAlterId {incremental : Bool} :
    engine.Conforms ops allow
      (fun r w' => ∀ since, r = .ok since →
        since = none ∨ since = w'.db.lastAlterId spec.name)
      (engine.sinceAlterId incremental spec) w := by
  unfold SyncEngine.sinceAlterId
  split
  · refine .bind (conforms_select (P := fun _ => True) (fun _ _ h => h) trivial (fun _ => rfl)
      (fun w result db _ hexec => ?_) fun _ _ _ _ _ h => by cases h)
    cases hexec
    refine ⟨rfl, fun since hsince => ?_⟩
    cases hsince
    exact .inr rfl
  · intro since hsince
    cases hsince
    exact .inl rfl

theorem conforms_syncEntities {incremental : Bool} {specs : List EntitySpec}
    (hspecs : ∀ spec ∈ specs, spec ∈ engine.registry.specs) :
    engine.Conforms ops allow (fun _ _ => True) (engine.syncEntities incremental specs) w := by
  induction specs generalizing w with
  | nil => trivial
  | cons spec specs ih =>
      refine .bind (conforms_sinceAlterId.mono fun r w₁ hsince => ?_)
      cases r with
      | error exc => trivial
      | ok since =>
          refine .bind ((conforms_syncEntity (hspecs spec List.mem_cons_self)
            (hsince since rfl) (.inl ⟨rfl, rfl⟩)).mono fun r w₂ _ => ?_)
          cases r with
          | error exc => trivial
          | ok result =>
              refine .bind ((ih fun spec h => hspecs spec (List.mem_cons_of_mem _ h)).mono
                fun r w₃ _ => ?_)
              cases r <;> trivial

theorem conforms_runCycle {incremental : Bool} :
    engine.Conforms ops allow (fun _ _ => True) (engine.runCycle incremental) w := by
  refine .bind (.ofExcept ?_)
  cases horder : engine.registry.resolveSyncOrder with
  | error exc => trivial
  | ok order =>
      refine conforms_syncEntities fun spec hspec => ?_
      exact (engine.registry.resolveSyncOrder_perm horder).mem_iff.mp hspec

theorem conforms_resyncEntity {entityName : String} {dateFrom dateTo : Option Date}
    (hops : ops (.resyncEntity entityName dateFrom dateTo)) :
    engine.Conforms ops allow (fun _ _ => True)
      (engine.resyncEntity entityName dateFrom dateTo) w := by
  refine .bind (.ofExcept ?_)
  cases hget : engine.registry.getEntity entityName with
  | error exc => trivial
  | ok spec =>
      obtain ⟨hspec, rfl⟩ := engine.registry.getEntity_ok hget
      exact conforms_syncEntity hspec (.inl rfl) (.inr hops)

/-! ## The drain of the retry queue -/

theorem conforms_markRetrySuccess {item : RetryRow} {items : List RetryRow}
    {P : World δ → Prop} (hP : Stable P) (hw : P w)
    (hdraining : ∀ w, P w → Draining (item :: items) w)
    (hsettled : ∀ w, P w → engine.Settled item w) :
    engine.Conforms ops allow
      (fun r w' => match r with
        | .ok _ => Draining items w'
        | .error exc => exc.Transient ∧ Draining (item :: items) w')
      (engine.store.markRetrySuccess item.id) w := by
  refine conforms_sql hP hw (fun w result db hw hexec => ?_)
    fun w exc hw hexc => ⟨hexc, hdraining w hw⟩
  cases hexec
  refine ⟨.single (.settle item.id fun row hrow hid => ?_), (hdraining w hw).settle⟩
  rw [(hdraining w hw).eq_of_id hrow hid]
  exact hsettled w hw

theorem conforms_nextAttempt {items : List RetryRow} {attemptCount : Nat}
    (hw : Draining items w) :
    engine.Conforms ops allow (fun _ w' => Draining items w')
      (engine.nextAttempt attemptCount) w := by
  refine .bind (.ofExcept ?_)
  cases backoffSeconds engine.settings.retryBackoffBaseSeconds attemptCount with
  | error exc => exact hw
  | ok seconds =>
      refine .bind (conforms_clock stable_draining hw fun now w hw => .bind (.ofExcept ?_))
      cases timedelta seconds with
      | error exc => exact hw
      | ok delay => exact hw

/-- The `except` clauses: a permanent failure settles the row, any other one
puts it off. -/
theorem conforms_attemptFailed {item : RetryRow} {items : List RetryRow} {exc : Exn}
    (hw : Draining (item :: items) w)
    (hexc : exc.isPermanent = true → engine.Settled item w) :
    engine.Conforms ops allow
      (fun r w' => match r with
        | .ok _ => Draining items w'
        | .error _ => True)
      (engine.attemptFailed item exc) w := by
  unfold SyncEngine.attemptFailed
  split
  · next hpermanent =>
    refine .bind ((conforms_markRetrySuccess
      (P := fun w => Draining (item :: items) w ∧ engine.Settled item w)
      (fun _ _ h => ⟨stable_draining _ _ h.1, h.2⟩) ⟨hw, hexc hpermanent⟩
      (fun _ hw => hw.1) fun _ hw => hw.2).mono fun r w' hr => ?_)
    cases r with
    | error exc => trivial
    | ok _ => exact hr
  · -- the row is scheduled anew
    refine .bind ((conforms_nextAttempt hw).mono fun r w' hw => ?_)
    cases r with
    | error exc => trivial
    | ok nextAttemptAt =>
        refine .bind (conforms_sql stable_draining hw (fun w result db hw hexec => ?_)
          fun _ _ _ _ => trivial)
        cases hexec
        exact ⟨.single (.reschedule item.id exc.message nextAttemptAt),
          hw.reschedule exc.message nextAttemptAt⟩

/-- The body of the `try`: a row is deleted only after its delivery, and a
permanent failure says that its record can never be pushed. -/
theorem conforms_attemptItem {item : RetryRow} {items : List RetryRow} {me : MappingEntry}
    (hspec : spec ∈ engine.registry.specs) (hname : spec.name = item.key.entityName)
    (hme : engine.mapping.entry spec.name = some me) (hw : Draining (item :: items) w) :
    engine.Conforms ops allow
      (fun r w' => match r with
        | .ok _ => Draining items w'
        | .error exc => Draining (item :: items) w' ∧
            (exc.isPermanent = true → engine.Settled item w'))
      (engine.attemptItem spec me item) w := by
  -- a payload without key is settled from the start
  have hinvalid : ∀ w' : World δ, spec.keyOf item.val.payloadJson = none →
      engine.Settled item w' := by
    intro w' hnone spec' hspec' hname' _
    have heq := engine.registry.eq_of_name hspec' hspec (hname'.trans hname.symm)
    exact .inl (heq ▸ hnone)
  refine .bind (.ofExcept ?_)
  cases hmodel : toModel item.val.payloadJson spec with
  | error exc => exact ⟨hw, fun _ => hinvalid w (keyOf_of_error hmodel)⟩
  | ok model =>
      refine .bind (conforms_count (fun _ => rfl) stable_draining hw fun w result hw => ?_)
      cases hkey : model.usableKey spec with
      | none =>
          obtain ⟨text, htext⟩ := engine.pushRecord_of_none me hkey
          rw [htext]
          refine ⟨hw.count result, fun _ => hinvalid _ ?_⟩
          rw [keyOf_of_ok hmodel, hkey]
      | some key =>
          let it : Item engine :=
            ⟨spec, me, item.val.payloadJson, model, key, hspec, hme, hmodel, hkey⟩
          have hsource : it.Source { w with result := result } :=
            .inr ⟨item, hw.mem item List.mem_cons_self, hname.symm, rfl⟩
          refine .bind ((conforms_pushRecord_frame it hsource).mono fun r w' hr => ?_)
          have hw' : Draining (item :: items) w' := (hw.count result).frame hr.2
          cases r with
          | error exc =>
              -- what a push raises is no permanent failure
              have hexc : exc.Transient := hr.1
              refine ⟨hw', fun hpermanent => ?_⟩
              rw [hexc] at hpermanent
              cases hpermanent
          | ok _ =>
              have hdelivered : it.Delivered w' := hr.1
              refine .bind ((conforms_markRetrySuccess
                (P := fun w => Draining (item :: items) w ∧ it.Delivered w)
                (fun _ _ h => ⟨stable_draining _ _ h.1, h.2⟩) ⟨hw', hdelivered⟩
                (fun _ hw => hw.1) fun w hw => ?_).mono fun r w'' hr => ?_)
              · -- the row may be deleted: its payload was delivered
                intro spec' hspec' hname' _
                have heq := engine.registry.eq_of_name hspec' hspec (hname'.trans hname.symm)
                exact .inr ⟨it, heq.symm, rfl, hw.2⟩
              · cases r with
                | ok _ => exact hr
                | error exc =>
                    -- the row is still there
                    refine ⟨hr.2, fun hpermanent => ?_⟩
                    rw [hr.1] at hpermanent
                    cases hpermanent

theorem conforms_drainItem {item : RetryRow} {items : List RetryRow}
    (hw : Draining (item :: items) w) :
    engine.Conforms ops allow
      (fun r w' => match r with
        | .ok _ => Draining items w'
        | .error _ => True)
      (engine.drainItem item) w := by
  refine .bind (.ofExcept ?_)
  cases hget : engine.registry.getEntity item.key.entityName with
  | error exc => trivial
  | ok spec =>
      obtain ⟨hspec, hname⟩ := engine.registry.getEntity_ok hget
      dsimp only
      cases hme : engine.mapping.entry spec.name with
      | none =>
          -- an entity without a mapping
          refine .bind ((conforms_markRetrySuccess stable_draining hw (fun _ hw => hw)
            fun w _ spec' hspec' hname' hmapped => ?_).mono fun r w' hr => ?_)
          · have heq := engine.registry.eq_of_name hspec' hspec (hname'.trans hname.symm)
            simp [heq, hme] at hmapped
          · cases r with
            | error exc => trivial
            | ok _ => exact hr
      | some me =>
          refine .tryCatch ((conforms_attemptItem hspec hname hme hw).mono fun r w' hr => ?_)
          cases r with
          | ok _ => exact hr
          | error exc => exact conforms_attemptFailed hr.1 hr.2

theorem conforms_drainItems {items : List RetryRow} {succeeded : Nat}
    (hw : Draining items w) :
    engine.Conforms ops allow (fun _ _ => True) (engine.drainItems items succeeded) w := by
  induction items generalizing succeeded w with
  | nil => trivial
  | cons item items ih =>
      refine .bind ((conforms_drainItem hw).mono fun r w' hr => ?_)
      cases r with
      | error exc => trivial
      | ok ok => exact ih hr

theorem conforms_processRetryQueue {limit : Int} :
    engine.Conforms ops allow (fun _ _ => True) (engine.processRetryQueue limit) w := by
  refine .bind (.bind (conforms_now (P := fun _ => True) (fun _ _ h => h) trivial
    fun now w _ => ?_))
  refine conforms_select (P := fun _ => True) (fun _ _ h => h) trivial (fun _ => rfl)
    (fun w due db _ hexec => ?_) fun _ _ _ _ => trivial
  simp only [DB.exec] at hexec
  split at hexec <;> cases hexec
  have hsub := dueRows_sublist w.db.retryQueue now limit
  exact ⟨rfl, conforms_drainItems ⟨fun row h => hsub.subset h,
    w.db.retryQueue.nodup_ids.sublist (hsub.map _)⟩⟩

/-! ## The refinement -/

/-- Every operation only takes steps of the protocol. -/
theorem SyncEngine.refines (op : { op : Operation // ops op }) (w : World δ) :
    engine.Conforms ops allow (fun _ _ => True) ((engine.machine ops).prog op) w := by
  obtain ⟨op, hop⟩ := op
  cases op with
  | fullSync => exact .bind (conforms_runCycle.mono fun r _ _ => by cases r <;> trivial)
  | incrementalSync => exact .bind (conforms_runCycle.mono fun r _ _ => by cases r <;> trivial)
  | resyncEntity entityName dateFrom dateTo =>
      exact .bind ((conforms_resyncEntity hop).mono fun r _ _ => by cases r <;> trivial)
  | processRetryQueue limit =>
      exact .bind (conforms_processRetryQueue.mono fun r _ _ => by cases r <;> trivial)

/-- What holds initially and is kept by every step of the protocol holds in
every state of every run, whatever fails and wherever it crashes. -/
theorem SyncEngine.invariant {init I : World δ → Prop} (hinit : ∀ w, init w → I w)
    (hstep : ∀ w w', engine.Step ops allow w w' → I w → I w')
    {c : Config (@Call.Resp δ) Exn (World δ)}
    (hc : (engine.machine ops).Reach allow init c) : I c.world := by
  refine hc.invariant (G := engine.Step ops allow) ?_ (fun op w => engine.refines op w)
    hinit hstep
  rintro w w' ⟨company, hedit⟩
  simp only [SyncEngine.machine] at hedit
  split at hedit <;> cases hedit
  exact .edit company (And.left ‹_›) (And.right ‹_›)

/-! ## The recorded pushes -/

/-- The pushes that a run records are acknowledged ones: Frappe applied the
payload of each of them. -/
theorem SyncEngine.pushes_served {init : World δ → Prop} (hinit : ∀ w, init w → w.pushes = [])
    {c : Config (@Call.Resp δ) Exn (World δ)} (hc : (engine.machine ops).Reach allow init c) :
    ∀ push ∈ c.world.pushes, push.Served c.world := by
  refine engine.invariant (I := fun w => ∀ push ∈ w.pushes, push.Served w)
    (fun w hw push hpush => ?_) (fun w w' hstep h push hpush => ?_) hc
  · rw [hinit w hw] at hpush
    cases hpush
  cases hstep with
  | ack item name op _ _ hserved =>
    rcases List.mem_cons.mp hpush with rfl | hold
    · exact hserved.mono fun _ hevent => hevent
    · exact (h push hold).mono fun _ hevent => hevent
  | post | put | poll | skip | remember | save =>
    exact (h push hpush).mono fun _ hevent => List.mem_cons_of_mem _ hevent
  | _ => exact (h push hpush).mono fun _ hevent => hevent

end TallyConnector
