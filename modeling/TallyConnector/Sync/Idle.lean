import TallyConnector.Sync.Attempts
import TallyConnector.World.Listing

/-! # Operations that find nothing to do

As long as Tally cannot be reached, or lists nothing new, and the queue is
empty, no operation sends anything. What a listed record makes of an operation
is the other half: it is looked up in Frappe, and then either created or
queued.
-/

namespace TallyConnector

open Effects Prog

variable {δ σ τ : Type}

/-- Nothing was sent, and nothing is there to be sent. -/
structure Idle (cache : CacheKey → Option (CacheRow δ)) (K : String → Option Int → Prop)
    (w : Local δ Unit) : Prop where
  reports : w.reports = []
  queue : w.db.retryQueue.rows = []
  cache : w.db.syncCache = cache
  checkpoints : ∀ name, K name (w.db.lastAlterId name)

section idle

variable {engine : SyncEngine δ} {tally : CollectionRequest → TallyOutcome}
variable {answer : FrappeRequest → HttpOutcome} {cache : CacheKey → Option (CacheRow δ)}
variable {K : String → Option Int → Prop} {w : Local δ Unit}

theorem Idle.mono {K' : String → Option Int → Prop} (h : Idle cache K w)
    (hK : ∀ name since, K name since → K' name since) : Idle cache K' w :=
  ⟨h.reports, h.queue, h.cache, fun name => hK name _ (h.checkpoints name)⟩

theorem idle_updateLastSync (engine : SyncEngine δ) (answer : FrappeRequest → HttpOutcome)
    (tally : CollectionRequest → TallyOutcome) {name : String} {since : Option Int}
    (status : String) (hsince : K name since) (h : Idle cache K w) :
    (engine.store.updateLastSync name since status).Ensures (handler answer tally)
      (fun r w' => Idle cache K w' ∧ (since.all fitsInt64 = true → r = .ok ())) w := by
  unfold Ensures
  rw [run_updateLastSync]
  by_cases hfits : since.all fitsInt64 = true
  · simp only [Environment.answer, Environment.withTally, Environment.still, DB.exec, hfits, if_true]
    refine ⟨⟨h.reports, h.queue, h.cache, fun name' => ?_⟩, fun _ => rfl⟩
    by_cases hname : name' = name
    · subst hname
      simpa [DB.lastAlterId] using hsince
    · simpa [DB.lastAlterId, Function.update_of_ne hname] using h.checkpoints name'
  · simp only [Environment.answer, Environment.withTally, Environment.still, DB.exec, hfits]
    exact ⟨h, fun habsurd => absurd habsurd (by simp)⟩

/-- An entity without new records leaves the store idle. -/
theorem idle_syncEntity {spec : EntitySpec} {since : Option Int} {dateFrom dateTo : Option Date}
    (hfetch : engine.recordsOf spec (tally (engine.collectionRequest spec since dateFrom dateTo)) =
        .ok [] ∨
      ∃ exc, engine.recordsOf spec (tally (engine.collectionRequest spec since dateFrom dateTo)) =
        .error exc ∧ exc.isTallyConnectorError = true)
    (hsince : K spec.name since) (h : Idle cache K w) [DecidableEq δ] :
    (engine.syncEntity spec since dateFrom dateTo).Ensures (handler answer tally)
      (fun r w' => Idle cache K w' ∧ (since.all fitsInt64 = true → ∃ result, r = .ok result)) w := by
  -- the checkpoint is written as it was
  have hupdate : ∀ (status : String) (w : Local δ Unit), Idle cache K w →
      (do
        engine.store.updateLastSync spec.name since status
        resultOp .read : Py δ EntitySyncResult).Ensures (handler answer tally)
          (fun r w' => Idle cache K w' ∧
            (since.all fitsInt64 = true → ∃ result, r = .ok result)) w := by
    intro status w hw
    refine .bind ((idle_updateLastSync engine answer tally status hsince hw).mono fun r w' hw' => ?_)
    cases r with
    | error exc =>
        refine ⟨hw'.1, fun hfits => ?_⟩
        cases hw'.2 hfits
    | ok _ => exact ⟨hw'.1, fun _ => ⟨_, rfl⟩⟩
  refine .bind_run (run_resultOp ..) ?_
  -- a new result is not part of the state
  have hnew : Idle cache K (handler answer tally (.result (.new spec.name)) w).2 :=
    ⟨h.reports, h.queue, h.cache, h.checkpoints⟩
  rcases hfetch with hrecords | ⟨exc, hexc, hconnector⟩
  · refine .bind_run (run_fetchRecords rfl hrecords) ?_
    refine .bind_run (run_resultOp ..) ?_
    exact .bind_run rfl (hupdate "ok" _ ⟨hnew.reports, hnew.queue, hnew.cache, hnew.checkpoints⟩)
  · refine .bind_run (run_fetchRecords_error rfl hexc hconnector) ?_
    exact hupdate "error" _ hnew

variable (engine answer tally) in
theorem idle_sinceAlterId {incremental : Bool} (spec : EntitySpec)
    (hnone : incremental = false → ∀ name, K name none) (h : Idle cache K w) :
    ∃ since, K spec.name since ∧
      Prog.run (handler answer tally) (engine.sinceAlterId incremental spec) w = (.ok since, w) := by
  cases incremental with
  | false => exact ⟨none, hnone rfl spec.name, rfl⟩
  | true => exact ⟨w.db.lastAlterId spec.name, h.checkpoints spec.name, rfl⟩

variable [DecidableEq δ]

theorem idle_syncEntities {incremental : Bool} {specs : List EntitySpec}
    (hnone : incremental = false → ∀ name, K name none)
    (hfetch : ∀ spec ∈ specs, ∀ since, K spec.name since →
      engine.recordsOf spec (tally (engine.collectionRequest spec since none none)) = .ok [] ∨
      ∃ exc, engine.recordsOf spec (tally (engine.collectionRequest spec since none none)) =
        .error exc ∧ exc.isTallyConnectorError = true)
    (h : Idle cache K w) :
    (engine.syncEntities incremental specs).Ensures (handler answer tally)
      (fun _ w' => Idle cache K w') w := by
  induction specs generalizing w with
  | nil => exact h
  | cons spec specs ih =>
      obtain ⟨since, hsince, hrun⟩ := idle_sinceAlterId engine tally answer spec hnone h
      refine .bind_run hrun ?_
      refine .bind ((idle_syncEntity (hfetch spec List.mem_cons_self since hsince) hsince
        h).mono fun r w' hw' => ?_)
      cases r with
      | error exc => exact hw'.1
      | ok result =>
          refine .bind ((ih (fun spec' hmem => hfetch spec' (List.mem_cons_of_mem _ hmem))
            hw'.1).mono fun r w'' hw'' => ?_)
          cases r with
          | error exc => exact hw''
          | ok results => exact hw''

end idle

section down

variable [DecidableEq δ] {engine : SyncEngine δ} {answer : FrappeRequest → HttpOutcome}
variable {cache : CacheKey → Option (CacheRow δ)} {K : String → Option Int → Prop}
variable {w : Local δ Unit}

/-- While Tally cannot be reached, every operation leaves an idle store idle. -/
theorem idle_prog (hnone : ∀ name, K name none) (op : Operation) (h : Idle cache K w) :
    (engine.prog op).Ensures (handler answer fun _ => .timeout) (fun _ w' => Idle cache K w') w := by
  -- Tally does not answer
  have hfetch : ∀ (spec : EntitySpec) (since : Option Int) (dateFrom dateTo : Option Date),
      engine.recordsOf spec .timeout = .ok [] ∨
        ∃ exc, engine.recordsOf spec .timeout = .error exc ∧ exc.isTallyConnectorError = true :=
    fun spec _ _ _ => .inr ⟨_, rfl, rfl⟩
  have hcycle : ∀ incremental, (engine.runCycle incremental).Ensures
      (handler answer fun _ => .timeout) (fun _ w' => Idle cache K w') w := by
    intro incremental
    refine .bind (.ofExcept ?_)
    cases engine.registry.resolveSyncOrder with
    | error exc => exact h
    | ok order =>
        exact idle_syncEntities (fun _ => hnone) (fun spec _ since _ => hfetch spec since none none) h
  cases op with
  | fullSync =>
      refine .bind ((hcycle false).mono fun r w' hw' => ?_)
      cases r with
      | error exc => exact hw'
      | ok results => exact hw'
  | incrementalSync =>
      refine .bind ((hcycle true).mono fun r w' hw' => ?_)
      cases r with
      | error exc => exact hw'
      | ok results => exact hw'
  | resyncEntity entityName dateFrom dateTo =>
      refine .bind (.bind (.ofExcept ?_))
      cases engine.registry.getEntity entityName with
      | error exc => exact h
      | ok spec =>
          refine (idle_syncEntity (hfetch spec none dateFrom dateTo) (hnone _) h).mono
            fun r w' hw' => ?_
          cases r with
          | error exc => exact hw'.1
          | ok result => exact hw'.1
  | processRetryQueue limit =>
      -- the queue is empty, so nothing is due
      have hdue : ∀ now, dueRows w.db.retryQueue now limit = [] := by
        simp [dueRows, h.queue]
      have hidle : Idle cache K (handler answer (fun _ => .timeout) (.clock : Call δ) w).2 :=
        ⟨h.reports, h.queue, h.cache, h.checkpoints⟩
      refine .bind (.bind ?_)
      unfold Ensures
      rw [run_dequeueDueRetries]
      by_cases hlimit : fitsInt64 limit = true
      · simp only [Environment.answer, Environment.withTally, Environment.still, DB.exec, hlimit,
          if_true, hdue]
        exact hidle
      · simp only [Environment.answer, Environment.withTally, Environment.still, DB.exec, hlimit]
        exact hidle

end down

/-! ## Operations that send something -/

section sending

variable {env : Environment δ σ} {w : Local δ σ} {α β : Type}

/-- What was sent stays sent. -/
theorem ensures_sent {p : Py δ α} (h : w.reports ≠ []) :
    p.Ensures env.answer (fun _ w' => w'.reports ≠ []) w := by
  refine .of_all p.all_true (fun e w _ hw => ?_) h
  cases e with
  | sql stmt =>
      simp only [Environment.answer]
      cases env.sqlError stmt w.state with
      | some exc => exact hw
      | none => cases w.db.exec stmt <;> exact hw
  | frappe request => exact List.cons_ne_nil _ _
  | result op => exact List.append_ne_nil_of_right_ne_nil _ hw
  | _ => exact hw

theorem ensures_sent_bind {p : Py δ α} {f : α → Py δ β}
    (h : p.Ensures env.answer (fun _ w' => w'.reports ≠ []) w) :
    (p >>= f).Ensures env.answer (fun _ w' => w'.reports ≠ []) w := by
  refine .bind (h.mono fun r w' hw' => ?_)
  cases r with
  | error exc => exact hw'
  | ok a => exact ensures_sent hw'

theorem ensures_sent_tryCatch {p : Py δ α} {f : Exn → Py δ α}
    (h : p.Ensures env.answer (fun _ w' => w'.reports ≠ []) w) :
    (tryCatch p f).Ensures env.answer (fun _ w' => w'.reports ≠ []) w := by
  refine .tryCatch (h.mono fun r w' hw' => ?_)
  cases r with
  | error exc => exact ensures_sent hw'
  | ok a => exact hw'

theorem ensures_sent_request {client : FrappeClient δ} (request : FrappeRequest) :
    (client.request request).Ensures env.answer (fun _ w' => w'.reports ≠ []) w := by
  have honce : (client.requestOnce request).Ensures env.answer (fun _ w' => w'.reports ≠ []) w :=
    ensures_sent_bind (List.cons_ne_nil _ _)
  refine ensures_sent_tryCatch ?_
  unfold buildRetryDecorator
  cases (client.settings.retryMaxAttempts - 1).toNat with
  | zero => exact honce
  | succ extra => exact ensures_sent_tryCatch honce

end sending

section listing

variable [DecidableEq δ] {engine : SyncEngine δ} (listing : Listing engine)
variable {env : Environment δ σ} {w : Local δ σ}

/-- A record that is not cached is looked up in Frappe. -/
theorem Listing.ensures_sent_pushRecord
    (hsql : ∀ stmt s, env.sqlError stmt s = none)
    (hcache : w.db.syncCache listing.cacheKey = none) :
    (engine.pushRecord listing.spec listing.me listing.model).Ensures env.answer
      (fun _ w' => w'.reports ≠ []) w := by
  have hselect := Environment.answer_selectCache (w := w) (hsql (.selectCache listing.cacheKey) _)
  rw [← listing.cacheKey_me] at hselect
  rw [← listing.cacheKey_me] at hcache
  unfold SyncEngine.pushRecord
  rw [listing.hkey]
  refine ensures_sent_bind ?_
  unfold Ensures
  rw [run_findExisting_get engine.store engine.frappe listing.spec.naturalKeyField hselect (by simp [hcache])]
  exact ensures_sent_bind (ensures_sent_bind (ensures_sent_request _))

/-- A sync that finds the record sends something. -/
theorem Listing.ensures_sent_syncEntity (answer : FrappeRequest → HttpOutcome)
    {w : Local δ Unit} (hcache : w.db.syncCache listing.cacheKey = none) :
    (engine.syncEntity listing.spec none none none).Ensures (handler answer listing.answer)
      (fun _ w' => w'.reports ≠ []) w := by
  have hrecords : engine.recordsOf listing.spec
      (listing.answer (engine.collectionRequest listing.spec none none none)) =
        .ok [listing.raw] := by
    rw [listing.answer_none]
    exact listing.hpage
  refine .bind_run (run_resultOp ..) ?_
  refine .bind_run (run_fetchRecords rfl hrecords) ?_
  refine .bind_run (run_resultOp ..) ?_
  refine ensures_sent_bind ?_
  simp only [SyncEngine.syncRecords, listing.hmodel, listing.hme]
  refine ensures_sent_bind (ensures_sent_tryCatch ?_)
  exact listing.ensures_sent_pushRecord (fun _ _ => rfl) hcache

/-- An incremental cycle that comes to the record without a checkpoint sends
something. -/
theorem Listing.ensures_sent_syncEntities (answer : FrappeRequest → HttpOutcome)
    {cache : CacheKey → Option (CacheRow δ)} (hcache : cache listing.cacheKey = none)
    {specs : List EntitySpec} (hspecs : specs ⊆ engine.registry.specs)
    (hmem : listing.spec ∈ specs) {w : Local δ Unit}
    (hw : Idle cache (fun _ since => since = none) w) :
    (engine.syncEntities true specs).Ensures (handler answer listing.answer)
      (fun _ w' => w'.reports ≠ []) w := by
  induction specs generalizing w with
  | nil => exact absurd hmem List.not_mem_nil
  | cons spec specs ih =>
      obtain ⟨since, rfl, hrun⟩ := idle_sinceAlterId engine listing.answer answer spec
        (fun habsurd : true = false => nomatch habsurd) hw
      refine .bind_run hrun ?_
      by_cases heq : spec = listing.spec
      · subst heq
        -- the cycle reaches the entity that lists the record
        refine ensures_sent_bind ?_
        refine listing.ensures_sent_syncEntity answer ?_
        rw [hw.cache, hcache]
      · have hspec := hspecs List.mem_cons_self
        -- an entity before it lists nothing
        have hne : spec.name ≠ listing.spec.name := fun hname =>
          heq (engine.registry.eq_of_name hspec listing.hspec hname)
        have hfetch : engine.recordsOf spec
            (listing.answer (engine.collectionRequest spec none none none)) = .ok [] := by
          rw [listing.answer_of_not fun hname => absurd hname hne]
          exact listing.hempty spec hspec
        refine .bind ((idle_syncEntity (.inl hfetch) rfl hw).mono fun r w' hw' => ?_)
        have hrest : listing.spec ∈ specs := (List.mem_cons.mp hmem).resolve_left (Ne.symm heq)
        cases r with
        | error exc =>
            obtain ⟨result, hresult⟩ := hw'.2 rfl
            cases hresult
        | ok result =>
            exact ensures_sent_bind (ih (fun _ h => hspecs (List.mem_cons_of_mem _ h)) hrest hw'.1)

end listing

section turns

variable [DecidableEq δ] {engine : SyncEngine δ} (listing : Listing engine)
variable {cache : CacheKey → Option (CacheRow δ)} {w : Local δ Unit}

/-- On an empty site the record is created. -/
theorem Listing.run_pushRecord_serving (tally : CollectionRequest → TallyOutcome)
    (hcache : w.db.syncCache listing.cacheKey = none) :
    (engine.pushRecord listing.spec listing.me listing.model).Ensures (handler serving tally)
      (fun r _ => r = .ok ()) w := by
  have hselect : ∀ w : Local δ Unit, handler serving tally (.sql (.selectCache listing.cacheKey)) w =
      (.ok (w.db.syncCache listing.cacheKey), w) := fun w => Environment.answer_selectCache rfl
  have hpost : ∀ w : Local δ Unit, handler serving tally (.frappe (.post engine.frappe.baseUrl
      listing.me.frappeDoctype (listing.me.apply listing.model.dump))) w =
        (okOutcome (savedBody "DOC-1"), (handler serving tally (.frappe (.post
          engine.frappe.baseUrl listing.me.frappeDoctype
          (listing.me.apply listing.model.dump))) w).2) := fun _ => rfl
  have hkey : w.db.syncCache ⟨listing.me.entityName, listing.key, engine.frappe.baseUrl⟩ = none := by
    rw [listing.cacheKey_me]
    exact hcache
  have hexisting := run_findExisting_none engine.store engine.frappe
    listing.spec.naturalKeyField (listing.cacheKey_me ▸ hselect w)
    (by simp [hkey]) rfl
  unfold SyncEngine.pushRecord
  rw [listing.hkey]
  refine .bind_run hexisting ?_
  refine .bind_run ((run_getCacheEntry ..).trans (hselect _)) ?_
  rw [if_neg (by simp)]
  refine .bind_run (run_sendRecord_create Json.truthy_null (hpost _)) ?_
  unfold Ensures
  rw [run_upsertCache]
  rfl

/-- Wrapping an entity sync up as an operation. -/
theorem ensures_resync {env : Environment δ σ} {Q : Local δ σ → Prop} {spec : EntitySpec}
    (hspec : spec ∈ engine.registry.specs) {w : Local δ σ}
    (h : (engine.syncEntity spec none none none).Ensures env.answer (fun _ w' => Q w') w) :
    (engine.prog (.resyncEntity spec.name none none)).Ensures env.answer (fun _ w' => Q w') w := by
  refine .bind (.bind (.ofExcept ?_))
  rw [engine.registry.getEntity_self hspec]
  refine Ensures.mono h fun r w' hw' => ?_
  cases r with
  | error exc => exact hw'
  | ok result => exact hw'

omit [DecidableEq δ] in
theorem ensures_stored (engine : SyncEngine δ) (answer : FrappeRequest → HttpOutcome)
    (tally : CollectionRequest → TallyOutcome) {name : String} {since : Option Int}
    (hfits : since.all fitsInt64 = true) (w : Local δ Unit) :
    (do
      engine.store.updateLastSync name since "ok"
      resultOp .read : Py δ EntitySyncResult).Ensures (handler answer tally)
        (fun _ w' => w'.db.retryQueue = w.db.retryQueue ∧ w'.db.lastAlterId name = since) w := by
  refine .bind ?_
  unfold Ensures
  rw [run_updateLastSync]
  simp only [Environment.answer, Environment.withTally, Environment.still, DB.exec, hfits, if_true]
  exact ⟨rfl, by simp [DB.lastAlterId, Environment.answer]⟩

theorem Listing.ensures_loop (hcache : w.db.syncCache listing.cacheKey = none) :
    (engine.syncRecords listing.spec (engine.mapping.entry listing.spec.name) [listing.raw]
      none).Ensures (handler serving listing.answer) (fun r w' =>
        r = .ok (some (listing.version.alterId : Int)) ∧ w'.db.retryQueue = w.db.retryQueue) w := by
  have hkept := run_queue ((Environment.still serving).withTally listing.answer)
    (engine.all_pushRecord listing.spec listing.me listing.model) w
  have hrun := listing.run_pushRecord_serving listing.answer hcache
  simp only [SyncEngine.syncRecords, listing.hmodel, listing.hme, listing.bumpMax_none]
  refine .bind_run (run_tryCatch_ok _ (Prod.ext hrun rfl)) ?_
  exact ⟨rfl, hkept⟩

/-- A sync of the other target that succeeds moves the checkpoint past the
record. -/
theorem Listing.ensures_served (hqueue : w.db.retryQueue.rows = [])
    (hcache : w.db.syncCache listing.cacheKey = none) :
    (engine.syncEntity listing.spec none none none).Ensures
      (handler serving listing.answer) (fun _ w' => w'.db.retryQueue.rows = [] ∧
        w'.db.lastAlterId listing.spec.name = some (listing.version.alterId : Int)) w := by
  refine .bind_run (run_resultOp ..) ?_
  refine .bind_run (run_fetchRecords rfl listing.recordsOf_none) ?_
  refine .bind_run (run_resultOp ..) ?_
  refine .bind ((listing.ensures_loop (by exact hcache)).mono fun r w' hw' => ?_)
  obtain ⟨rfl, hsame⟩ := hw'
  refine (ensures_stored engine serving listing.answer ((Option.all_some ..).trans
    listing.hfits) w').mono fun _ w'' hw'' => ⟨?_, hw''.2⟩
  rw [hw''.1, hsame]
  exact hqueue

omit [DecidableEq δ] in
/-- A request to a site that is down. -/
theorem ensures_refused {client : FrappeClient δ} (tally : CollectionRequest → TallyOutcome)
    (request : FrappeRequest) (w : Local δ Unit) :
    (client.request request).Ensures (handler refused tally)
      (fun r _ => ∃ text, r = .error ⟨.frappeAPIError, text⟩) w := by
  have honce : ∀ w : Local δ Unit, (client.requestOnce request).Ensures (handler refused tally)
      (fun r _ => r = .error ⟨.transientFrappeError, "Connection refused"⟩) w := fun w => rfl
  have hretried : ∀ extra (w : Local δ Unit), (retrying
      (fun exc : Exn => decide (exc.kind = .transientFrappeError)) extra
        (client.requestOnce request)).Ensures (handler refused tally)
      (fun r _ => r = .error ⟨.transientFrappeError, "Connection refused"⟩) w := by
    intro extra
    induction extra with
    | zero => exact honce
    | succ extra ih =>
        intro w
        refine .tryCatch ((honce w).mono fun r w' hr => ?_)
        subst hr
        exact ih w'
  refine .tryCatch ((hretried _ w).mono fun r w' hr => ?_)
  subst hr
  exact ⟨_, rfl⟩

/-- A site that is down answers no push. -/
theorem Listing.ensures_pushRecord_refused (tally : CollectionRequest → TallyOutcome)
    (hcache : w.db.syncCache listing.cacheKey = none) :
    (engine.pushRecord listing.spec listing.me listing.model).Ensures (handler refused tally)
      (fun r w' => (∃ text, r = .error ⟨.frappeAPIError, text⟩) ∧
        w'.db.retryQueue = w.db.retryQueue) w := by
  have hselect : handler refused tally (.sql (.selectCache listing.cacheKey)) w =
      (.ok (w.db.syncCache listing.cacheKey), w) := Environment.answer_selectCache rfl
  refine ⟨?_, run_queue ((Environment.still refused).withTally tally)
    (engine.all_pushRecord listing.spec listing.me listing.model) w⟩
  rw [← listing.cacheKey_me] at hselect hcache
  -- no row: the document is looked for, and the request is refused
  have hget : ∀ {α : Type} (f : Json → Py δ α) (w : Local δ Unit),
      (engine.frappe.get listing.me.frappeDoctype
        [(listing.me.keyField listing.spec.naturalKeyField, .str listing.key)] ["name"] >>=
          f).Ensures (handler refused tally)
            (fun r _ => ∃ text, r = .error ⟨.frappeAPIError, text⟩) w := by
    intro α f w
    refine .bind (.bind ((ensures_refused tally _ w).mono fun r w' hr => ?_))
    obtain ⟨text, rfl⟩ := hr
    exact ⟨text, rfl⟩
  have hfind : (findExisting engine.store engine.frappe listing.me listing.spec.naturalKeyField
      listing.key).Ensures (handler refused tally)
        (fun r _ => ∃ text, r = .error ⟨.frappeAPIError, text⟩) w := by
    unfold Ensures
    rw [run_findExisting_get _ _ _ hselect (by simp [hcache])]
    exact hget _ w
  have hpush : (engine.pushRecord listing.spec listing.me listing.model).Ensures
      (handler refused tally) (fun r _ => ∃ text, r = .error ⟨.frappeAPIError, text⟩) w := by
    unfold SyncEngine.pushRecord
    rw [listing.hkey]
    refine .bind (hfind.mono fun r w' hr => ?_)
    obtain ⟨text, rfl⟩ := hr
    exact ⟨text, rfl⟩
  exact hpush

/-- The row a failed push leaves behind. -/
def Listing.Left (row : RetryRow) : Prop :=
  row.key.entityName = listing.spec.name ∧ row.val.payloadJson = listing.raw ∧
    row.val.nextAttemptAt = engine.ext.isoformat 0

/-- A sync of the other target whose push fails leaves the record queued. -/
theorem Listing.ensures_queued (hqueue : w.db.retryQueue.rows = [])
    (hcache : w.db.syncCache listing.cacheKey = none) :
    (engine.syncEntity listing.spec none none none).Ensures
      (handler refused listing.answer)
      (fun _ w' => ∃ row, w'.db.retryQueue.rows = [row] ∧ listing.Left row) w := by
  -- a refused record is queued, due at once
  have hfailed : ∀ (text : String) (w : Local δ Unit), w.db.retryQueue.rows = [] →
      (engine.pushFailed listing.spec listing.raw ⟨.frappeAPIError, text⟩).Ensures
        (handler refused listing.answer) (fun r w' => r = .ok () ∧
          ∃ row, w'.db.retryQueue.rows = [row] ∧ listing.Left row) w := by
    intro text w hqueue
    have hguid : SyncEngine.recordGuid listing.spec listing.raw = .str listing.key := by
      simp [SyncEngine.recordGuid, listing.hlookup]
    unfold SyncEngine.pushFailed
    rw [if_neg (by simp), hguid]
    refine .bind_run (run_resultOp ..) ?_
    unfold Ensures
    rw [run_enqueueRetry]
    refine ⟨rfl, _, Tables.AutoTable.rows_upsert_of_empty hqueue, rfl, rfl, rfl⟩
  -- the loop over the one record
  have hloop : ∀ w : Local δ Unit, w.db.retryQueue.rows = [] →
      w.db.syncCache listing.cacheKey = none →
      (engine.syncRecords listing.spec (engine.mapping.entry listing.spec.name) [listing.raw]
        none).Ensures (handler refused listing.answer) (fun r w' =>
          r = .ok (some (listing.version.alterId : Int)) ∧
            ∃ row, w'.db.retryQueue.rows = [row] ∧ listing.Left row) w := by
    intro w hqueue hcache
    simp only [SyncEngine.syncRecords, listing.hmodel, listing.hme, listing.bumpMax_none]
    refine .bind (.tryCatch ((listing.ensures_pushRecord_refused listing.answer hcache).mono
      fun r w' hr => ?_))
    obtain ⟨⟨text, rfl⟩, hkept⟩ := hr
    refine (hfailed text w' (by rw [hkept, hqueue])).mono fun r w'' hr => ?_
    obtain ⟨rfl, hrow⟩ := hr
    exact ⟨rfl, hrow⟩
  refine .bind_run (run_resultOp ..) ?_
  refine .bind_run (run_fetchRecords rfl listing.recordsOf_none) ?_
  refine .bind_run (run_resultOp ..) ?_
  refine .bind ((hloop _ (by exact hqueue) (by exact hcache)).mono fun r w' hw' => ?_)
  obtain ⟨rfl, row, hrows, hleft⟩ := hw'
  refine (ensures_stored engine refused listing.answer ((Option.all_some ..).trans
    listing.hfits) w').mono fun _ w'' hw'' => ⟨row, ?_, hleft⟩
  rw [hw''.1]
  exact hrows

/-- A drain that comes to that row sends something. -/
theorem Listing.ensures_sent_drain {limit : Int} {row : RetryRow}
    (answer : FrappeRequest → HttpOutcome) (tally : CollectionRequest → TallyOutcome)
    (hlimit : fitsInt64 limit = true) (hzero : limit ≠ 0)
    (hqueue : w.db.retryQueue.rows = [row]) (hleft : listing.Left row)
    (hcache : w.db.syncCache listing.cacheKey = none) :
    (engine.prog (.processRetryQueue limit)).Ensures (handler answer tally)
      (fun _ w' => w'.reports ≠ []) w := by
  obtain ⟨hname, hpayload, hnext⟩ := hleft
  -- the row is due
  have hdue : dueRows w.db.retryQueue (engine.ext.isoformat 0) limit = [row] := by
    have hle : engine.ext.isoformat 0 ≤ engine.ext.isoformat 0 := String.le_refl _
    unfold dueRows
    rw [hqueue]
    simp only [List.filter_cons, hnext, hle, decide_true, if_true, List.filter_nil]
    split
    · rfl
    · next hpos =>
      have hlength : [row].length ≤ limit.toNat := by
        rw [List.length_singleton]
        omega
      exact List.take_of_length_le hlength
  have hselect : Prog.run (handler answer tally) (engine.store.dequeueDueRetries limit) w =
      (.ok [row], w) := by
    rw [run_dequeueDueRetries]
    simp only [Environment.answer, Environment.withTally, Environment.still, DB.exec, hlimit,
      if_true]
    rw [← hdue]
    rfl
  refine ensures_sent_bind (.bind_run hselect ?_)
  refine ensures_sent_bind ?_
  -- its record is sent again
  unfold SyncEngine.drainItem
  rw [hname, engine.registry.getEntity_self listing.hspec]
  simp only [ofExcept_ok, ret_bind, listing.hme]
  refine ensures_sent_tryCatch ?_
  unfold SyncEngine.attemptItem
  rw [hpayload, listing.hmodel]
  refine .bind_run rfl (.bind_run (run_resultOp ..) (ensures_sent_bind ?_))
  exact listing.ensures_sent_pushRecord (fun _ _ => rfl) hcache

end turns

end TallyConnector
