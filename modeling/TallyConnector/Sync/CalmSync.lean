import TallyConnector.Sync.Calm
import TallyConnector.Sync.Refinement

/-! # Syncs in which nothing fails

The rules of `Sync/Calm.lean` put together to the sync of an entity: its fetch,
which may fail, its record loop, with an invariant over the records already
handled, and its checkpoint.
-/

namespace TallyConnector

open Effects Prog

variable {δ : Type} {engine : SyncEngine δ} {allow : Assumed δ} {spec : EntitySpec}
variable {request : CollectionRequest} {w : World δ}

/-! ## The fetch -/

/-- Worlds that differ in the last fetch only. -/
def World.SameButFetch (w w' : World δ) : Prop := ∃ fetched, w' = { w with fetched := fetched }

theorem World.sameButFetch_fetch (w : World δ) (request : CollectionRequest)
    (outcome : TallyOutcome) : w.SameButFetch (w.fetch request outcome) := ⟨_, rfl⟩

/-- Tally answered the request with this outcome, at a time when the company
was what it is in `w`. -/
def World.Answered (w : World δ) (allow : Assumed δ) (request : CollectionRequest)
    (outcome : TallyOutcome) : Prop :=
  ∃ w₁ : World δ, w₁.tally = w.tally ∧ allow (.tally request) (.tally outcome) w₁

theorem calm_sendRequest :
    (engine.tally.sendRequest request).Always (engine.calm allow)
      (fun r w' => w.SameButFetch w' ∧ ∀ response, r = .ok response → ∃ outcome,
        w.Answered allow request outcome ∧ engine.tally.readOutcome outcome = .ok response ∧
          w' = w.fetch request outcome) w := by
  refine always_retrying (I := w.SameButFetch) (fun w₁ hw₁ => ?_) ⟨w.fetched, rfl⟩
  obtain ⟨fetched, rfl⟩ := hw₁
  refine .bind ?_
  rintro outcome w' ⟨⟨c, ha, he⟩, -⟩
  cases c <;> cases he
  change (Prog.ofExcept (engine.tally.readOutcome outcome)).Always _ _ _
  cases hread : engine.tally.readOutcome outcome with
  | error exc =>
      exact ⟨⟨⟨_, rfl⟩, fun _ h => by cases h⟩, fun _ _ => ⟨_, rfl⟩⟩
  | ok response =>
      refine ⟨⟨⟨_, rfl⟩, fun response' h => ?_⟩, fun _ h => by cases h⟩
      cases h
      exact ⟨outcome, ⟨{ w with fetched := fetched }, rfl, ha⟩, hread, rfl⟩

/-- A fetch returns the records of Tally's answer, or fails. -/
theorem calm_fetchRecords {Q : Except Exn (Except Exn (List Record)) → World δ → Prop}
    (hok : ∀ outcome records, w.Answered allow request outcome →
      engine.recordsOf spec outcome = .ok records →
        Q (.ok (.ok records)) (w.fetch request outcome))
    (herror : ∀ exc w', w.SameButFetch w' → Q (.ok (.error exc)) w')
    (hraise : ∀ exc w', w.SameButFetch w' → Q (.error exc) w') :
    (engine.fetchRecords spec request).Always (engine.calm allow) Q w := by
  refine .tryCatch (.bind (calm_sendRequest.mono fun r w' hr => ?_))
  -- an error of the connector is returned, any other is raised
  have hcaught : ∀ (exc : Exn) (w' : World δ), w.SameButFetch w' →
      (if exc.isTallyConnectorError then pure (.error exc) else throw exc :
        Py δ (Except Exn (List Record))).Always (engine.calm allow) Q w' := by
    intro exc w' hw'
    split
    · exact herror exc w' hw'
    · exact hraise exc w' hw'
  cases r with
  | error exc => exact hcaught exc w' hr.1
  | ok response =>
      obtain ⟨outcome, hanswered, hread, rfl⟩ := hr.2 response rfl
      refine .bind (.ofExcept ?_)
      cases hparse : parseCollectionResponse engine.ext.fromstring response spec with
      | error exc => exact hcaught exc _ (w.sameButFetch_fetch request outcome)
      | ok records =>
          refine hok outcome records hanswered ?_
          simp only [SyncEngine.recordsOf, hread, hparse]

/-! ## The record loop -/

variable [DecidableEq δ]

/-- The loop over the records of a mapped entity, with an invariant over the
records handled so far. -/
theorem calm_syncRecords {I : List Record → World δ → Prop} {me : MappingEntry}
    (records : List Record) {rest done : List Record} {since : Option Int}
    (hspec : spec ∈ engine.registry.specs) (hme : engine.mapping.entry spec.name = some me)
    (hkeyless : ∀ done raw w result, raw ∈ records → spec.keyOf raw = none → I done w →
      I (raw :: done) (World.setResult w result))
    (hpush : ∀ done (item : Item engine) w w', item.spec = spec → item.raw ∈ records →
      item.Effect allow w w' → I done w → I (item.raw :: done) w')
    (hrest : rest ⊆ records) (hw : I done w) :
    (engine.syncRecords spec (some me) rest since).Always (engine.calm allow)
      (fun r w' => r = .ok (rest.foldl (SyncEngine.seen spec) since) ∧
        I (rest.reverse ++ done) w') w := by
  induction rest generalizing done since w with
  | nil => exact ⟨rfl, hw⟩
  | cons raw rest ih =>
      have hraw : raw ∈ records := hrest List.mem_cons_self
      have hrest' : rest ⊆ records := fun _ h => hrest (List.mem_cons_of_mem _ h)
      simp only [SyncEngine.syncRecords, List.foldl_cons, List.reverse_cons, List.append_assoc,
        List.singleton_append]
      cases hmodel : toModel raw spec with
      | error exc =>
          rw [SyncEngine.seen_of_error hmodel]
          refine .bind (calm_resultOp (ih hrest' ?_))
          exact hkeyless done raw w _ hraw (keyOf_of_error hmodel) hw
      | ok model =>
          rw [SyncEngine.seen_of_ok hmodel]
          dsimp only
          cases hkey : model.usableKey spec with
          | none =>
              -- refused as TallyDataError, counted as failed
              obtain ⟨text, htext⟩ := engine.pushRecord_of_none me hkey
              rw [htext]
              refine .bind (.tryCatch (.bind (calm_resultOp (ih hrest' ?_))))
              exact hkeyless done raw w _ hraw ((keyOf_of_ok hmodel).trans hkey) hw
          | some key =>
              let item : Item engine := ⟨spec, me, raw, model, key, hspec, hme, hmodel, hkey⟩
              refine .bind (.tryCatch ((calm_pushRecord item).mono fun r w' hr => ?_))
              obtain ⟨rfl, heffect⟩ := hr
              exact ih hrest' (hpush done item w w' rfl hraw heffect hw)

/-- The loop over the records of an unmapped entity. -/
theorem calm_syncRecords_unmapped {records : List Record} {since : Option Int} :
    (engine.syncRecords spec none records since).Always (engine.calm allow)
      (fun r w' => r = .ok (records.foldl (SyncEngine.seen spec) since) ∧
        ∃ result, w' = w.setResult result) w := by
  induction records generalizing since w with
  | nil => exact ⟨rfl, w.result, rfl⟩
  | cons raw records ih =>
      simp only [SyncEngine.syncRecords, List.foldl_cons]
      cases hmodel : toModel raw spec with
      | error exc =>
          rw [SyncEngine.seen_of_error hmodel]
          refine .bind (calm_resultOp (ih.mono fun r w' hr => ?_))
          obtain ⟨hr, result, rfl⟩ := hr
          exact ⟨hr, result, rfl⟩
      | ok model =>
          rw [SyncEngine.seen_of_ok hmodel]
          exact ih

/-! ## The sync of an entity -/

/-- The sync of an entity either fails to fetch, and writes its checkpoint
back, or loops over the records and stores their maximum. -/
theorem calm_syncEntity {since : Option Int} {dateFrom dateTo : Option Date}
    {Q : Except Exn EntitySyncResult → World δ → Prop}
    (hraised : ∀ exc w' result, w.SameButFetch w' → Q (.error exc) (w'.setResult result))
    (hfailed : ∀ w' result row, w.SameButFetch w' → row.lastAlterId = since →
      row.status = "error" → Q (.ok result) ((w'.setResult result).checkpoint spec.name row))
    (hfetched : ∀ outcome records result,
      w.Answered allow (engine.collectionRequest spec since dateFrom dateTo) outcome →
      engine.recordsOf spec outcome = .ok records →
        (engine.syncRecords spec (engine.mapping.entry spec.name) records since).Always
          (engine.calm allow)
          (fun r w' => r = .ok (records.foldl (SyncEngine.seen spec) since) ∧
            ∀ row, row.lastAlterId = records.foldl (SyncEngine.seen spec) since →
              row.status = "ok" → Q (.ok w'.result) (w'.checkpoint spec.name row))
          ((w.fetch (engine.collectionRequest spec since dateFrom dateTo) outcome).setResult
            result)) :
    (engine.syncEntity spec since dateFrom dateTo).Always (engine.calm allow) Q w := by
  -- the checkpoint is written, and then the result is read
  have hread : ∀ (status : String) (lastAlterId : Option Int) (w' : World δ),
      (∀ row, row.lastAlterId = lastAlterId → row.status = status →
        Q (.ok w'.result) (w'.checkpoint spec.name row)) →
      (do
        engine.store.updateLastSync spec.name lastAlterId status
        resultOp .read : Py δ EntitySyncResult).Always (engine.calm allow) Q w' := by
    intro status lastAlterId w' h
    refine .bind (calm_updateLastSync fun row hrow hstatus => ?_)
    exact calm_resultOp (h row hrow hstatus)
  refine .bind (calm_resultOp ?_)
  refine .bind (calm_fetchRecords (fun outcome records hanswered hrecords => ?_)
    (fun exc w' hw' => ?_) fun exc w' hw' => ?_)
  · refine .bind (calm_resultOp ?_)
    refine .bind ((hfetched outcome records _ hanswered hrecords).mono fun r w' hr => ?_)
    obtain ⟨rfl, hQ⟩ := hr
    exact hread "ok" _ w' hQ
  · obtain ⟨fetched, rfl⟩ := hw'
    exact hread "error" since _ fun row hrow hstatus =>
      hfailed { w with fetched := fetched } _ row ⟨_, rfl⟩ hrow hstatus
  · obtain ⟨fetched, rfl⟩ := hw'
    exact hraised exc { w with fetched := fetched } _ ⟨_, rfl⟩

end TallyConnector
