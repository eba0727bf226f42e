import TallyConnector.Sync.CalmSync

/-! # Invariants of runs in which nothing fails

What a push keeps, and what only reads Tally's company, the documents, the
cache and the acknowledged pushes, is kept by every operation: cycles, resyncs
and drains.
-/

namespace TallyConnector

open Effects Prog

variable {δ : Type} {engine : SyncEngine δ} {allow : Assumed δ} {I : World δ → Prop}
variable {w w' : World δ}

/-- Kept by every push in which nothing fails, and by everything else that
leaves the company, the documents, the cache and the acknowledged pushes
alone. -/
structure CalmInvariant (engine : SyncEngine δ) (allow : Assumed δ) (I : World δ → Prop) :
    Prop where
  still : ∀ {w w' : World δ}, I w → w'.tally = w.tally → w'.docs = w.docs →
    w'.db.syncCache = w.db.syncCache → w'.pushes = w.pushes → I w'
  push : ∀ {item : Item engine} {w w' : World δ}, I w → item.Effect allow w w' → I w'

namespace CalmInvariant

variable (hI : CalmInvariant engine allow I)
include hI

theorem and {J : World δ → Prop} (hJ : CalmInvariant engine allow J) :
    CalmInvariant engine allow fun w => I w ∧ J w where
  still h htally hdocs hcache hpushes :=
    ⟨hI.still h.1 htally hdocs hcache hpushes, hJ.still h.2 htally hdocs hcache hpushes⟩
  push h heffect := ⟨hI.push h.1 heffect, hJ.push h.2 heffect⟩

/-- A statement that touches the checkpoints or the queue. -/
theorem sql {stmt : Stmt δ}
    (hstmt : ∀ result (w : World δ) db, w.db.exec stmt = .ok (result, db) →
      (w.commit stmt db).tally = w.tally ∧ (w.commit stmt db).docs = w.docs ∧
        (w.commit stmt db).db.syncCache = w.db.syncCache ∧
        (w.commit stmt db).pushes = w.pushes) (hw : I w) :
    (TallyConnector.sql stmt).Always (engine.calm allow) (fun _ w' => I w') w := by
  refine calm_sql fun result db _ hexec => ?_
  obtain ⟨htally, hdocs, hcache, hpushes⟩ := hstmt result w db hexec
  exact hI.still hw htally hdocs hcache hpushes

theorem deleteRetry {store : StateStore δ} {id : Nat} (hw : I w) :
    (store.markRetrySuccess id).Always (engine.calm allow) (fun _ w' => I w') w := by
  refine hI.sql (fun result w db hexec => ?_) hw
  cases hexec
  exact ⟨rfl, rfl, rfl, rfl⟩

theorem failRetry {store : StateStore δ} {id : Nat} {error nextAttemptAt : String} (hw : I w) :
    (store.markRetryFailed id error nextAttemptAt).Always (engine.calm allow)
      (fun _ w' => I w') w := by
  refine hI.sql (fun result w db hexec => ?_) hw
  cases hexec
  exact ⟨rfl, rfl, rfl, rfl⟩

variable [DecidableEq δ] {spec : EntitySpec}

theorem syncEntity {since : Option Int} {dateFrom dateTo : Option Date}
    (hspec : spec ∈ engine.registry.specs) (hw : I w) :
    (engine.syncEntity spec since dateFrom dateTo).Always (engine.calm allow)
      (fun _ w' => I w') w := by
  refine calm_syncEntity (fun exc w₁ result hsame => ?_) (fun w₁ result row hsame _ _ => ?_)
    fun outcome records result _ _ => ?_
  · obtain ⟨fetched, rfl⟩ := hsame
    exact hI.still hw rfl rfl rfl rfl
  · obtain ⟨fetched, rfl⟩ := hsame
    exact hI.still hw rfl rfl rfl rfl
  · have hstart : I ((w.fetch (engine.collectionRequest spec since dateFrom dateTo)
        outcome).setResult result) := hI.still hw rfl rfl rfl rfl
    cases hme : engine.mapping.entry spec.name with
    | none =>
      refine calm_syncRecords_unmapped.mono fun r w₂ hr => ?_
      obtain ⟨rfl, result', rfl⟩ := hr
      exact ⟨rfl, fun row _ _ => hI.still hstart rfl rfl rfl rfl⟩
    | some me =>
      refine (@calm_syncRecords δ engine allow spec _ _ (fun _ => I) me records records [] since
        hspec hme
        (fun _ _ _ _ _ _ h => hI.still h rfl rfl rfl rfl)
        (fun _ _ _ _ _ _ heffect h => hI.push h heffect) (List.Subset.refl _) hstart).mono
          fun r w₂ hr => ?_
      exact ⟨hr.1, fun row _ _ => hI.still hr.2 rfl rfl rfl rfl⟩

theorem syncEntities {incremental : Bool} {specs : List EntitySpec}
    (hspecs : specs ⊆ engine.registry.specs) (hw : I w) :
    (engine.syncEntities incremental specs).Always (engine.calm allow) (fun _ w' => I w') w := by
  induction specs generalizing w with
  | nil => exact hw
  | cons spec specs ih =>
    have hsince : (engine.sinceAlterId incremental spec).Always (engine.calm allow)
        (fun _ w' => I w') w := by
      cases incremental with
      | false => exact hw
      | true =>
        refine .bind (calm_sql fun result db _ hexec => ?_)
        cases hexec
        exact hw
    refine .bind (hsince.mono fun r w₁ hw₁ => ?_)
    cases r with
    | error exc => exact hw₁
    | ok since =>
      refine .bind ((hI.syncEntity (hspecs List.mem_cons_self) hw₁).mono fun r w₂ hw₂ => ?_)
      cases r with
      | error exc => exact hw₂
      | ok result =>
        refine .bind ((ih (fun _ h => hspecs (List.mem_cons_of_mem _ h)) hw₂).mono
          fun r w₃ hw₃ => ?_)
        cases r <;> exact hw₃

theorem runCycle {incremental : Bool} (hw : I w) :
    (engine.runCycle incremental).Always (engine.calm allow) (fun _ w' => I w') w := by
  refine .bind (.ofExcept ?_)
  cases horder : engine.registry.resolveSyncOrder with
  | error exc => exact hw
  | ok order => exact hI.syncEntities (engine.registry.resolveSyncOrder_perm horder).subset hw

omit [DecidableEq δ] in
/-- The `except` clauses of the drain. -/
theorem attemptFailed {item : RetryRow} {exc : Exn} (hw : I w) :
    (engine.attemptFailed item exc).Always (engine.calm allow) (fun _ w' => I w') w := by
  unfold SyncEngine.attemptFailed
  split
  · refine .bind ((hI.deleteRetry hw).mono fun r w₁ hw₁ => ?_)
    cases r <;> exact hw₁
  · have hnext : (engine.nextAttempt item.val.attemptCount).Always (engine.calm allow)
        (fun _ w' => I w') w := by
      refine .bind (.ofExcept ?_)
      cases backoffSeconds engine.settings.retryBackoffBaseSeconds item.val.attemptCount with
      | error exc => exact hw
      | ok seconds =>
        refine .bind (calm_clock fun now => .bind (.ofExcept ?_))
        cases timedelta seconds <;> exact hw
    refine .bind (hnext.mono fun r w₁ hw₁ => ?_)
    cases r with
    | error exc => exact hw₁
    | ok nextAttemptAt =>
      refine .bind ((hI.failRetry hw₁).mono fun r w₂ hw₂ => ?_)
      cases r <;> exact hw₂

theorem drainItem {item : RetryRow} (hw : I w) :
    (engine.drainItem item).Always (engine.calm allow) (fun _ w' => I w') w := by
  refine .bind (.ofExcept ?_)
  cases hget : engine.registry.getEntity item.key.entityName with
  -- the entity is not registered
  | error exc => exact hw
  | ok spec =>
    obtain ⟨hspec, -⟩ := engine.registry.getEntity_ok hget
    dsimp only
    cases hme : engine.mapping.entry spec.name with
    | none =>
      -- without mapping the row is deleted
      refine .bind ((hI.deleteRetry hw).mono fun r w₁ hw₁ => ?_)
      cases r <;> exact hw₁
    | some me =>
      refine .tryCatch (.bind (.ofExcept ?_))
      cases hmodel : toModel item.val.payloadJson spec with
      | error exc => exact hI.attemptFailed hw
      | ok model =>
        refine .bind (calm_resultOp ?_)
        have hw₁ : I (w.applyResult (.new spec.name)) := hI.still hw rfl rfl rfl rfl
        cases hkey : model.usableKey spec with
        | none =>
          -- without key nothing is sent
          obtain ⟨text, htext⟩ := engine.pushRecord_of_none me hkey
          rw [htext]
          exact hI.attemptFailed hw₁
        | some key =>
          let pushed : Item engine :=
            ⟨spec, me, item.val.payloadJson, model, key, hspec, hme, hmodel, hkey⟩
          refine .bind ((calm_pushRecord pushed).mono fun r w₂ hr => ?_)
          obtain ⟨rfl, heffect⟩ := hr
          -- delivered: the row is deleted
          refine .bind ((hI.deleteRetry (hI.push hw₁ heffect)).mono fun r w₃ hw₃ => ?_)
          cases r with
          | error exc => exact hI.attemptFailed hw₃
          | ok _ => exact hw₃

theorem drainItems {items : List RetryRow} {succeeded : Nat} (hw : I w) :
    (engine.drainItems items succeeded).Always (engine.calm allow) (fun _ w' => I w') w := by
  induction items generalizing succeeded w with
  | nil => exact hw
  | cons item items ih =>
    refine .bind ((hI.drainItem hw).mono fun r w₁ hw₁ => ?_)
    cases r with
    | error exc => exact hw₁
    | ok ok => exact ih hw₁

/-- Every operation keeps the invariant, also when it ends with an exception. -/
theorem prog (op : Operation) (hw : I w) :
    (engine.prog op).Always (engine.calm allow) (fun _ w' => I w') w := by
  have hdropped : ∀ {α : Type} {p : Py δ α},
      p.Always (engine.calm allow) (fun _ w' => I w') w →
        (do
          let _ ← p
          pure () : Py δ Unit).Always (engine.calm allow) (fun _ w' => I w') w := by
    intro α p h
    refine .bind (h.mono fun r w₁ hw₁ => ?_)
    cases r <;> exact hw₁
  cases op with
  | fullSync => exact hdropped (hI.runCycle hw)
  | incrementalSync => exact hdropped (hI.runCycle hw)
  | resyncEntity entityName dateFrom dateTo =>
    refine hdropped (.bind (.ofExcept ?_))
    cases hget : engine.registry.getEntity entityName with
    | error exc => exact hw
    | ok spec => exact hI.syncEntity (engine.registry.getEntity_ok hget).1 hw
  | processRetryQueue limit =>
    refine hdropped (.bind (.bind (calm_now fun now => ?_)))
    refine calm_sql fun due db _ hexec => ?_
    simp only [DB.exec] at hexec
    split at hexec <;> cases hexec
    exact hI.drainItems hw

end CalmInvariant

end TallyConnector
