import TallyConnector.Sync.CalmRuns
import TallyConnector.World.Groups

/-! # The queue empties

Once Frappe works again and the queued rows are due, each drain settles as many
rows as its limit says, oldest first: a row that can be pushed is delivered, one
that never can be is dropped, and none stays (`drains_settle`).
-/

namespace TallyConnector

open Effects Prog Tables

variable {δ : Type} {engine : SyncEngine δ} {allow : Assumed δ} {w w' w'' : World δ}

/-! ## What stays delivered -/

/-- The history of the pushes has only grown. -/
structure World.Grows (w w' : World δ) : Prop where
  pushes : w.pushes ⊆ w'.pushes
  skips : ∀ push docs, Event.skipped push docs ∈ w.log → Event.skipped push docs ∈ w'.log

theorem World.Grows.refl (w : World δ) : w.Grows w := ⟨fun _ h => h, fun _ _ h => h⟩

theorem World.Grows.trans (h : w.Grows w') (h' : w'.Grows w'') : w.Grows w'' where
  pushes := fun _ hpush => h'.pushes (h.pushes hpush)
  skips := fun push docs hskip => h'.skips push docs (h.skips push docs hskip)

theorem Item.Effect.grows {item : Item engine} (h : item.Effect allow w w') : w.Grows w' := by
  have hsaved : ∀ {name : String}, item.Saved name w w' → w.Grows w' := by
    intro name h
    refine ⟨?_, fun push docs => (h.skips push docs).mpr⟩
    rw [h.pushes]
    exact List.subset_cons_self _ _
  cases h with
  | skip row _ _ _ _ => exact ⟨fun _ h => h, fun _ _ h => List.mem_cons_of_mem _ h⟩
  | update name _ h _ _ _ _ => exact hsaved h
  | create name _ h _ _ _ => exact hsaved h

theorem SyncEngine.Settled.grows {row : RetryRow} (h : engine.Settled row w)
    (hgrows : w.Grows w') : engine.Settled row w' := by
  intro spec hspec hname hmapped
  rcases h spec hspec hname hmapped with hnone | ⟨item, hitem, hraw, hdelivered⟩
  · exact .inl hnone
  · refine .inr ⟨item, hitem, hraw, ?_⟩
    rcases hdelivered with ⟨name, hpush⟩ | ⟨name, docs, hskip⟩
    · exact .inl ⟨name, hgrows.pushes hpush⟩
    · exact .inr ⟨name, docs, hgrows.skips _ docs hskip⟩

/-! ## Draining a row -/

theorem rows_delete_head {queue : AutoTable RetryKey RetryData} {row : RetryRow}
    {rest : List RetryRow} (h : queue.rows = row :: rest) :
    (queue.delete row.id).rows = rest := by
  have hsorted := queue.sorted
  rw [h, List.pairwise_cons] at hsorted
  simp only [AutoTable.delete, h]
  rw [List.filter_cons_of_neg (by simp), List.filter_eq_self]
  intro row' hrow'
  have hlt := hsorted.1 row' hrow'
  simp only [ne_eq, decide_not, Bool.not_eq_eq_eq_not, Bool.not_true, decide_eq_false_iff_not]
  omega

/-- The row at the head of the queue is settled and gone. -/
structure Settles (engine : SyncEngine δ) (row : RetryRow) (rest : List RetryRow)
    (w w' : World δ) : Prop where
  rows : w'.db.retryQueue.rows = rest
  settled : engine.Settled row w'
  grows : w.Grows w'

variable {row : RetryRow} {rest : List RetryRow} {spec : EntitySpec}

theorem calm_markRetrySuccess {store : StateStore δ} (hrows : w.db.retryQueue.rows = row :: rest)
    (hsettled : engine.Settled row w) :
    (store.markRetrySuccess row.id).Always (engine.calm allow)
      (fun r w' => r = .ok () ∧ Settles engine row rest w w') w := by
  refine calm_sql fun result db _ hexec => ?_
  cases hexec
  exact ⟨rfl, rows_delete_head hrows, hsettled, fun _ h => h, fun _ _ h => h⟩

theorem Settles.after (hgrows : w.Grows w') (h : Settles engine row rest w' w'') :
    Settles engine row rest w w'' :=
  ⟨h.rows, h.settled, hgrows.trans h.grows⟩

/-- A record that never can be pushed is dropped. -/
theorem calm_attemptFailed {exc : Exn} (hexc : exc.isPermanent = true)
    (hrows : w.db.retryQueue.rows = row :: rest) (hsettled : engine.Settled row w) :
    (engine.attemptFailed row exc).Always (engine.calm allow)
      (fun r w' => r = .ok false ∧ Settles engine row rest w w') w := by
  unfold SyncEngine.attemptFailed
  rw [if_pos hexc]
  refine .bind ((calm_markRetrySuccess hrows hsettled).mono fun r w₁ hr => ?_)
  rcases hr with ⟨rfl, hsettles⟩
  exact ⟨rfl, hsettles⟩

theorem isPermanent_of_toModel {raw : Record} {exc : Exn} (h : toModel raw spec = .error exc) :
    exc.isPermanent = true := by
  unfold toModel at h
  split at h
  · cases h
  · cases h
    rfl

variable [DecidableEq δ]

theorem calm_drainItem (hspec : spec ∈ engine.registry.specs)
    (hname : spec.name = row.key.entityName) (hrows : w.db.retryQueue.rows = row :: rest) :
    (engine.drainItem row).Always (engine.calm allow)
      (fun r w' => (∃ ok, r = .ok ok) ∧ Settles engine row rest w w') w := by
  -- what it takes for the row to be settled, its entity being `spec`
  have hsettled : ∀ {w : World δ}, ((engine.mapping.entry spec.name).isSome →
      spec.keyOf row.val.payloadJson = none ∨ ∃ item : Item engine, item.spec = spec ∧
        item.raw = row.val.payloadJson ∧ item.Delivered w) → engine.Settled row w := by
    intro w h spec' hspec' hname'
    rw [engine.registry.eq_of_name hspec' hspec (hname'.trans hname.symm)]
    exact h
  refine .bind (.ofExcept ?_)
  rw [← hname, engine.registry.getEntity_self hspec]
  dsimp only
  cases hme : engine.mapping.entry spec.name with
  | none =>
    refine .bind ((calm_markRetrySuccess hrows (hsettled fun h => ?_)).mono fun r w₁ hr => ?_)
    · rw [hme] at h
      cases h
    · rcases hr with ⟨rfl, hsettles⟩
      exact ⟨⟨false, rfl⟩, hsettles⟩
  | some me =>
    refine .tryCatch (.bind (.ofExcept ?_))
    cases hmodel : toModel row.val.payloadJson spec with
    | error exc =>
      have hnone := keyOf_of_error hmodel
      refine (calm_attemptFailed (isPermanent_of_toModel hmodel) hrows
        (hsettled fun _ => .inl hnone)).mono fun r w₁ hr => ?_
      rcases hr with ⟨rfl, hsettles⟩
      exact ⟨⟨false, rfl⟩, hsettles⟩
    | ok model =>
      refine .bind (calm_resultOp ?_)
      have hnew : w.Grows (w.applyResult (.new spec.name)) := ⟨fun _ h => h, fun _ _ h => h⟩
      have hrows₁ : (w.applyResult (.new spec.name)).db.retryQueue.rows = row :: rest := hrows
      cases hkey : model.usableKey spec with
      | none =>
        obtain ⟨text, htext⟩ := engine.pushRecord_of_none me hkey
        have hnone : spec.keyOf row.val.payloadJson = none := (keyOf_of_ok hmodel).trans hkey
        rw [htext]
        refine (calm_attemptFailed rfl hrows₁ (hsettled fun _ => .inl hnone)).mono
          fun r w₁ hr => ?_
        rcases hr with ⟨rfl, hsettles⟩
        exact ⟨⟨false, rfl⟩, hsettles.after hnew⟩
      | some key =>
        let item : Item engine :=
          ⟨spec, me, row.val.payloadJson, model, key, hspec, hme, hmodel, hkey⟩
        refine .bind ((calm_pushRecord item).mono fun r w₁ hr => ?_)
        rcases hr with ⟨rfl, heffect⟩
        have hrows₂ : w₁.db.retryQueue.rows = row :: rest := by
          rw [heffect.retryQueue]
          exact hrows₁
        refine .bind ((calm_markRetrySuccess hrows₂ (hsettled fun _ =>
          .inr ⟨item, rfl, rfl, heffect.delivered⟩)).mono fun r w₂ hr => ?_)
        rcases hr with ⟨rfl, hsettles⟩
        exact ⟨⟨true, rfl⟩, hsettles.after (hnew.trans heffect.grows)⟩

/-! ## Draining the queue -/

/-- The rows at the head of the queue are settled and gone. -/
structure SettlesAll (engine : SyncEngine δ) (items rest : List RetryRow) (w w' : World δ) :
    Prop where
  rows : w'.db.retryQueue.rows = rest
  settled : ∀ row ∈ items, engine.Settled row w'
  grows : w.Grows w'

/-- The entities of the rows are registered. -/
def SyncEngine.Registered (engine : SyncEngine δ) (rows : List RetryRow) : Prop :=
  ∀ row ∈ rows, ∃ spec ∈ engine.registry.specs, spec.name = row.key.entityName

theorem calm_drainItems {items : List RetryRow} {succeeded : Nat}
    (hregistered : engine.Registered items) (hrows : w.db.retryQueue.rows = items ++ rest) :
    (engine.drainItems items succeeded).Always (engine.calm allow)
      (fun r w' => (∃ n, r = .ok n) ∧ SettlesAll engine items rest w w') w := by
  induction items generalizing succeeded w with
  | nil => exact ⟨⟨succeeded, rfl⟩, hrows, fun _ h => (List.not_mem_nil h).elim, .refl w⟩
  | cons row items ih =>
    rcases hregistered row List.mem_cons_self with ⟨spec, hspec, hname⟩
    refine .bind ((calm_drainItem hspec hname hrows).mono fun r w₁ hr => ?_)
    rcases hr with ⟨⟨ok, rfl⟩, hfirst⟩
    refine (ih (fun row' hrow' => hregistered row' (List.mem_cons_of_mem _ hrow'))
      hfirst.rows).mono fun r w₂ hr => ?_
    rcases hr with ⟨hok, hrest⟩
    refine ⟨hok, hrest.rows, fun row' hrow' => ?_, hfirst.grows.trans hrest.grows⟩
    rcases List.mem_cons.mp hrow' with rfl | hrow'
    · exact hfirst.settled.grows hrest.grows
    · exact hrest.settled row' hrow'

/-- Whenever the clock is read, every queued row is due. -/
def SyncEngine.allDue (engine : SyncEngine δ) : Assumed δ := fun e choice w =>
  match e, choice with
  | .clock, .clock now =>
      ∀ row ∈ w.db.retryQueue.rows, row.val.nextAttemptAt ≤ engine.ext.isoformat now
  | _, _ => True

theorem dueRows_of_due {queue : AutoTable RetryKey RetryData} {now : String} {limit : Int}
    (hlimit : 0 < limit) (h : ∀ row ∈ queue.rows, row.val.nextAttemptAt ≤ now) :
    dueRows queue now limit = queue.rows.take limit.toNat := by
  have hall : queue.rows.filter (fun row => row.val.nextAttemptAt ≤ now) = queue.rows :=
    List.filter_eq_self.mpr fun row hrow => decide_eq_true (h row hrow)
  unfold dueRows
  rw [hall, if_neg (by omega)]

/-- A drain settles the oldest rows, as many as its limit. -/
theorem calm_processRetryQueue {limit : Int} (hlimit : 0 < limit)
    (hregistered : engine.Registered w.db.retryQueue.rows) :
    (engine.processRetryQueue limit).Always (engine.calm engine.allDue)
      (fun r w' => (∃ n, r = .ok n) ∧ SettlesAll engine
        (w.db.retryQueue.rows.take limit.toNat) (w.db.retryQueue.rows.drop limit.toNat) w w') w := by
  refine .bind (.bind (.bind ?_))
  rintro (now : Int) w₁ ⟨⟨choice, ha, he⟩, -⟩
  cases choice <;> cases he
  refine calm_sql fun due db _ hexec => ?_
  simp only [DB.exec] at hexec
  split at hexec <;> cases hexec
  have hdue : dueRows w.db.retryQueue (engine.store.ext.isoformat now) limit =
      w.db.retryQueue.rows.take limit.toNat := dueRows_of_due hlimit ha
  rw [hdue]
  exact calm_drainItems (fun row hrow => hregistered row (List.take_subset _ _ hrow))
    (List.take_append_drop limit.toNat w.db.retryQueue.rows).symm

/-! ## Drain after drain -/

/-- So many drains of at most `limit` rows each, in which nothing fails. -/
inductive SyncEngine.Drains (engine : SyncEngine δ) (limit : Int) :
    Nat → World δ → World δ → Prop
  | none (w : World δ) : engine.Drains limit 0 w w
  | more {n : Nat} {w w₁ w₂ : World δ} {r : Except Exn Nat}
      (hfirst : (engine.processRetryQueue limit).Runs (engine.calm engine.allDue) w r w₁)
      (hrest : engine.Drains limit n w₁ w₂) : engine.Drains limit (n + 1) w w₂

/-- After `n` drains the oldest `n * limit` rows are settled, and only the rows
behind them are still queued. -/
theorem drains_settle {limit : Int} (hlimit : 0 < limit) {n : Nat}
    (hregistered : engine.Registered w.db.retryQueue.rows) (h : engine.Drains limit n w w') :
    w'.db.retryQueue.rows = w.db.retryQueue.rows.drop (n * limit.toNat) ∧
      ∀ row ∈ w.db.retryQueue.rows.take (n * limit.toNat), engine.Settled row w' := by
  suffices SettlesAll engine (w.db.retryQueue.rows.take (n * limit.toNat))
      (w.db.retryQueue.rows.drop (n * limit.toNat)) w w' from ⟨this.rows, this.settled⟩
  induction h with
  | none w => exact ⟨by simp, by simp, .refl w⟩
  | @more n w w₁ w₂ r hfirst hrest ih =>
    obtain ⟨-, hdrained⟩ := (calm_processRetryQueue hlimit hregistered).of_runs hfirst
    have hlater := ih fun row hrow => hregistered row (List.drop_subset _ _ (hdrained.rows ▸ hrow))
    rw [hdrained.rows] at hlater
    have hsplit : (n + 1) * limit.toNat = limit.toNat + n * limit.toNat := by
      rw [Nat.add_mul, Nat.one_mul, Nat.add_comm]
    rw [hsplit]
    refine ⟨?_, fun row hrow => ?_, hdrained.grows.trans hlater.grows⟩
    · rw [hlater.rows, List.drop_drop]
    · rw [List.take_add, List.mem_append] at hrow
      rcases hrow with hrow | hrow
      · exact (hdrained.settled row hrow).grows hlater.grows
      · exact hlater.settled row hrow

/-! ## On groups -/

/-- `SyncEngine.allDue`, decided. -/
def SyncEngine.checkDue (engine : SyncEngine δ) (e : Call δ) (choice : Choice) (w : World δ) :
    Bool :=
  match e, choice with
  | .clock, .clock now =>
      w.db.retryQueue.rows.all fun row => row.val.nextAttemptAt ≤ engine.ext.isoformat now
  | _, _ => true

omit [DecidableEq δ] in
theorem SyncEngine.allDue_of_check (e : Call δ) (choice : Choice) (w : World δ)
    (h : engine.checkDue e choice w = true) : engine.allDue e choice w := by
  cases e with
  | clock =>
    cases choice with
    | clock now => exact fun row hrow => of_decide_eq_true (List.all_eq_true.mp h row hrow)
    | _ => trivial
  | _ => trivial

/-- Two drains of a single row each: one group is delivered, and a record that
is no group is dropped. -/
theorem drains_settle_groups :
    let engine := groupEngine 1 []
    ∃ w w' : World Dict, engine.Drains 1 2 w w' ∧ w.db.retryQueue.rows.length = 2 ∧
      w'.db.retryQueue.rows = [] ∧ ∀ row ∈ w.db.retryQueue.rows, engine.Settled row w' := by
  intro engine
  -- one record that is delivered, and one without a key
  let data (raw : Record) : RetryData := ⟨raw, 1, "0", none, "0"⟩
  let queue : AutoTable RetryKey RetryData :=
    (AutoTable.empty.upsert ⟨"group", "g-1", "create"⟩ (data assets.raw) id).upsert
      ⟨"group", "", "create"⟩ (data ∅) id
  let w : World Dict := { groupWorld (groupCompany [assets] 1) with
    db := { (DB.empty : DB Dict) with retryQueue := queue } }
  let delivery : List Choice := [.clock 0, .commit, .inMemory] ++
    [.commit, .serve "" [], .commit, .serve "GRP-1" [], .inMemory, .clock 0, .commit] ++ [.commit]
  let dropping : List Choice := [.clock 0, .commit, .commit]
  let drain := engine.processRetryQueue 1
  have hplay : ((play (engine.calmIf engine.checkDue) delivery drain w).bind fun a =>
      (play (engine.calmIf engine.checkDue) dropping drain a.2).map fun b => (a, b)).isSome =
        true := by
    decide +kernel
  obtain ⟨⟨a, b⟩, hruns⟩ := Option.isSome_iff_exists.mp hplay
  obtain ⟨a', hfirst, hruns⟩ := Option.bind_eq_some_iff.mp hruns
  obtain ⟨b', hsecond, hruns⟩ := Option.map_eq_some_iff.mp hruns
  cases hruns
  have hruns : ∀ {cs} {w : World Dict} {x : Except Exn Nat × World Dict},
      play (engine.calmIf engine.checkDue) cs drain w = some x →
        drain.Runs (engine.calm engine.allDue) w x.1 x.2 :=
    fun h => runs_of_play (engine.calm_of_calmIf engine.allDue_of_check) h
  -- two drains of one row each
  have hdrains : engine.Drains 1 2 w b.2 :=
    .more (hruns hfirst) (.more (hruns hsecond) (.none _))
  have hregistered : engine.Registered w.db.retryQueue.rows := by
    intro row hrow
    refine ⟨group, List.mem_cons_self, ?_⟩
    have hall : ∀ row ∈ w.db.retryQueue.rows, row.key.entityName = "group" := by decide
    exact (hall row hrow).symm
  obtain ⟨hrows, hsettled⟩ := drains_settle (by decide) hregistered hdrains
  exact ⟨w, b.2, hdrains, by decide, hrows, hsettled⟩

end TallyConnector
