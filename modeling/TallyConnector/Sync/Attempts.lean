import TallyConnector.Sync.Footprint
import TallyConnector.Sync.Runs
import TallyConnector.World.Environment

/-! # Attempts at queued records

The drain of the retry queue, row by row: an attempt is the push of the row's
record together with what came of it. Pushes neither read nor write the
queue, so the attempts of a drain are determined without it, and the queue
afterwards is determined by them.
-/

namespace TallyConnector

open Effects Tables

variable {δ σ : Type} (engine : SyncEngine δ) (env : Environment δ σ)

/-- Statements on the retry queue. -/
def Stmt.OnQueue : Stmt δ → Prop
  | .selectDue _ _ => True
  | .deleteRetry _ => True
  | .failRetry _ _ _ => True
  | _ => False

/-- What happened to one due row. -/
structure Attempt where
  row : RetryRow
  /-- How its push ended; nothing was pushed for an entity without mapping. -/
  outcome : Option (Except Exn Unit)
  /-- The clock after a failed push. -/
  now : Int

namespace Attempt

/-- The exception of a push that may succeed another time. -/
def retryable (attempt : Attempt) : Option Exn :=
  match attempt.outcome with
  | some (.error exc) => if exc.isPermanent then none else some exc
  | _ => none

def succeeded (attempt : Attempt) : Bool :=
  match attempt.outcome with
  | some (.ok _) => true
  | _ => false

/-- The row afterwards, or `none` if it is deleted. -/
def fate (ext : External δ) (base : ℚ) (attempt : Attempt) : Option RetryRow :=
  attempt.retryable.map fun exc => { attempt.row with
    val := { attempt.row.val with
      attemptCount := attempt.row.val.attemptCount + 1
      lastError := some exc.message
      nextAttemptAt := ext.isoformat (attempt.now +
        roundHalfEven (backoff base attempt.row.val.attemptCount * 1000000)) } }

end Attempt

namespace SyncEngine

variable [DecidableEq δ]

/-- The push of a queued record: `attemptItem` up to the deletion of the row. -/
def pushStored (spec : EntitySpec) (me : MappingEntry) (item : RetryRow) : Py δ Unit := do
  let model ← Prog.ofExcept (toModel item.val.payloadJson spec)
  let _ ← resultOp (.new spec.name)
  engine.pushRecord spec me model

/-- The attempt at a row: its push, if its entity is mapped. -/
def attempt (row : RetryRow) (w : Local δ σ) : Attempt × Local δ σ :=
  match engine.registry.getEntity row.key.entityName with
  | .error _ => (⟨row, none, 0⟩, w)
  | .ok spec =>
      match engine.mapping.entry spec.name with
      | none => (⟨row, none, 0⟩, w)
      | some me =>
          let (outcome, w) := env.run (engine.pushStored spec me row) w
          match outcome with
          | .ok _ => (⟨row, some outcome, 0⟩, w)
          | .error exc =>
              if exc.isPermanent then (⟨row, some outcome, 0⟩, w)
              else
                let (now, w) := env.answer .clock w
                (⟨row, some outcome, now⟩, w)

/-- The attempts at some rows, one after the other. -/
def attempts : List RetryRow → Local δ σ → List Attempt × Local δ σ
  | [], w => ([], w)
  | row :: rows, w =>
      let (attempt, w) := engine.attempt env row w
      let (rest, w) := attempts rows w
      (attempt :: rest, w)

end SyncEngine

/-! ## The queue during a drain -/

/-- Another retry queue in the same place. -/
def Local.withQueue (w : Local δ σ) (queue : AutoTable RetryKey RetryData) : Local δ σ :=
  { w with db := { w.db with retryQueue := queue } }

section frame

variable {baseUrl : String} {α : Type} (queue : AutoTable RetryKey RetryData)

/-- The calls of a push do not depend on the queue and do not change it. -/
theorem answer_withQueue {e : Call δ} (he : e.IsPush baseUrl) (w : Local δ σ) :
    env.answer e (w.withQueue queue) =
      ((env.answer e w).1, (env.answer e w).2.withQueue queue) := by
  cases e with
  | tally request => exact he.elim
  | sql stmt =>
      cases stmt with
      | selectCache key =>
          simp only [Environment.answer, Local.withQueue, DB.exec]
          cases env.sqlError (.selectCache key) w.state <;> rfl
      | upsertCache key name doctype hash at' =>
          simp only [Environment.answer, Local.withQueue, DB.exec]
          cases env.sqlError (.upsertCache key name doctype hash at') w.state with
          | some exc => rfl
          | none => cases bindTextNotNull "sync_cache.frappe_name" name <;> rfl
      | _ => exact he.elim
  | _ => rfl

theorem run_withQueue {p : Py δ α} (hp : p.All (Call.IsPush baseUrl)) (w : Local δ σ) :
    env.run p (w.withQueue queue) = ((env.run p w).1, (env.run p w).2.withQueue queue) := by
  have hstep : ∀ (e : Call δ) (w w' : Local δ σ), e.IsPush baseUrl → w' = w.withQueue queue →
      (env.answer e w).1 = (env.answer e w').1 ∧
        (env.answer e w').2 = (env.answer e w).2.withQueue queue := by
    intro e w w' he hw
    rw [hw, answer_withQueue env queue he]
    exact ⟨rfl, rfl⟩
  have hrel := Prog.run_rel (h := env.answer) hstep hp (w := w) rfl
  exact Prod.ext hrel.1.symm hrel.2

/-- A push leaves the queue as it is. -/
theorem run_queue {p : Py δ α} (hp : p.All (Call.IsPush baseUrl)) (w : Local δ σ) :
    (env.run p w).2.db.retryQueue = w.db.retryQueue := by
  have hsame := run_withQueue env w.db.retryQueue hp w
  exact congrArg (fun r => r.2.db.retryQueue) hsame

variable [DecidableEq δ]

theorem all_pushStored (spec : EntitySpec) (me : MappingEntry) (row : RetryRow) :
    (engine.pushStored spec me row).All (Call.IsPush engine.frappe.baseUrl) := by
  refine (Prog.all_ofExcept _).bind fun model => ?_
  exact ((all_resultOp _).mpr trivial).bind fun _ => engine.all_pushRecord spec me model

theorem attempt_withQueue (row : RetryRow) (w : Local δ σ) :
    engine.attempt env row (w.withQueue queue) =
      ((engine.attempt env row w).1, (engine.attempt env row w).2.withQueue queue) := by
  unfold SyncEngine.attempt
  split
  · rfl
  · next spec _ =>
    split
    · rfl
    · next me _ =>
      rw [run_withQueue env queue (all_pushStored engine spec me row)]
      simp only
      split
      · rfl
      · split
        · rfl
        · rfl

theorem attempts_withQueue (rows : List RetryRow) (w : Local δ σ) :
    engine.attempts env rows (w.withQueue queue) =
      ((engine.attempts env rows w).1, (engine.attempts env rows w).2.withQueue queue) := by
  induction rows generalizing w with
  | nil => rfl
  | cons row rows ih =>
      unfold SyncEngine.attempts
      simp only [attempt_withQueue, ih]

theorem attempt_row (row : RetryRow) (w : Local δ σ) : (engine.attempt env row w).1.row = row := by
  unfold SyncEngine.attempt
  split
  · rfl
  · split
    · rfl
    · simp only
      split
      · rfl
      · split
        · rfl
        · rfl

theorem attempts_rows (rows : List RetryRow) (w : Local δ σ) :
    (engine.attempts env rows w).1.map (·.row) = rows := by
  induction rows generalizing w with
  | nil => rfl
  | cons row rows ih =>
      unfold SyncEngine.attempts
      simp only [List.map_cons, attempt_row, ih]

theorem attempt_queue (row : RetryRow) (w : Local δ σ) :
    (engine.attempt env row w).2.db.retryQueue = w.db.retryQueue := by
  have hsame := attempt_withQueue engine env w.db.retryQueue row w
  exact congrArg (fun r => r.2.db.retryQueue) hsame

end frame

/-! ## One row -/

/-- What the drain does to the queue after an attempt. -/
def Attempt.settle (ext : External δ) (base : ℚ) (attempt : Attempt)
    (queue : AutoTable RetryKey RetryData) : AutoTable RetryKey RetryData :=
  match attempt.retryable with
  | some exc => queue.update attempt.row.id fun old => { old with
      attemptCount := old.attemptCount + 1
      lastError := some exc.message
      nextAttemptAt := ext.isoformat (attempt.now +
        roundHalfEven (backoff base attempt.row.val.attemptCount * 1000000)) }
  | none => queue.delete attempt.row.id

/-- The backoff of the row leaves the range of a float. -/
def Attempt.Overflows (attempt : Attempt) : Prop :=
  attempt.retryable.isSome ∧ 1024 ≤ attempt.row.val.attemptCount

section drain

variable {engine env} {row : RetryRow} {w : Local δ σ}

variable (hsql : ∀ stmt s, Stmt.OnQueue stmt → env.sqlError stmt s = none)

include hsql in
theorem run_settled (id : Nat) (w : Local δ σ) :
    env.run (engine.store.markRetrySuccess id) w =
      (.ok (), w.withQueue (w.db.retryQueue.delete id)) := by
  refine (run_markRetrySuccess ..).trans ?_
  exact Environment.answer_sql (hsql _ _ trivial) rfl

include hsql in
theorem run_rescheduled (id : Nat) (error nextAttemptAt : String) (w : Local δ σ) :
    env.run (engine.store.markRetryFailed id error nextAttemptAt) w =
      (.ok (), w.withQueue (w.db.retryQueue.update id fun old => { old with
        attemptCount := old.attemptCount + 1
        lastError := some error
        nextAttemptAt := nextAttemptAt })) := by
  refine (run_markRetryFailed ..).trans ?_
  exact Environment.answer_sql (hsql _ _ trivial) rfl

/-- The backoff of a row that has not failed too often. -/
theorem run_nextAttempt (hbase : 0 < engine.settings.retryBackoffBaseSeconds) {n : Nat}
    (hn : n < 1024) (w : Local δ σ) :
    env.run (engine.nextAttempt n) w =
      (.ok (engine.ext.isoformat ((env.clock w.state).1 +
        roundHalfEven (backoff engine.settings.retryBackoffBaseSeconds n * 1000000))),
        (env.answer .clock w).2) := by
  have hpos : 0 ≤ backoff engine.settings.retryBackoffBaseSeconds n := by
    unfold backoff
    positivity
  have hdelay := timedelta_ok hpos (min_le_right _ _)
  simp [Environment.run, SyncEngine.nextAttempt, Prog.run_bind, backoffSeconds_of_lt hn, hdelay,
    Environment.answer]

variable (engine env) in
/-- From the 1024th failure on there is no next attempt. -/
theorem run_nextAttempt_overflow {n : Nat} (hn : 1024 ≤ n) (w : Local δ σ) :
    ∃ exc, env.run (engine.nextAttempt n) w = (.error exc, w) := by
  unfold SyncEngine.nextAttempt
  rw [backoffSeconds_of_le hn]
  exact ⟨_, rfl⟩

variable [DecidableEq δ]

/-- The push of a row, inside the `try`. -/
theorem attemptItem_eq (spec : EntitySpec) (me : MappingEntry) :
    engine.attemptItem spec me row =
      (do
        engine.pushStored spec me row
        engine.store.markRetrySuccess row.id
        pure true) := by
  unfold SyncEngine.attemptItem SyncEngine.pushStored
  cases toModel row.val.payloadJson spec <;> rfl

variable (engine row) in
include hsql in
theorem run_attemptItem (spec : EntitySpec) (me : MappingEntry) (w : Local δ σ) :
    env.run (engine.attemptItem spec me row) w =
      match env.run (engine.pushStored spec me row) w with
      | (.ok _, w) => (.ok true, w.withQueue (w.db.retryQueue.delete row.id))
      | (.error exc, w) => (.error exc, w) := by
  rw [attemptItem_eq, Environment.run, Prog.run_bind, ← Environment.run]
  rcases env.run (engine.pushStored spec me row) w with ⟨exc | _, w'⟩
  · rfl
  · exact Prog.run_bind_ok _ (run_settled hsql row.id w')

variable (env) in
/-- How an attempt goes. -/
theorem attempt_cases {spec : EntitySpec}
    (hspec : engine.registry.getEntity row.key.entityName = .ok spec) (w : Local δ σ) :
    (engine.mapping.entry spec.name = none ∧ engine.attempt env row w = (⟨row, none, 0⟩, w)) ∨
    ∃ me, engine.mapping.entry spec.name = some me ∧
      ((∃ w', env.run (engine.pushStored spec me row) w = (.ok (), w') ∧
        engine.attempt env row w = (⟨row, some (.ok ()), 0⟩, w')) ∨
      ∃ exc w', env.run (engine.pushStored spec me row) w = (.error exc, w') ∧
        ((exc.isPermanent = true ∧
            engine.attempt env row w = (⟨row, some (.error exc), 0⟩, w')) ∨
          (exc.isPermanent = false ∧
            engine.attempt env row w =
              (⟨row, some (.error exc), (env.clock w'.state).1⟩, (env.answer .clock w').2)))) := by
  simp only [SyncEngine.attempt, hspec]
  cases hme : engine.mapping.entry spec.name with
  | none => exact .inl ⟨rfl, rfl⟩
  | some me =>
      refine .inr ⟨me, rfl, ?_⟩
      dsimp only
      -- the clock is read for the next attempt only
      rcases hpush : env.run (engine.pushStored spec me row) w with ⟨exc | _, w'⟩
      · refine .inr ⟨exc, w', rfl, ?_⟩
        cases hpermanent : exc.isPermanent with
        | true => exact .inl ⟨rfl, by simp [hpermanent]⟩
        | false => exact .inr ⟨rfl, by simp [hpermanent, Environment.answer]⟩
      · exact .inl ⟨w', rfl, rfl⟩

include hsql in
/-- A round of the drain, unless the backoff overflows. -/
theorem run_drainItem (hbase : 0 < engine.settings.retryBackoffBaseSeconds)
    (hname : ∃ spec, engine.registry.getEntity row.key.entityName = .ok spec)
    (hcount : ¬ (engine.attempt env row w).1.Overflows) :
    env.run (engine.drainItem row) w =
      (.ok (engine.attempt env row w).1.succeeded,
        (engine.attempt env row w).2.withQueue
          ((engine.attempt env row w).1.settle engine.ext
            engine.settings.retryBackoffBaseSeconds w.db.retryQueue)) := by
  obtain ⟨spec, hspec⟩ := hname
  have hqueue := attempt_queue engine env row w
  have hitem : engine.drainItem row =
      match engine.mapping.entry spec.name with
      | none => (do
          engine.store.markRetrySuccess row.id
          pure false)
      | some me => tryCatch (engine.attemptItem spec me row) (engine.attemptFailed row) := by
    unfold SyncEngine.drainItem
    rw [hspec]
    rfl
  rw [← hqueue]
  rcases attempt_cases env hspec w with
    ⟨hme, hattempt⟩ | ⟨me, hme, ⟨w', hpush, hattempt⟩ | ⟨exc, w', hpush, hfailed⟩⟩
  · -- an entity without mapping
    rw [hitem, hme, hattempt]
    exact Prog.run_bind_ok _ (run_settled hsql row.id w)
  · -- the push succeeds
    have hrun := run_attemptItem engine row hsql spec me w
    rw [hpush] at hrun
    rw [hitem, hme, hattempt]
    exact Prog.run_tryCatch_ok _ hrun
  · have hrun := run_attemptItem engine row hsql spec me w
    rw [hpush] at hrun
    rw [hitem, hme]
    refine (Prog.run_tryCatch_error _ hrun).trans ?_
    rcases hfailed with ⟨hpermanent, hattempt⟩ | ⟨hretryable, hattempt⟩
    · -- it can never succeed
      rw [hattempt]
      simp only [SyncEngine.attemptFailed, hpermanent, if_true, Attempt.settle,
        Attempt.retryable, Attempt.succeeded]
      exact Prog.run_bind_ok _ (run_settled hsql row.id w')
    · -- it is put off
      rw [hattempt] at hcount ⊢
      simp only [Attempt.Overflows, Attempt.retryable, hretryable, Bool.false_eq_true, if_false,
        Option.isSome_some, true_and, Nat.not_le] at hcount
      simp only [SyncEngine.attemptFailed, hretryable, Bool.false_eq_true, if_false,
        Attempt.settle, Attempt.retryable, Attempt.succeeded]
      refine (Prog.run_bind_ok _ (run_nextAttempt hbase hcount w')).trans ?_
      exact Prog.run_bind_ok _ (run_rescheduled hsql ..)

include hsql in
/-- A backoff that overflows aborts the drain: the exception is raised in the
`except` clause. -/
theorem run_drainItem_overflow
    (hname : ∃ spec, engine.registry.getEntity row.key.entityName = .ok spec)
    (hcount : (engine.attempt env row w).1.Overflows) :
    ∃ exc w', env.run (engine.drainItem row) w = (.error exc, w') := by
  obtain ⟨spec, hspec⟩ := hname
  rcases attempt_cases env hspec w with
    ⟨-, hattempt⟩ | ⟨me, hme, ⟨w', -, hattempt⟩ | ⟨exc, w', hpush, hfailed⟩⟩
  · -- nothing to retry: no power is computed
    rw [hattempt] at hcount
    exact absurd hcount.1 (by simp [Attempt.retryable])
  · rw [hattempt] at hcount
    exact absurd hcount.1 (by simp [Attempt.retryable])
  · rcases hfailed with ⟨hpermanent, hattempt⟩ | ⟨hretryable, hattempt⟩
    · rw [hattempt] at hcount
      exact absurd hcount.1 (by simp [Attempt.retryable, hpermanent])
    · rw [hattempt] at hcount
      have hrun := run_attemptItem engine row hsql spec me w
      rw [hpush] at hrun
      -- the power overflows inside of the except clause, and leaves the drain
      obtain ⟨exc', hover⟩ := run_nextAttempt_overflow engine env hcount.2 w'
      refine ⟨exc', w', ?_⟩
      unfold SyncEngine.drainItem
      rw [hspec]
      simp only [Prog.ofExcept_ok, Prog.ret_bind, hme]
      refine (Prog.run_tryCatch_error _ hrun).trans ?_
      simp only [SyncEngine.attemptFailed, hretryable, Bool.false_eq_true, if_false]
      exact Prog.run_bind_error _ hover

/-- The queue after the attempts. -/
def settleAll (ext : External δ) (base : ℚ) (attempts : List Attempt)
    (queue : AutoTable RetryKey RetryData) : AutoTable RetryKey RetryData :=
  attempts.foldl (fun queue attempt => attempt.settle ext base queue) queue

variable {rows : List RetryRow} (succeeded : Nat)

include hsql in
/-- The loop of the drain, unless a backoff overflows. -/
theorem run_drainItems (hbase : 0 < engine.settings.retryBackoffBaseSeconds)
    (hnames : ∀ row ∈ rows, ∃ spec, engine.registry.getEntity row.key.entityName = .ok spec)
    (hcount : ∀ attempt ∈ (engine.attempts env rows w).1, ¬ attempt.Overflows) :
    env.run (engine.drainItems rows succeeded) w =
      (.ok (succeeded + (engine.attempts env rows w).1.countP Attempt.succeeded),
        (engine.attempts env rows w).2.withQueue
          (settleAll engine.ext engine.settings.retryBackoffBaseSeconds
            (engine.attempts env rows w).1 w.db.retryQueue)) := by
  induction rows generalizing succeeded w with
  | nil => rfl
  | cons row rows ih =>
      have hattempts : engine.attempts env (row :: rows) w =
          ((engine.attempt env row w).1 ::
            (engine.attempts env rows (engine.attempt env row w).2).1,
            (engine.attempts env rows (engine.attempt env row w).2).2) := rfl
      rw [hattempts] at hcount ⊢
      have hitem := run_drainItem hsql hbase (hnames row List.mem_cons_self)
        (hcount _ List.mem_cons_self)
      refine (Prog.run_bind_ok _ hitem).trans ?_
      -- the rest does not see the new queue
      have hrest := attempts_withQueue engine env
        ((engine.attempt env row w).1.settle engine.ext
          engine.settings.retryBackoffBaseSeconds w.db.retryQueue) rows
        (engine.attempt env row w).2
      refine (ih _ (fun row hrow => hnames row (List.mem_cons_of_mem _ hrow)) ?_).trans ?_
      · rw [hrest]
        exact fun attempt hmem => hcount attempt (List.mem_cons_of_mem _ hmem)
      · rw [hrest, List.countP_cons]
        refine Prod.ext (congrArg Except.ok ?_) rfl
        cases (engine.attempt env row w).1.succeeded
        · simp
        · simp only [if_true]
          omega

include hsql in
/-- A backoff that overflows aborts the loop. -/
theorem run_drainItems_overflow (hbase : 0 < engine.settings.retryBackoffBaseSeconds)
    (hnames : ∀ row ∈ rows, ∃ spec, engine.registry.getEntity row.key.entityName = .ok spec)
    (hcount : ∃ attempt ∈ (engine.attempts env rows w).1, attempt.Overflows) :
    ∃ exc w', env.run (engine.drainItems rows succeeded) w = (.error exc, w') := by
  induction rows generalizing succeeded w with
  | nil =>
      obtain ⟨attempt, hmem, -⟩ := hcount
      exact absurd hmem List.not_mem_nil
  | cons row rows ih =>
      by_cases hover : (engine.attempt env row w).1.Overflows
      · obtain ⟨exc, w', hitem⟩ :=
          run_drainItem_overflow hsql (hnames row List.mem_cons_self) hover
        exact ⟨exc, w', Prog.run_bind_error _ hitem⟩
      · have hitem := run_drainItem hsql hbase (hnames row List.mem_cons_self) hover
        have hrest := attempts_withQueue engine env
          ((engine.attempt env row w).1.settle engine.ext
            engine.settings.retryBackoffBaseSeconds w.db.retryQueue) rows
          (engine.attempt env row w).2
        obtain ⟨exc, w', hrun⟩ := ih
          (if (engine.attempt env row w).1.succeeded = true then succeeded + 1 else succeeded)
          (fun row hrow => hnames row (List.mem_cons_of_mem _ hrow)) (by
            rw [hrest]
            obtain ⟨attempt, hmem, hattempt⟩ := hcount
            rcases List.mem_cons.mp hmem with rfl | hmem
            · exact absurd hattempt hover
            · exact ⟨attempt, hmem, hattempt⟩)
        exact ⟨exc, w', (Prog.run_bind_ok _ hitem).trans hrun⟩

end drain

end TallyConnector
