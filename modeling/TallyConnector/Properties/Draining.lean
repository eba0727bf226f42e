import TallyConnector.Sync.Attempts
import TallyConnector.World.Groups

/-! # The drain is fault-isolated

A drain handles its due rows one by one, whatever comes of their pushes, with
one exception: the backoff is computed in the `except` clause, and from the
1024th failure on its power of two is too large to become a float. Such a row
aborts the drain, and so does a limit that SQLite does not take.
-/

namespace TallyConnector

open Effects Tables

variable {δ σ : Type} (engine : SyncEngine δ) (env : Environment δ σ)

/-! ## The rows afterwards -/

section rows

variable {ext : External δ} {base : ℚ} {attempt : Attempt} {attempts : List Attempt}
variable {queue : AutoTable RetryKey RetryData}

/-- What became of a row. -/
def fateOf (ext : External δ) (base : ℚ) (attempts : List Attempt) (row : RetryRow) :
    Option RetryRow :=
  match attempts.find? fun attempt => attempt.row.id == row.id with
  | some attempt => attempt.fate ext base
  | none => some row

theorem rows_settle (hmem : attempt.row ∈ queue.rows) :
    (attempt.settle ext base queue).rows =
      queue.rows.filterMap fun row =>
        if row.id = attempt.row.id then attempt.fate ext base else some row := by
  unfold Attempt.settle Attempt.fate
  cases attempt.retryable with
  | none =>
      simp only [AutoTable.delete, ← List.filterMap_eq_filter]
      refine List.filterMap_congr fun row _ => ?_
      by_cases hid : row.id = attempt.row.id <;> simp [hid]
  | some exc =>
      simp only [AutoTable.update, AutoTable.mapVal, ← List.filterMap_eq_map]
      refine List.filterMap_congr fun row hrow => ?_
      by_cases hid : row.id = attempt.row.id
      · simp [queue.eq_of_id hrow hmem hid]
      · simp [hid]

/-- A row of another id stays. -/
theorem mem_settle {row : RetryRow} (hrow : row ∈ queue.rows) (hne : row.id ≠ attempt.row.id) :
    row ∈ (attempt.settle ext base queue).rows := by
  unfold Attempt.settle
  split
  · exact AutoTable.mem_update.mpr ⟨row, hrow, by rw [if_neg hne]⟩
  · exact AutoTable.mem_delete.mpr ⟨hrow, hne⟩

theorem fateOf_of_notMem {row : RetryRow} (h : row.id ∉ attempts.map (·.row.id)) :
    fateOf ext base attempts row = some row := by
  have hfind : attempts.find? (fun attempt => attempt.row.id == row.id) = none := by
    refine List.find?_eq_none.mpr fun attempt hmem heq => h ?_
    exact List.mem_map.mpr ⟨attempt, hmem, by simpa using heq⟩
  simp only [fateOf, hfind]

theorem id_of_fate {row : RetryRow} (h : attempt.fate ext base = some row) :
    row.id = attempt.row.id := by
  obtain ⟨exc, -, rfl⟩ := Option.map_eq_some_iff.mp h
  rfl

theorem rows_settleAll (hmem : ∀ attempt ∈ attempts, attempt.row ∈ queue.rows)
    (hids : (attempts.map (·.row.id)).Nodup) :
    (settleAll ext base attempts queue).rows = queue.rows.filterMap (fateOf ext base attempts) := by
  induction attempts generalizing queue with
  | nil =>
      have hall : fateOf ext base [] = some := funext fun row => fateOf_of_notMem (by simp)
      rw [hall, List.filterMap_some]
      rfl
  | cons attempt attempts ih =>
      rw [List.map_cons, List.nodup_cons] at hids
      have hrest : ∀ attempt' ∈ attempts, attempt'.row ∈ (attempt.settle ext base queue).rows := by
        intro attempt' hmem'
        refine mem_settle (hmem attempt' (List.mem_cons_of_mem _ hmem')) fun hid => hids.1 ?_
        exact List.mem_map.mpr ⟨attempt', hmem', hid⟩
      calc (settleAll ext base (attempt :: attempts) queue).rows
          = (attempt.settle ext base queue).rows.filterMap (fateOf ext base attempts) :=
            ih hrest hids.2
        _ = queue.rows.filterMap (fateOf ext base (attempt :: attempts)) := by
            rw [rows_settle (hmem attempt List.mem_cons_self), List.filterMap_filterMap]
            refine List.filterMap_congr fun row _ => ?_
            by_cases hid : row.id = attempt.row.id
            · -- the row of this attempt, which no later one is about
              simp only [hid, if_true, fateOf, List.find?_cons, BEq.rfl]
              cases hfate : attempt.fate ext base with
              | none => rfl
              | some row' =>
                  have hnot : row'.id ∉ attempts.map (·.row.id) := by
                    rw [id_of_fate hfate]
                    exact hids.1
                  exact fateOf_of_notMem hnot
            · simp [hid, fateOf, Ne.symm hid]

end rows

/-! ## The drain is fault-isolated -/

section drain

variable [DecidableEq δ]

namespace SyncEngine

omit [DecidableEq δ] in
/-- The rows a drain handles. -/
def due (limit : Int) (w : Local δ σ) : List RetryRow :=
  dueRows w.db.retryQueue (engine.ext.isoformat (env.clock w.state).1) limit

/-- The attempts of a drain. -/
def drainAttempts (limit : Int) (w : Local δ σ) : List Attempt × Local δ σ :=
  engine.attempts env (engine.due env limit w) (env.answer .clock w).2

/-- The drain returns, having handled each due row up to the limit once, in
the order of the ids, and nothing else. -/
structure DrainsIsolated (limit : Int) (w : Local δ σ) : Prop where
  returns : (env.run (engine.processRetryQueue limit) w).1 =
    .ok ((engine.drainAttempts env limit w).1.countP Attempt.succeeded)
  once : (engine.drainAttempts env limit w).1.map (·.row) = engine.due env limit w
  ordered : (engine.due env limit w).Pairwise fun row row' => row.id < row'.id
  pushes : (env.run (engine.processRetryQueue limit) w).2.reports =
    (engine.drainAttempts env limit w).2.reports
  rows : (env.run (engine.processRetryQueue limit) w).2.db.retryQueue.rows =
    w.db.retryQueue.rows.filterMap (fateOf engine.ext engine.settings.retryBackoffBaseSeconds
      (engine.drainAttempts env limit w).1)

end SyncEngine

variable {engine env} {w : Local δ σ} {limit : Int}

omit [DecidableEq δ] in
theorem due_sublist : (engine.due env limit w).Sublist w.db.retryQueue.rows :=
  dueRows_sublist _ _ _

variable (engine) in
theorem run_processRetryQueue (hsql : ∀ stmt s, Stmt.OnQueue stmt → env.sqlError stmt s = none)
    (hlimit : fitsInt64 limit = true) (w : Local δ σ) :
    env.run (engine.processRetryQueue limit) w =
      env.run (engine.drainItems (engine.due env limit w) 0) (env.answer .clock w).2 := by
  refine Prog.run_bind_ok _ ((run_dequeueDueRetries ..).trans ?_)
  refine Environment.answer_sql (hsql _ _ trivial) ?_
  simp only [DB.exec, hlimit, if_true]
  rfl

theorem run_processRetryQueue_limit
    (hsql : ∀ stmt s, Stmt.OnQueue stmt → env.sqlError stmt s = none)
    (hlimit : fitsInt64 limit = false) :
    (env.run (engine.processRetryQueue limit) w).1 = .error intOverflow := by
  have hselect : env.run (engine.store.dequeueDueRetries limit) w =
      (.error intOverflow, (env.answer .clock w).2) := by
    have hnone := hsql (.selectDue (engine.store.ext.isoformat (env.clock w.state).1) limit)
      (env.clock w.state).2 trivial
    refine (run_dequeueDueRetries ..).trans ?_
    simp only [Environment.answer, hnone, DB.exec, hlimit]
    rfl
  exact congrArg Prod.fst (Prog.run_bind_error _ hselect)

/-- The drain is fault-isolated exactly when SQLite takes the limit and no row
whose push fails again has failed 1024 times before. -/
theorem drain_isolated (hbase : 0 < engine.settings.retryBackoffBaseSeconds)
    (hsql : ∀ stmt s, Stmt.OnQueue stmt → env.sqlError stmt s = none)
    (hnames : ∀ row ∈ w.db.retryQueue.rows,
      ∃ spec ∈ engine.registry.specs, spec.name = row.key.entityName) (limit : Int) :
    engine.DrainsIsolated env limit w ↔
      fitsInt64 limit = true ∧
        ∀ attempt ∈ (engine.drainAttempts env limit w).1,
          attempt.retryable.isSome → attempt.row.val.attemptCount < 1024 := by
  have hspecs : ∀ row ∈ engine.due env limit w,
      ∃ spec, engine.registry.getEntity row.key.entityName = .ok spec := by
    intro row hrow
    obtain ⟨spec, hspec, hname⟩ := hnames row (due_sublist.subset hrow)
    exact ⟨spec, hname ▸ engine.registry.getEntity_self hspec⟩
  have hrows : (engine.drainAttempts env limit w).1.map (·.row) = engine.due env limit w :=
    attempts_rows engine env _ _
  have hsub : (engine.due env limit w).Sublist w.db.retryQueue.rows := due_sublist
  constructor
  · -- an exception leaves the loop
    intro hisolated
    have hreturns := hisolated.returns
    cases hlimit : fitsInt64 limit with
    | false =>
        rw [run_processRetryQueue_limit hsql hlimit] at hreturns
        cases hreturns
    | true =>
        refine ⟨rfl, fun attempt hmem hretryable => ?_⟩
        by_contra hcount
        obtain ⟨exc, w', hover⟩ := run_drainItems_overflow hsql 0 hbase hspecs
          ⟨attempt, hmem, hretryable, Nat.not_lt.mp hcount⟩
        rw [run_processRetryQueue engine hsql hlimit, hover] at hreturns
        cases hreturns
  · rintro ⟨hlimit, hcount⟩
    have hrun := run_processRetryQueue engine hsql hlimit w
    rw [run_drainItems hsql 0 hbase hspecs fun attempt hmem hover =>
      absurd (hcount attempt hmem hover.1) (Nat.not_lt.mpr hover.2)] at hrun
    have hids : ((engine.drainAttempts env limit w).1.map (·.row.id)).Nodup := by
      have hnodup := w.db.retryQueue.nodup_ids.sublist (hsub.map (·.id))
      rwa [← hrows, List.map_map] at hnodup
    have hmem : ∀ attempt ∈ (engine.drainAttempts env limit w).1,
        attempt.row ∈ w.db.retryQueue.rows := by
      intro attempt hmem
      have hrow : attempt.row ∈ engine.due env limit w :=
        hrows ▸ List.mem_map_of_mem hmem
      exact hsub.subset hrow
    refine ⟨?_, hrows, w.db.retryQueue.sorted.sublist hsub, ?_, ?_⟩
    · rw [hrun, Nat.zero_add]
      rfl
    · rw [hrun]
      rfl
    · rw [hrun]
      exact rows_settleAll hmem hids

end drain

/-! ## On groups -/

/-- Frappe answers no request; the clock stands still. -/
def refusing : Environment Dict Unit where
  clock _ := (0, ())
  tally _ _ := (.timeout, ())
  frappe _ _ := (.timeout "Read timed out.", ())
  sqlError _ _ := none

/-- The database after some failed pushes of one fetched record. -/
def SyncEngine.failPushes (spec : EntitySpec) (record : Record) (exc : Exn) :
    Nat → Local δ σ → Local δ σ
  | 0, w => w
  | n + 1, w => (env.run (engine.pushFailed spec record exc) (failPushes spec record exc n w)).2

/-- The exception of a request that timed out. -/
def timedOut : Exn :=
  ⟨.frappeAPIError, "Frappe request failed after retries: Read timed out."⟩

/-- A queue with one group whose push failed `n` times after it was queued. -/
def queuedGroup (n : Nat) : Local Dict Unit where
  state := ()
  db := { (DB.empty : DB Dict) with
    retryQueue := {
      rows := [⟨1, ⟨"group", "g-1", "create"⟩,
        ⟨assets.raw, n, "0", some timedOut.message, "0"⟩⟩]
      nextId := 2
      sorted := List.pairwise_singleton ..
      fresh := List.forall_mem_singleton.mpr (Nat.lt_succ_self 1)
      unique := List.pairwise_singleton .. } }

/-- Another failed push counts up. -/
theorem db_pushFailed {n : Nat} {w : Local Dict Unit} (hw : w.db = (queuedGroup n).db) :
    (refusing.run ((groupEngine 1 []).pushFailed group assets.raw timedOut) w).2.db =
      (queuedGroup (n + 1)).db := by
  obtain ⟨side, db⟩ := w
  subst hw
  rfl

theorem db_failPushes (n : Nat) :
    ((groupEngine 1 []).failPushes refusing group assets.raw timedOut (n + 1)
      { state := (), db := .empty }).db = (queuedGroup n).db := by
  induction n with
  | zero => rfl
  | succ n ih => exact db_pushFailed ih

/-- Frappe answers no request about the first group, and creates other ones. -/
def refusingAssets : Environment Dict Unit :=
  { refusing with
    frappe := fun request _ =>
      match request with
      | .get _ _ filters _ =>
          if filters = [("tally_guid", .str "g-1")] then (.timeout "Read timed out.", ())
          else (okOutcome (foundBody []), ())
      | _ => (okOutcome (savedBody "GRP-2"), ()) }

/-- A queue with the mixed groups, the first of which failed three times. -/
def mixedQueue : Local Dict Unit where
  state := ()
  db :=
    let data (raw : Record) (attemptCount : Nat) : RetryData :=
      ⟨raw, attemptCount, "0", some timedOut.message, "0"⟩
    { (DB.empty : DB Dict) with
      retryQueue := ((AutoTable.empty.upsert ⟨"group", "g-1", "create"⟩ (data assets.raw 3) id).upsert
        ⟨"group", "", "create"⟩ (data nameless.parsed 0) id).upsert
        ⟨"group", "g-2", "create"⟩ (data liabilities.raw 0) id }

/-- The push of the first group fails again, the record without a GUID is
dropped, and the last group is pushed. -/
theorem drain_isolated_groups :
    let engine := groupEngine 1 []
    engine.DrainsIsolated refusingAssets 100 mixedQueue ∧
      (engine.drainAttempts refusingAssets 100 mixedQueue).1.map (fun attempt =>
        (attempt.row.id, attempt.retryable.isSome, attempt.succeeded)) =
        [(1, true, false), (2, false, false), (3, false, true)] := by
  intro engine
  have hattempts : (engine.drainAttempts refusingAssets 100 mixedQueue).1.map (fun attempt =>
      (attempt.row.id, attempt.retryable.isSome, attempt.succeeded)) =
      [(1, true, false), (2, false, false), (3, false, true)] := by
    decide +kernel
  refine ⟨?_, hattempts⟩
  exact (drain_isolated (by norm_num [engine, groupEngine]) (fun _ _ _ => rfl) (by decide) 100).mpr
    ⟨by decide, by decide +kernel⟩

/-- A group whose push failed 1025 times aborts the drain. -/
theorem drain_aborted_groups :
    let engine := groupEngine 1 []
    let failed := engine.failPushes refusing group assets.raw timedOut 1025
      { state := (), db := .empty }
    0 < engine.settings.retryBackoffBaseSeconds ∧
      ¬ engine.DrainsIsolated refusing 100 { state := (), db := failed.db } := by
  intro engine failed
  refine ⟨by norm_num [engine, groupEngine], ?_⟩
  rw [show failed.db = (queuedGroup 1024).db from db_failPushes 1024]
  intro hisolated
  have hraises :
      (refusing.run (engine.processRetryQueue 100) (queuedGroup 1024)).1.toOption = none := by
    decide +kernel
  have hreturns := hisolated.returns
  change (refusing.run (engine.processRetryQueue 100) (queuedGroup 1024)).1 = _ at hreturns
  rw [hreturns] at hraises
  cases hraises

end TallyConnector
