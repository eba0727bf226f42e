import TallyConnector.Python.DateTime
import TallyConnector.Sync.Runs
import TallyConnector.World.Environment
import TallyConnector.World.Groups

/-! # Due times

A row of the retry queue is due when the text in `next_attempt_at` is not
after the text of the clock. The two are written by `isoformat`, one maybe
with a fraction of a second and one without, and SQLite compares their bytes.
-/

namespace TallyConnector

open Effects Sorting Tables

/-! ## Texts and instants -/

/-- ASCII letters and their bytes have the same order. -/
theorem ascii_lt_iff {s t : String} (hs : ∀ c ∈ s.toList, c.toNat < 128)
    (ht : ∀ c ∈ t.toList, c.toNat < 128) : ascii s < ascii t ↔ s.toList < t.toList := by
  refine map_lt_map_iff ?_
  intro a ha b hb
  have hbyte : ∀ c : Char, c.toNat < 128 → c.toNat.toUInt8.toNat = c.toNat := by
    intro c hc
    rw [Nat.toUInt8_eq, UInt8.toNat_ofNat']
    omega
  have hbytea := hbyte a (hs a ha)
  have hbyteb := hbyte b (ht b hb)
  constructor
  · rw [UInt8.lt_iff_toNat_lt, hbytea, hbyteb]
    exact Iff.rfl
  · rw [← UInt8.toNat_inj, hbytea, hbyteb]
    exact Char.toNat_inj

namespace DateTime

theorem ascii_digits (width n : Nat) : ∀ c ∈ digits width n, c.toNat < 128 := by
  intro c h
  induction width generalizing n with
  | zero => cases h
  | succ width ih =>
    rcases List.mem_append.mp h with h | h
    · exact ih _ h
    · rw [List.mem_singleton.mp h]
      have hlt : n % 10 < 10 := Nat.mod_lt n (by decide)
      generalize n % 10 = digit at hlt
      interval_cases digit <;> decide

theorem ascii_isoformat (d : DateTime) : ∀ c ∈ d.isoformat.toList, c.toNat < 128 := by
  have hfraction : ∀ c ∈ d.fraction, c.toNat < 128 := by
    unfold CivilTime.fraction
    split
    · simp
    · simp only [List.forall_mem_cons, List.forall_mem_append]
      exact ⟨by decide, ascii_digits _ _, by simp⟩
  simp only [CivilTime.isoformat, CivilTime.dateText, CivilTime.timeText, String.toList_ofList,
    List.forall_mem_append, List.forall_mem_cons]
  exact ⟨⟨ascii_digits _ _, by decide, ascii_digits _ _, by decide, ascii_digits _ _⟩, by decide,
    ascii_digits _ _, by decide, ascii_digits _ _, by decide, ascii_digits _ _, hfraction⟩

/-- The texts are in the byte order of the instants. -/
theorem bytes_le_iff (a b : DateTime) :
    ascii a.isoformat ≤ ascii b.isoformat ↔ a.instant ≤ b.instant := by
  rw [← List.not_lt, ascii_lt_iff b.ascii_isoformat a.ascii_isoformat, b.isoformat_lt_iff a,
    not_lt]

theorem isoformat_le_iff (a b : DateTime) : a.isoformat ≤ b.isoformat ↔ a.instant ≤ b.instant := by
  show ¬ b.isoformat.toList < a.isoformat.toList ↔ _
  rw [b.isoformat_lt_iff a, not_lt]

end DateTime

/-! ## What the connector writes -/

variable {δ σ : Type}

/-- What `_now()` or the rescheduling in `process_retry_queue` writes for a row
to be tried again at an instant. -/
inductive SyncEngine.Schedules (engine : SyncEngine δ) : DateTime → String → Prop
  | now (t : DateTime) : Schedules engine t (engine.ext.isoformat t.instant)
  | rescheduled {attemptCount : Nat} {seconds : ℚ} {delay : Int} (t next : DateTime)
      (hseconds : backoffSeconds engine.settings.retryBackoffBaseSeconds attemptCount =
        .ok seconds)
      (hdelay : timedelta seconds = .ok delay) (hnext : next.instant = t.instant + delay) :
      Schedules engine next (engine.ext.isoformat (t.instant + delay))

/-- The first `limit` rows, all of them when it is negative. -/
def firstRows (limit : Int) (rows : List RetryRow) : List RetryRow :=
  if limit < 0 then rows else rows.take limit.toNat

/-- `isoformat` writes UTC as the documentation of `datetime` says. -/
def External.WritesIso (ext : External δ) : Prop :=
  ∀ d : DateTime, ext.isoformat d.instant = d.isoformat

variable {engine : SyncEngine δ}

theorem SyncEngine.Schedules.text_eq {d : DateTime} {text : String}
    (h : engine.Schedules d text) : text = engine.ext.isoformat d.instant := by
  cases h with
  | now => rfl
  | rescheduled t _ _ _ hnext => rw [hnext]

/-- Due by their texts are the rows due by their instants. -/
theorem dueRows_eq (hiso : engine.ext.WritesIso) {queue : AutoTable RetryKey RetryData}
    {scheduled : RetryRow → DateTime}
    (hscheduled : ∀ row ∈ queue.rows, engine.Schedules (scheduled row) row.val.nextAttemptAt)
    (now : DateTime) (limit : Int) :
    dueRows queue (engine.ext.isoformat now.instant) limit =
      firstRows limit (queue.rows.filter fun row => (scheduled row).instant ≤ now.instant) := by
  have hdue : queue.rows.filter
      (fun row => decide (row.val.nextAttemptAt ≤ engine.ext.isoformat now.instant)) =
      queue.rows.filter fun row => decide ((scheduled row).instant ≤ now.instant) := by
    refine List.filter_congr ?_
    intro row hrow
    rw [(hscheduled row hrow).text_eq, hiso, hiso, decide_eq_decide,
      DateTime.isoformat_le_iff]
  unfold dueRows firstRows
  rw [hdue]

/-- A drain that gets rows gets those due by their texts. -/
theorem rows_of_answer {env : Environment δ σ} {w : Local δ σ} {now : String} {limit : Int}
    {rows : List RetryRow} (h : (env.answer (.sql (.selectDue now limit)) w).1 = .ok rows) :
    rows = dueRows w.db.retryQueue now limit := by
  cases herror : env.sqlError (.selectDue now limit) w.state with
  | some exc =>
    simp only [Environment.answer, herror] at h
    cases h
  | none =>
    cases hlimit : fitsInt64 limit with
    | false =>
      simp only [Environment.answer, herror, DB.exec, hlimit, Bool.false_eq_true, if_false] at h
      cases h
    | true =>
      simp only [Environment.answer, herror, DB.exec, hlimit, if_true] at h
      exact (Except.ok.inj h).symm

/-- The texts of instants are in their byte order, and so a drain takes the
first rows, in the order of the ids, that are not scheduled after the instant
the clock shows. -/
theorem due_by_instant (engine : SyncEngine δ) (hiso : engine.ext.WritesIso) :
    (∀ a b : DateTime, ascii a.isoformat ≤ ascii b.isoformat ↔ a.instant ≤ b.instant) ∧
      ∀ (env : Environment δ σ) (w : Local δ σ) (scheduled : RetryRow → DateTime)
        (now : DateTime) (limit : Int),
        (∀ row ∈ w.db.retryQueue.rows,
          engine.Schedules (scheduled row) row.val.nextAttemptAt) →
        (env.clock w.state).1 = now.instant →
        let due := w.db.retryQueue.rows.filter fun row => (scheduled row).instant ≤ now.instant
        let returned := (env.run (engine.store.dequeueDueRetries limit) w).1
        due.Pairwise (fun row row' => row.id < row'.id) ∧
          (∀ rows, returned = .ok rows → rows = firstRows limit due) ∧
          ((∀ stmt s, env.sqlError stmt s = none) → fitsInt64 limit = true →
            returned = .ok (firstRows limit due)) := by
  refine ⟨DateTime.bytes_le_iff, ?_⟩
  intro env w scheduled now limit hscheduled hclock due returned
  have hdue := dueRows_eq hiso hscheduled now limit
  -- the clock is read once, and the query is made with it
  have hrun : env.run (engine.store.dequeueDueRetries limit) w =
      env.answer (.sql (.selectDue (engine.ext.isoformat now.instant) limit))
        (env.answer .clock w).2 := by
    rw [← hclock]
    exact run_dequeueDueRetries ..
  have hexec : fitsInt64 limit = true →
      w.db.exec (.selectDue (engine.ext.isoformat now.instant) limit) =
        .ok (firstRows limit due, w.db) := by
    intro hlimit
    simp only [DB.exec, hlimit, if_true, hdue]
    rfl
  refine ⟨w.db.retryQueue.sorted.filter _, ?_, ?_⟩
  · -- an answer can only be the rows that are due
    intro rows hrows
    have hanswer := (congrArg Prod.fst hrun).symm.trans hrows
    rw [rows_of_answer hanswer, ← hdue]
    rfl
  · -- and without an error of SQLite there is one
    intro hsql hlimit
    exact congrArg Prod.fst (hrun.trans (Environment.answer_sql (hsql _ _) (hexec hlimit)))

/-! ## Rows in the same second -/

/-- An instant in the first second of 2024. -/
def firstSecond (microsecond : Nat) (h : microsecond < 1000000) : DateTime where
  year := 2024
  month := 1
  day := 1
  hour := 0
  minute := 0
  second := 0
  microsecond := microsecond
  hyear := by decide
  hmonth := by decide
  hday := by decide
  hhour := by decide
  hminute := by decide
  hsecond := by decide
  hmicrosecond := h

/-- The clock shows one microsecond after the turn of the year. -/
def afterMidnight : Environment Dict Unit where
  clock _ := ((firstSecond 1 (by decide)).instant, ())
  tally _ _ := (.timeout, ())
  frappe _ _ := (.timeout "Read timed out.", ())
  sqlError _ _ := none

/-- An engine for groups with the real timestamps. -/
def timedEngine : SyncEngine Dict :=
  { groupEngine 1 [] with
    ext := { groupExternal [] with isoformat := fun i => (CivilTime.ofInstant i).isoformat } }

/-- A row of the queue with this text. -/
def timedRow (id : Nat) (guid : String) (nextAttemptAt : String) : RetryRow :=
  ⟨id, ⟨"group", guid, "create"⟩, ⟨assets.raw, 0, nextAttemptAt, some "Read timed out.", ""⟩⟩

/-- A row scheduled for midnight, without a fraction, and one for two
microseconds later. -/
def aroundMidnight : Local Dict Unit where
  state := ()
  db := { (DB.empty : DB Dict) with
    retryQueue := {
      rows := [timedRow 1 "g-1" "2024-01-01T00:00:00+00:00",
        timedRow 2 "g-2" "2024-01-01T00:00:00.000002+00:00"]
      nextId := 3
      sorted := by simp [timedRow]
      fresh := by simp [timedRow]
      unique := by simp [timedRow] } }

def scheduledAt (row : RetryRow) : DateTime :=
  if row.id = 1 then firstSecond 0 (by decide) else firstSecond 2 (by decide)

theorem timedEngine_writesIso : timedEngine.ext.WritesIso := by
  intro d
  exact congrArg CivilTime.isoformat d.ofInstant_instant

/-- The row without a fraction is due, the one after the clock is not. -/
theorem due_by_instant_midnight :
    (afterMidnight.run (timedEngine.store.dequeueDueRetries 100) aroundMidnight).1 =
      .ok [timedRow 1 "g-1" "2024-01-01T00:00:00+00:00"] := by
  have hscheduled : ∀ row ∈ aroundMidnight.db.retryQueue.rows,
      timedEngine.Schedules (scheduledAt row) row.val.nextAttemptAt := by
    intro row hrow
    have htext : row.val.nextAttemptAt = timedEngine.ext.isoformat (scheduledAt row).instant := by
      rw [timedEngine_writesIso]
      rcases List.mem_cons.mp hrow with rfl | hrow
      · decide
      · rw [List.mem_singleton.mp hrow]
        decide
    rw [htext]
    exact .now _
  have hdue : aroundMidnight.db.retryQueue.rows.filter
      (fun row => (scheduledAt row).instant ≤ (firstSecond 1 (by decide)).instant) =
      [timedRow 1 "g-1" "2024-01-01T00:00:00+00:00"] := by
    refine (List.filter_cons_of_pos (by decide)).trans ?_
    rw [List.filter_cons_of_neg (by decide)]
    rfl
  have hdrain := ((due_by_instant timedEngine timedEngine_writesIso).2 afterMidnight
    aroundMidnight scheduledAt (firstSecond 1 (by decide)) 100 hscheduled rfl).2.2
    (fun _ _ => rfl) (by decide)
  rw [hdrain, hdue]
  rfl

end TallyConnector
