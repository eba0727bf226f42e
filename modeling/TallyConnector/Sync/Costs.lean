import TallyConnector.Effects.Traces
import TallyConnector.Sync.Footprint

/-! # How many requests a push may need

A record is looked up once and sent once, each with as many attempts as the
settings allow. Everything else a push does is local.
-/

namespace TallyConnector

open Effects Prog

variable {δ : Type} {engine : SyncEngine δ}

namespace Call

/-- A request to Frappe for one of these doctypes. -/
def Sends (doctypes : String → Prop) : Call δ → Prop
  | .frappe request => doctypes request.doctype
  | _ => False

/-- The call leaves the machine alone. -/
def Local : Call δ → Prop
  | .tally _ => False
  | .frappe _ => False
  | _ => True

end Call

/-- How often a request is made at most: once, and as often again as
`retry_max_attempts` allows. -/
def Settings.attempts (settings : Settings) : Nat := (settings.retryMaxAttempts - 1).toNat + 1

variable {doctypes : String → Prop}

/-- At most `n` requests to Frappe, for these doctypes. -/
abbrev Requests {α : Type} (doctypes : String → Prop) (n : Nat) (p : Py δ α) : Prop :=
  p.Within (Call.Sends doctypes) Call.Local n

theorem local_clock : (clock : Py δ Int).All Call.Local := all_clock.mpr trivial

theorem local_resultOp (op : ResultOp) : (resultOp op : Py δ _).All Call.Local :=
  (all_resultOp op).mpr trivial

theorem local_sql (stmt : Stmt δ) : (sql stmt).All Call.Local := all_sql (P := Call.Local) trivial

theorem local_upsertCache (store : StateStore δ) (key : CacheKey) (name : Json) (doctype : String)
    (hash : Option δ) : (store.upsertCache key name doctype hash).All Call.Local :=
  (all_now store (P := Call.Local) trivial).bind fun _ => local_sql _

theorem requests_retrying {α : Type} {retryable : Exn → Bool} {n : Nat} {p : Py δ α}
    (h : Requests doctypes n p) (extra : Nat) :
    Requests doctypes ((extra + 1) * n) (retrying retryable extra p) := by
  induction extra with
  | zero => exact h.mono (Nat.le_of_eq (by simp))
  | succ extra ih =>
    have hsum : n + (extra + 1) * n = (extra + 1 + 1) * n := by
      rw [Nat.succ_mul (extra + 1), Nat.add_comm]
    rw [← hsum]
    refine Within.tryCatch h fun exc => ?_
    split
    · exact ih
    · trivial

theorem requests_request {client : FrappeClient δ} {request : FrappeRequest}
    (h : doctypes request.doctype) :
    Requests doctypes client.settings.attempts (client.request request) := by
  have honce : Requests doctypes 1 (client.requestOnce request) :=
    .inr ⟨h, 0, rfl, fun outcome => .of_all (all_ofExcept _)⟩
  refine Within.tryCatch (n := 0) ?_ fun exc => ?_
  · exact (requests_retrying honce _).mono (Nat.le_of_eq (Nat.mul_one _))
  · split <;> trivial

theorem requests_findExisting {store : StateStore δ} {client : FrappeClient δ}
    {me : MappingEntry} {keyField key : String} (h : doctypes me.frappeDoctype) :
    Requests doctypes client.settings.attempts (findExisting store client me keyField key) := by
  have hget : Requests doctypes client.settings.attempts (client.get me.frappeDoctype
      [(me.keyField keyField, .str key)] ["name"]) :=
    (requests_request h).before fun _ => all_ofExcept _
  have hcached : (store.getCachedFrappeName ⟨me.entityName, key, client.baseUrl⟩).All
      Call.Local := (local_sql _).bind fun _ => trivial
  refine .after hcached fun cached => ?_
  split
  · trivial
  · refine .before hget fun found => ?_
    split
    · refine (all_ofExcept _).bind fun name => ?_
      exact (local_upsertCache _ _ _ _ _).bind fun _ => trivial
    · trivial

theorem requests_sendRecord {me : MappingEntry} {naturalKey : String} {push : Json → Push}
    {payload : Dict} {existing : Json} (h : doctypes me.frappeDoctype) :
    Requests doctypes engine.settings.attempts
      (engine.sendRecord me naturalKey push payload existing) := by
  unfold SyncEngine.sendRecord
  split
  · refine .before (.before (requests_request h) fun _ => all_ofExcept _) fun _ => ?_
    exact (local_resultOp _).bind fun _ => trivial
  · refine .before (.before (requests_request h) fun _ => all_ofExcept _) fun _ => ?_
    refine (all_ofExcept _).bind fun name => ?_
    exact (local_resultOp _).bind fun _ => trivial

variable [DecidableEq δ]

/-- A push looks the record up and sends it. -/
theorem requests_pushRecord {spec : EntitySpec} {me : MappingEntry} {model : Model}
    (h : doctypes me.frappeDoctype) :
    Requests doctypes (2 * engine.settings.attempts) (engine.pushRecord spec me model) := by
  unfold SyncEngine.pushRecord
  split
  · trivial
  · rw [Nat.two_mul]
    refine (requests_findExisting h).bind fun existing => ?_
    refine .after (local_sql _) fun entry => ?_
    split
    · refine Within.mono (.of_all ?_) (Nat.zero_le _)
      exact (local_resultOp _).bind fun _ => trivial
    · exact .before (requests_sendRecord h) fun name => local_upsertCache _ _ _ _ _

omit [DecidableEq δ] in
theorem local_pushFailed (spec : EntitySpec) (record : Record) (exc : Exn) :
    (engine.pushFailed spec record exc).All Call.Local := by
  unfold SyncEngine.pushFailed
  split
  · exact (local_resultOp _).bind fun _ => trivial
  · refine (local_resultOp _).bind fun _ => ?_
    refine (all_now _ (P := Call.Local) trivial).bind fun _ => ?_
    exact (all_now _ (P := Call.Local) trivial).bind fun _ => local_sql _

/-- The records of an entity. -/
theorem requests_syncRecords {spec : EntitySpec} {mappingEntry : Option MappingEntry}
    (h : ∀ me ∈ mappingEntry, doctypes me.frappeDoctype) (records : List Record)
    (maxAlterId : Option Int) :
    Requests doctypes (records.length * (2 * engine.settings.attempts))
      (engine.syncRecords spec mappingEntry records maxAlterId) := by
  induction records generalizing maxAlterId with
  | nil => trivial
  | cons record records ih =>
    have hlater : ∀ maxAlterId, Requests doctypes
        ((record :: records).length * (2 * engine.settings.attempts))
        (engine.syncRecords spec mappingEntry records maxAlterId) := fun maxAlterId =>
      (ih maxAlterId).mono (Nat.mul_le_mul_right _ (Nat.le_succ _))
    unfold SyncEngine.syncRecords
    split
    · exact .after (local_resultOp _) fun _ => hlater _
    · cases mappingEntry with
      | none => exact hlater _
      | some me =>
        rw [List.length_cons, Nat.succ_mul, Nat.add_comm]
        refine Within.bind ?_ fun _ => ih _
        refine Within.tryCatch (n := 0) (requests_pushRecord (h me rfl)) fun exc => ?_
        exact .of_all (local_pushFailed spec record exc)

omit [DecidableEq δ] in
theorem local_attemptFailed (item : RetryRow) (exc : Exn) :
    (engine.attemptFailed item exc).All Call.Local := by
  unfold SyncEngine.attemptFailed
  split
  · exact (local_sql _).bind fun _ => trivial
  · refine All.bind ?_ fun _ => (local_sql _).bind fun _ => trivial
    refine (all_ofExcept _).bind fun seconds => local_clock.bind fun now => ?_
    exact (all_ofExcept _).bind fun delay => trivial

/-- The due rows of a drain. -/
theorem requests_drainItems (items : List RetryRow) (succeeded : Nat) :
    Requests (fun _ => True) (items.length * (2 * engine.settings.attempts))
      (engine.drainItems items succeeded) := by
  induction items generalizing succeeded with
  | nil => trivial
  | cons item items ih =>
    have hitem : Requests (fun _ => True) (2 * engine.settings.attempts)
        (engine.drainItem item) := by
      refine .after (all_ofExcept _) fun spec => ?_
      split
      · refine Within.mono (.of_all ?_) (Nat.zero_le _)
        exact (local_sql _).bind fun _ => trivial
      · refine Within.tryCatch (n := 0) ?_ fun exc => .of_all (local_attemptFailed item exc)
        refine .after (all_ofExcept _) fun model => .after (local_resultOp _) fun _ => ?_
        refine .before (requests_pushRecord trivial) fun _ => ?_
        exact (local_sql _).bind fun _ => trivial
    rw [List.length_cons, Nat.succ_mul, Nat.add_comm]
    exact hitem.bind fun ok => ih _

end TallyConnector
