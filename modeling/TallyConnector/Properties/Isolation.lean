import TallyConnector.Sync.Idle
import TallyConnector.World.Groups

/-! # Isolation of two Frappe targets

The cache rows carry the URL of their target; the checkpoints and the queue do
not. So a target sees nothing of what is done for another one only as long as
it does without both: a full sync and a resync are isolated, an incremental
sync and a drain are not.
-/

namespace TallyConnector

open Effects Prog

variable {δ σ τ : Type}

/-- The same process, and the same cache rows of its target. -/
structure Agree (baseUrl : String) (w w' : Local δ σ) : Prop where
  side : w.toSide = w'.toSide
  cache : ∀ key, key.frappeBaseUrl = baseUrl → w.db.syncCache key = w'.db.syncCache key

theorem agree_answer {env : Environment δ σ} {baseUrl : String} {e : Call δ} {w w' : Local δ σ}
    (he : e.IsSync baseUrl) (h : Agree baseUrl w w') :
    (env.answer e w).1 = (env.answer e w').1 ∧
      Agree baseUrl (env.answer e w).2 (env.answer e w').2 := by
  obtain ⟨⟨s, result, reports⟩, db⟩ := w
  obtain ⟨side', db'⟩ := w'
  obtain ⟨hside, hcache⟩ := h
  obtain rfl : side' = ⟨s, result, reports⟩ := hside.symm
  simp only at hcache
  cases e with
  | sql stmt =>
      simp only [Environment.answer]
      cases env.sqlError stmt s with
      | some exc => exact ⟨rfl, rfl, hcache⟩
      | none =>
          cases stmt with
          | upsertSyncState entityName row =>
              simp only [DB.exec]
              cases row.lastAlterId.all fitsInt64 <;> exact ⟨rfl, rfl, hcache⟩
          | upsertRetry entityName guid operation payloadJson nextAttemptAt error createdAt =>
              simp only [DB.exec]
              cases bindTextNotNull "retry_queue.record_guid" guid <;>
                exact ⟨rfl, rfl, hcache⟩
          | selectCache key =>
              -- the one statement whose answer depends on the cache is of the own rows
              refine ⟨?_, rfl, hcache⟩
              simp only [DB.exec, hcache key he]
              rfl
          | upsertCache key name doctype hash at' =>
              simp only [DB.exec]
              cases bindTextNotNull "sync_cache.frappe_name" name with
              | error exc => exact ⟨rfl, rfl, hcache⟩
              | ok name =>
                  -- the same row is written in both
                  refine ⟨rfl, rfl, fun key' hkey' => ?_⟩
                  simp only [Function.update_apply, hcache key' hkey']
          | _ => exact he.elim
  | _ => exact ⟨rfl, rfl, hcache⟩

section

variable [DecidableEq δ] {engine : SyncEngine δ} {env : Environment δ σ} {w w' : Local δ σ}

variable (engine env) in
/-- A drain that is given no row. -/
theorem run_drain_nothing {limit : Int} (hlimit : ¬ (fitsInt64 limit = true ∧ limit ≠ 0))
    (w : Local δ σ) :
    ∃ r, env.run (engine.prog (.processRetryQueue limit)) w = (r, (env.answer .clock w).2) := by
  have hselect : (∃ exc, env.run (engine.store.dequeueDueRetries limit) w =
      (.error exc, (env.answer .clock w).2)) ∨
      env.run (engine.store.dequeueDueRetries limit) w = (.ok [], (env.answer .clock w).2) := by
    have hrun := run_dequeueDueRetries (h := env.answer) engine.store limit w
    simp only [Environment.answer, DB.exec] at hrun
    split at hrun
    · exact .inl ⟨_, hrun⟩
    · by_cases hfits : fitsInt64 limit = true
      · have hzero : limit = 0 := by
          by_contra hne
          exact hlimit ⟨hfits, hne⟩
        have hdue : ∀ now, dueRows w.db.retryQueue now limit = [] := by
          simp [dueRows, hzero]
        simp only [hfits, if_true, hdue] at hrun
        exact .inr hrun
      · simp only [hfits] at hrun
        exact .inl ⟨_, hrun⟩
  rcases hselect with ⟨exc, hexc⟩ | hnone
  · refine ⟨.error exc, Prog.run_bind_error _ (Prog.run_bind_error _ hexc)⟩
  · exact ⟨_, Prog.run_bind_ok _ (Prog.run_bind_ok _ hnone)⟩

variable (engine env) in
/-- Operations that read no shared table take agreeing stores to agreeing
stores. -/
theorem agree_prog {op : Operation} (hop : ¬ op.Shares)
    (h : Agree engine.frappe.baseUrl w w') :
    Agree engine.frappe.baseUrl (env.run (engine.prog op) w).2 (env.run (engine.prog op) w').2 := by
  have hsync : ∀ {p : Py δ Unit}, p.All (Call.IsSync engine.frappe.baseUrl) →
      Agree engine.frappe.baseUrl (env.run p w).2 (env.run p w').2 := by
    intro p hp
    exact (Prog.run_rel (h := env.answer) (fun _ _ _ he hw => agree_answer he hw) hp h).2
  cases op with
  | fullSync =>
      refine hsync ((engine.all_runCycle false (fun _ he => he) ?_).bind fun _ => trivial)
      intro hincremental
      cases hincremental
  | incrementalSync => exact absurd trivial hop
  | resyncEntity entityName dateFrom dateTo =>
      exact hsync ((engine.all_resyncEntity entityName dateFrom dateTo).bind fun _ => trivial)
  | processRetryQueue limit =>
      obtain ⟨r, hr⟩ := run_drain_nothing engine env hop w
      obtain ⟨r', hr'⟩ := run_drain_nothing engine env hop w'
      rw [hr, hr']
      refine ⟨?_, h.cache⟩
      simp only [Environment.answer, h.side]

omit [DecidableEq δ] in
/-- Operations on one target leave the cache rows of another alone. -/
theorem cache_answer {baseUrl otherUrl : String} (hne : baseUrl ≠ otherUrl) {e : Call δ}
    {cache : CacheKey → Option (CacheRow δ)} (he : e.Owned otherUrl)
    (h : ∀ key, key.frappeBaseUrl = baseUrl → w.db.syncCache key = cache key) :
    ∀ key, key.frappeBaseUrl = baseUrl → (env.answer e w).2.db.syncCache key = cache key := by
  cases e with
  | sql stmt =>
      simp only [Environment.answer]
      cases env.sqlError stmt w.state with
      | some exc => exact h
      | none =>
          cases hexec : w.db.exec stmt with
          | error exc => exact h
          | ok r =>
              cases stmt with
              | upsertCache key name doctype hash at' =>
                  simp only [DB.exec] at hexec
                  split at hexec <;> cases hexec
                  -- the row that is written is one of the other target
                  intro key' hkey'
                  have hkey : key' ≠ key := by
                    intro heq
                    exact hne (hkey'.symm.trans ((congrArg _ heq).trans he))
                  exact (Function.update_of_ne hkey _ _).trans (h key' hkey')
              | upsertSyncState entityName row =>
                  simp only [DB.exec] at hexec
                  split at hexec <;> cases hexec
                  exact h
              | upsertRetry entityName guid operation payloadJson nextAttemptAt error createdAt =>
                  simp only [DB.exec] at hexec
                  split at hexec <;> cases hexec
                  exact h
              | selectDue now limit =>
                  simp only [DB.exec] at hexec
                  split at hexec <;> cases hexec
                  exact h
              | _ =>
                  cases hexec
                  exact h
  | _ => exact h

end

/-- Two shared worlds the own target cannot tell apart. -/
structure Alike (ownUrl : String) (w w' : Shared δ σ τ) : Prop where
  own : w.own = w'.own
  cache : ∀ key, key.frappeBaseUrl = ownUrl → w.db.syncCache key = w'.db.syncCache key

section

variable [DecidableEq δ] {engine : SyncEngine δ} {ownUrl otherUrl : String}
variable {ownEnv : Environment δ σ} {otherEnv : Environment δ τ} {w w' : Shared δ σ τ}
variable {turn : Turn}

/-- A turn for the other target goes unnoticed. -/
theorem alike_other (hne : ownUrl ≠ otherUrl) (hturn : turn.other = true)
    (h : Alike ownUrl w w') :
    Alike ownUrl (engine.takeTurn ownUrl otherUrl ownEnv otherEnv w turn) w' := by
  simp only [SyncEngine.takeTurn, hturn, if_true]
  refine ⟨h.own, ?_⟩
  exact Prog.run_keeps (h := (otherEnv.withTally turn.tally).answer)
    (I := fun w : Local δ τ => ∀ key, key.frappeBaseUrl = ownUrl →
      w.db.syncCache key = w'.db.syncCache key)
    (fun e w he hw => cache_answer hne he hw)
    ((engine.target otherUrl).all_prog turn.op) (w := { toSide := w.other, db := w.db }) h.cache

/-- A turn for the own target goes the same way in both. -/
theorem alike_own (hturn : turn.other = false) (hop : ¬ turn.op.Shares)
    (h : Alike ownUrl w w') :
    Alike ownUrl (engine.takeTurn ownUrl otherUrl ownEnv otherEnv w turn)
      (engine.takeTurn ownUrl otherUrl ownEnv otherEnv w' turn) := by
  simp only [SyncEngine.takeTurn, hturn, Bool.false_eq_true, if_false]
  have hagree : Agree ownUrl
      ((ownEnv.withTally turn.tally).run ((engine.target ownUrl).prog turn.op)
        { toSide := w.own, db := w.db }).2
      ((ownEnv.withTally turn.tally).run ((engine.target ownUrl).prog turn.op)
        { toSide := w'.own, db := w'.db }).2 :=
    agree_prog (engine.target ownUrl) (ownEnv.withTally turn.tally) hop ⟨h.own, h.cache⟩
  exact ⟨hagree.side, hagree.cache⟩

theorem alike_takeTurns (hne : ownUrl ≠ otherUrl) {turns : List Turn}
    (hops : ∀ turn ∈ turns, turn.other = false → ¬ turn.op.Shares) (h : Alike ownUrl w w') :
    Alike ownUrl (engine.takeTurns ownUrl otherUrl ownEnv otherEnv turns w)
      (engine.takeTurns ownUrl otherUrl ownEnv otherEnv
        (turns.filter fun turn => !turn.other) w') := by
  induction turns generalizing w w' with
  | nil => exact h
  | cons turn turns ih =>
      have hrest : ∀ turn' ∈ turns, turn'.other = false → ¬ turn'.op.Shares :=
        fun turn' hmem => hops turn' (List.mem_cons_of_mem _ hmem)
      cases hturn : turn.other with
      | true =>
          rw [List.filter_cons_of_neg (by simp [hturn])]
          exact ih hrest (alike_other hne hturn h)
      | false =>
          rw [List.filter_cons_of_pos (by simp [hturn])]
          exact ih hrest (alike_own hturn (hops turn List.mem_cons_self hturn) h)

end

/-! ### What the own target gets to see -/

section shared

variable [DecidableEq δ] {engine : SyncEngine δ} (listing : Listing engine)
variable {ownUrl otherUrl : String} {ownAnswer otherAnswer : FrappeRequest → HttpOutcome}
variable {w : Shared δ Unit Unit} {cache : CacheKey → Option (CacheRow δ)}
variable {K : String → Option Int → Prop}

/-- The own process with the shared database. -/
def Shared.ownLocal (w : Shared δ σ τ) : Local δ σ := { toSide := w.own, db := w.db }

/-- Fresh processes on a fresh database. -/
def Shared.fresh : Shared δ Unit Unit where
  db := .empty
  own := { state := () }
  other := { state := () }

/-- The turns of a run on the shared store, both sites standing still. -/
abbrev taken (engine : SyncEngine δ) (ownUrl otherUrl : String)
    (ownAnswer otherAnswer : FrappeRequest → HttpOutcome) (turns : List Turn)
    (w : Shared δ Unit Unit) : Shared δ Unit Unit :=
  engine.takeTurns ownUrl otherUrl (.still ownAnswer) (.still otherAnswer) turns w

omit [DecidableEq δ] in
theorem idle_fresh :
    Idle (fun _ => none) (fun _ since => since = none) (Shared.fresh (δ := δ)).ownLocal :=
  ⟨rfl, rfl, rfl, fun _ => rfl⟩

theorem idle_downs (hnone : ∀ name, K name none) (ops : List Operation)
    (h : Idle cache K w.ownLocal) :
    Idle cache K (taken engine ownUrl otherUrl ownAnswer otherAnswer
      (ops.map listing.down) w).ownLocal := by
  induction ops generalizing w with
  | nil => exact h
  | cons op ops ih =>
      have hop : ((engine.target ownUrl).prog op).Ensures (handler ownAnswer fun _ => .timeout)
          (fun _ w' => Idle cache K w') w.ownLocal := idle_prog hnone op h
      exact ih hop

/-- What the own target received stays received. -/
theorem sent_taken (turns : List Turn) (h : w.own.reports ≠ []) :
    (taken engine ownUrl otherUrl ownAnswer otherAnswer turns w).own.reports ≠ [] := by
  induction turns generalizing w with
  | nil => exact h
  | cons turn turns ih =>
      refine ih ?_
      unfold SyncEngine.takeTurn
      split
      · exact h
      · exact ensures_sent (p := (engine.target ownUrl).prog turn.op) (w := w.ownLocal) h

/-- An operation for the own target that sends something. -/
theorem sent_own {turn : Turn} (turns : List Turn) (hturn : turn.other = false)
    (h : ((engine.target ownUrl).prog turn.op).Ensures (handler ownAnswer turn.tally)
      (fun _ w' => w'.reports ≠ []) w.ownLocal) :
    (taken engine ownUrl otherUrl ownAnswer otherAnswer (turn :: turns) w).own.reports ≠ [] := by
  refine sent_taken turns ?_
  simp only [SyncEngine.takeTurn, hturn, Bool.false_eq_true, if_false]
  exact h

theorem taken_cons (turn : Turn) (turns : List Turn) :
    taken engine ownUrl otherUrl ownAnswer otherAnswer (turn :: turns) w =
      taken engine ownUrl otherUrl ownAnswer otherAnswer turns
        (engine.takeTurn ownUrl otherUrl (.still ownAnswer) (.still otherAnswer) w turn) :=
  rfl

theorem taken_append (turns turns' : List Turn) :
    taken engine ownUrl otherUrl ownAnswer otherAnswer (turns ++ turns') w =
      taken engine ownUrl otherUrl ownAnswer otherAnswer turns'
        (taken engine ownUrl otherUrl ownAnswer otherAnswer turns w) :=
  List.foldl_append

/-- The turn of the other target. -/
def Listing.leak : Turn := listing.up true (.resyncEntity listing.spec.name none none)

/-- A history in which the other target has one turn, right before the turn
`bad` of the own target. -/
theorem Listing.not_isolated (ownAnswer otherAnswer : FrappeRequest → HttpOutcome)
    {pre post : List Operation} (bad : Turn)
    (hbad : bad = listing.up false bad.op ∨ bad = listing.down bad.op)
    (hleak : (taken engine ownUrl otherUrl ownAnswer otherAnswer
        (pre.map listing.down ++ listing.leak :: bad :: post.map listing.down) .fresh).own.reports ≠
      (taken engine ownUrl otherUrl ownAnswer otherAnswer
        (pre.map listing.down ++ bad :: post.map listing.down) .fresh).own.reports) :
    ¬ engine.Isolated ownUrl otherUrl (pre ++ bad.op :: post) := by
  intro hisolated
  have hother : bad.other = false := by
    rcases hbad with h | h <;> rw [h] <;> rfl
  have hfilter : ∀ ops : List Operation,
      (ops.map listing.down).filter (fun turn => !turn.other) = ops.map listing.down := by
    intro ops
    refine List.filter_eq_self.mpr fun turn hturn => ?_
    obtain ⟨op, -, rfl⟩ := List.mem_map.mp hturn
    rfl
  have hops : ∀ ops : List Operation, (ops.map listing.down).map (·.op) = ops := by
    intro ops
    rw [List.map_map]
    exact List.map_id ops
  -- what the own target is left with is the history without the leak
  have hturns : (pre.map listing.down ++ listing.leak :: bad :: post.map listing.down).filter
      (fun turn => !turn.other) = pre.map listing.down ++ bad :: post.map listing.down := by
    rw [List.filter_append, List.filter_cons_of_neg (by simp [Listing.leak, Listing.up]),
      List.filter_cons_of_pos (by simp [hother]), hfilter, hfilter]
  have hdowns : ∀ ops : List Operation, ∀ turn ∈ ops.map listing.down,
      turn.company = listing.company ∧
        (turn.tally = listing.answer ∨ turn.tally = fun _ => .timeout) := by
    intro ops turn hturn
    obtain ⟨op, -, rfl⟩ := List.mem_map.mp hturn
    exact ⟨rfl, .inr rfl⟩
  -- nothing is edited in between, and Tally answers with the one record or not at all
  have hhistory : engine.History
      (pre.map listing.down ++ listing.leak :: bad :: post.map listing.down) := by
    refine listing.history fun turn hturn => ?_
    rw [List.mem_append, List.mem_cons, List.mem_cons] at hturn
    rcases hturn with hpre | rfl | rfl | hpost
    · exact hdowns pre turn hpre
    · exact ⟨rfl, .inl rfl⟩
    · rcases hbad with h | h
      · rw [h]
        exact ⟨rfl, .inl rfl⟩
      · rw [h]
        exact ⟨rfl, .inr rfl⟩
    · exact hdowns post turn hpost
  have hsame := hisolated Unit Unit (.still ownAnswer) (.still otherAnswer) .fresh _ hhistory (by
    rw [hturns, List.map_append, List.map_cons, hops, hops])
  rw [hturns] at hsame
  exact hleak hsame

omit [DecidableEq δ] in
/-- The turn of the other target changes nothing about the own process. -/
theorem Idle.of_leak {w' : Shared δ Unit Unit} (h : Idle cache K w.ownLocal)
    (hown : w'.own = w.own) (hqueue : w'.db.retryQueue.rows = [])
    {K' : String → Option Int → Prop} (hK : ∀ name, K' name (w'.db.lastAlterId name)) :
    Idle w'.db.syncCache K' w'.ownLocal := by
  refine ⟨?_, hqueue, rfl, hK⟩
  exact (congrArg Side.reports hown).trans h.reports

/-- An incremental cycle finds nothing once the other target has synced the
record. -/
theorem Listing.idle_cycle (hw : Idle cache (fun name since => name = listing.spec.name →
      since = some (listing.version.alterId : Int)) w.ownLocal) :
    (engine.prog .incrementalSync).Ensures (handler ownAnswer listing.answer)
      (fun _ w' => Idle cache (fun _ _ => True) w') w.ownLocal := by
  have hperm := engine.registry.resolveSyncOrder_perm listing.horder
  have hcycle : (engine.runCycle true).Ensures (handler ownAnswer listing.answer)
      (fun _ w' => Idle cache (fun _ _ => True) w') w.ownLocal := by
    refine .bind (.ofExcept ?_)
    rw [listing.horder]
    refine (idle_syncEntities (by simp) (fun spec hspec since hsince => .inl ?_) hw).mono
      fun _ w' hw' => hw'.mono fun _ _ _ => trivial
    rw [listing.answer_of_not hsince]
    exact listing.hempty spec (hperm.subset hspec)
  refine .bind (hcycle.mono fun r w' hw' => ?_)
  cases r with
  | error exc => exact hw'
  | ok results => exact hw'

/-- An incremental cycle that has no checkpoint sends the record. -/
theorem Listing.ensures_sent_cycle (hcache : cache listing.cacheKey = none)
    (hw : Idle cache (fun _ since => since = none) w.ownLocal) :
    (engine.prog .incrementalSync).Ensures (handler ownAnswer listing.answer)
      (fun _ w' => w'.reports ≠ []) w.ownLocal := by
  have hperm := engine.registry.resolveSyncOrder_perm listing.horder
  refine ensures_sent_bind (.bind (.ofExcept ?_))
  rw [listing.horder]
  exact listing.ensures_sent_syncEntities ownAnswer hcache hperm.subset
    (hperm.mem_iff.mpr listing.hspec) hw

/-- An incremental sync misses what the other target has synced. -/
theorem Listing.leaks_checkpoint (listing : Listing engine) (pre post : List Operation) :
    ¬ engine.Isolated ownUrl otherUrl (pre ++ .incrementalSync :: post) := by
  refine listing.not_isolated serving serving (listing.up false .incrementalSync) (.inl rfl) ?_
  -- before the leak nothing was synced
  have hidle : Idle (fun _ => none) (fun _ since => since = none)
      (taken engine ownUrl otherUrl serving serving (pre.map listing.down) .fresh).ownLocal :=
    idle_downs listing (by simp) pre idle_fresh
  rw [taken_append, taken_append]
  generalize taken engine ownUrl otherUrl serving serving (pre.map listing.down) .fresh = w at hidle
  have hwith : (taken engine ownUrl otherUrl serving serving
      (listing.leak :: listing.up false .incrementalSync :: post.map listing.down)
        w).own.reports = [] := by
    have hserved : ((engine.target otherUrl).prog listing.leak.op).Ensures
        (handler serving listing.answer) (fun _ w' => w'.db.retryQueue.rows = [] ∧
          w'.db.lastAlterId listing.spec.name = some (listing.version.alterId : Int))
        { toSide := w.other, db := w.db } :=
      ensures_resync (listing.target otherUrl).hspec ((listing.target otherUrl).ensures_served hidle.queue
        (congrFun hidle.cache _))
    rw [taken_cons]
    generalize hw' : engine.takeTurn ownUrl otherUrl (.still serving) (.still serving) w
      listing.leak = w'
    -- the other target has synced the record, and its checkpoint is there
    have hleak : Idle w'.db.syncCache (fun name since => name = listing.spec.name →
        since = some (listing.version.alterId : Int)) w'.ownLocal := by
      subst hw'
      refine hidle.of_leak (by rfl) hserved.1 fun name hname => ?_
      rw [hname]
      exact hserved.2
    -- so the own cycle is asked for nothing
    have hcycle : ((engine.target ownUrl).prog .incrementalSync).Ensures
        (handler serving listing.answer) (fun _ w'' => Idle w'.db.syncCache (fun _ _ => True) w'')
        w'.ownLocal := (listing.target ownUrl).idle_cycle hleak
    have hdowns : Idle w'.db.syncCache (fun _ _ => True)
        (taken engine ownUrl otherUrl serving serving
          (listing.up false .incrementalSync :: post.map listing.down) w').ownLocal :=
      idle_downs listing (by simp) post hcycle
    exact hdowns.reports
  -- without the other target the own cycle sends the record
  have hwithout : (taken engine ownUrl otherUrl serving serving
      (listing.up false .incrementalSync :: post.map listing.down) w).own.reports ≠ [] :=
    sent_own _ rfl ((listing.target ownUrl).ensures_sent_cycle rfl hidle)
  rw [hwith]
  exact hwithout.symm

/-- A drain delivers what failed for the other target. -/
theorem Listing.leaks_queue (hne : ownUrl ≠ otherUrl) (listing : Listing engine)
    {limit : Int} (hlimit : fitsInt64 limit = true) (hzero : limit ≠ 0)
    (pre post : List Operation) :
    ¬ engine.Isolated ownUrl otherUrl (pre ++ .processRetryQueue limit :: post) := by
  refine listing.not_isolated serving refused (listing.down (.processRetryQueue limit))
    (.inr rfl) ?_
  have hidle : Idle (fun _ => none) (fun _ since => since = none)
      (taken engine ownUrl otherUrl serving refused (pre.map listing.down) .fresh).ownLocal :=
    idle_downs listing (by simp) pre idle_fresh
  rw [taken_append, taken_append]
  generalize taken engine ownUrl otherUrl serving refused (pre.map listing.down) .fresh = w at hidle
  have hwith : (taken engine ownUrl otherUrl serving refused
      (listing.leak :: listing.down (.processRetryQueue limit) :: post.map listing.down)
        w).own.reports ≠ [] := by
    -- the other target was refused, and its row is in the queue
    have hqueued : ((engine.target otherUrl).prog listing.leak.op).Ensures
        (handler refused listing.answer)
        (fun _ w' => ∃ row, w'.db.retryQueue.rows = [row] ∧ listing.Left row)
        { toSide := w.other, db := w.db } :=
      ensures_resync (listing.target otherUrl).hspec ((listing.target otherUrl).ensures_queued hidle.queue
        (congrFun hidle.cache _))
    have hcache : ((engine.target otherUrl).prog listing.leak.op).Ensures
        (handler refused listing.answer)
        (fun _ w' => ∀ key, key.frappeBaseUrl = ownUrl → w'.db.syncCache key = none)
        { toSide := w.other, db := w.db } :=
      .of_all ((engine.target otherUrl).all_prog _) (fun e w' he hw' => cache_answer hne he hw')
        fun key _ => congrFun hidle.cache key
    -- so the own drain sends the record
    obtain ⟨row, hrows, hleft⟩ := hqueued
    rw [taken_cons]
    exact sent_own _ rfl ((listing.target ownUrl).ensures_sent_drain serving (fun _ => .timeout)
      hlimit hzero hrows hleft (hcache _ rfl))
  -- without the other target the queue is empty
  have hwithout : (taken engine ownUrl otherUrl serving refused
      (listing.down (.processRetryQueue limit) :: post.map listing.down) w).own.reports = [] := by
    have hdowns : Idle (fun _ => none) (fun _ since => since = none)
        (taken engine ownUrl otherUrl serving refused
          ((.processRetryQueue limit :: post).map listing.down) w).ownLocal :=
      idle_downs listing (by simp) _ hidle
    exact hdowns.reports
  rw [hwithout]
  exact hwith

end shared

/-! ## Isolation -/

variable [DecidableEq δ] {engine : SyncEngine δ} {ownUrl otherUrl : String}

/-- Two targets that share a store are isolated exactly for the operations
that read neither a checkpoint nor the queue. -/
theorem isolated_iff (hne : ownUrl ≠ otherUrl) (listing : Listing engine) (ops : List Operation) :
    engine.Isolated ownUrl otherUrl ops ↔ ∀ op ∈ ops, ¬ op.Shares := by
  constructor
  · -- an operation that reads a shared table leaks
    intro hisolated op hop hshares
    obtain ⟨pre, post, rfl⟩ := List.append_of_mem hop
    cases op with
    | fullSync => exact hshares
    | resyncEntity entityName dateFrom dateTo => exact hshares
    | incrementalSync => exact listing.leaks_checkpoint pre post hisolated
    | processRetryQueue limit =>
        exact listing.leaks_queue hne hshares.1 hshares.2 pre post hisolated
  · intro hops σ τ ownEnv otherEnv w turns _ hturns
    have hown : ∀ turn ∈ turns, turn.other = false → ¬ turn.op.Shares := by
      intro turn hturn hother
      refine hops _ (hturns ▸ List.mem_map_of_mem (List.mem_filter.mpr ⟨hturn, ?_⟩))
      rw [hother]
      rfl
    have halike : Alike ownUrl w w := ⟨rfl, fun _ _ => rfl⟩
    exact congrArg Side.reports (alike_takeTurns hne hown halike).own

/-! ## On groups -/

/-- A company with one group. -/
def groupListing : Listing (groupEngine 1 [[assets], []]) where
  spec := group
  me := groupMapping
  raw := assets.raw
  model := (groupPydantic.tallyMaster assets.raw).toOption.getD ⟨∅⟩
  key := "g-1"
  version := assets.version
  page := .response 200 (groupPage [assets])
  emptyPage := .response 200 (groupPage [])
  order := [group]
  hspec := group_mem_specs _ _
  hme := rfl
  hmodel := by rfl
  hkey := by decide +kernel
  hentity := rfl
  hraw := rfl
  halter := by decide +kernel
  hfits := by decide
  hlookup := by decide +kernel
  hpage := by decide +kernel
  hempty := by decide +kernel
  horder := by rfl

/-- A full sync and a resync see nothing of what is done for another target. -/
theorem isolated_groups :
    (groupEngine 1 [[assets], []]).Isolated "https://erp.example.com" "https://test.example.com"
      [.fullSync, .resyncEntity "group" none none] :=
  (isolated_iff (by decide) groupListing _).mpr (by simp [Operation.Shares])

/-- An incremental sync and a drain do. -/
theorem leaks_groups :
    let engine := groupEngine 1 [[assets], []]
    ¬ engine.Isolated "https://erp.example.com" "https://test.example.com" [.incrementalSync] ∧
      ¬ engine.Isolated "https://erp.example.com" "https://test.example.com"
        [.processRetryQueue 100] :=
  ⟨groupListing.leaks_checkpoint [] [],
    groupListing.leaks_queue (by decide) (by decide) (by decide) [] []⟩

end TallyConnector
