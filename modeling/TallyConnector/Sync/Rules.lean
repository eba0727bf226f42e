import TallyConnector.Sync.Footprint
import TallyConnector.Sync.Protocol

/-! # Proof rules for connector code

One rule for each kind of call, for proving that code stays within the steps
of the protocol. An assertion `P` about the world has to survive edits of the
Tally company (`Stable`); every assertion about the database, the documents
or the history does, because edits change nothing else.
-/

namespace TallyConnector

open Effects Relation

variable {δ : Type} {engine : SyncEngine δ} {ops : Operation → Prop} {allow : Assumed δ}
variable {α : Type}

/-- The assertion does not look at the Tally company. -/
def Stable (P : World δ → Prop) : Prop := ∀ w company, P w → P (w.setTally company)

/-- No retry could help is not what the exception says. -/
def Exn.Transient (exc : Exn) : Prop := exc.isPermanent = false

/-! ## The exceptions of the libraries -/

theorem transient_of_bindText {value : Json} {exc : Exn} (h : bindText value = .error exc) :
    exc.Transient := by
  unfold bindText at h
  split at h
  · cases h
  · cases h
  · split at h <;> cases h
    rfl
  · cases h
  · cases h
  · cases h
    rfl
  · cases h
    rfl

theorem transient_of_bindTextNotNull {column : String} {value : Json} {exc : Exn}
    (h : bindTextNotNull column value = .error exc) : exc.Transient := by
  unfold bindTextNotNull at h
  split at h
  · next hbind =>
    cases h
    exact transient_of_bindText hbind
  · cases h
    rfl
  · cases h

theorem transient_of_exec {db : DB δ} {stmt : Stmt δ} {exc : Exn}
    (h : db.exec stmt = .error exc) : exc.Transient := by
  cases stmt with
  | selectSyncState entityName => cases h
  | upsertSyncState entityName row =>
      simp only [DB.exec] at h
      split at h <;> cases h
      rfl
  | upsertRetry entityName recordGuid operation payloadJson nextAttemptAt error createdAt =>
      simp only [DB.exec] at h
      split at h
      · -- a guid that cannot be bound
        next hbind =>
        cases h
        exact transient_of_bindTextNotNull hbind
      · cases h
  | selectDue now limit =>
      simp only [DB.exec] at h
      split at h <;> cases h
      rfl
  | deleteRetry retryId => cases h
  | failRetry retryId error nextAttemptAt => cases h
  | selectCache key => cases h
  | upsertCache key frappeName frappeDoctype contentHash lastPushedAt =>
      simp only [DB.exec] at h
      split at h
      · next hbind =>
        cases h
        exact transient_of_bindTextNotNull hbind
      · cases h

theorem transient_of_readResponse {client : FrappeClient δ} {r : HttpResponse} {exc : Exn}
    (h : client.readResponse r = .error exc) : exc.Transient := by
  unfold FrappeClient.readResponse at h
  split at h
  · cases h
    rfl
  · split at h
    · cases h
      rfl
    · split at h
      · obtain ⟨text, -, rfl⟩ | ⟨text, -, rfl⟩ := FrappeClient.raise_text h <;> rfl
      · split at h
        · cases h
        · cases h
        · cases h
          rfl
        · obtain ⟨text, -, rfl⟩ | ⟨text, -, rfl⟩ := FrappeClient.raise_text h <;> rfl

theorem transient_of_readOutcome {client : FrappeClient δ} {outcome : HttpOutcome} {exc : Exn}
    (h : client.readOutcome outcome = .error exc) : exc.Transient := by
  cases outcome with
  | timeout text =>
      cases h
      rfl
  | connectionError text =>
      cases h
      rfl
  | requestException text =>
      cases h
      rfl
  | response r => exact transient_of_readResponse h

theorem transient_of_pyGet {value default : Json} {key : String} {exc : Exn}
    (h : pyGet value key default = .error exc) : exc.Transient := by
  cases value <;> cases h <;> rfl

theorem transient_of_firstName {found : Json} {exc : Exn} (h : firstName found = .error exc) :
    exc.Transient := by
  unfold firstName at h
  split at h
  · split at h <;> cases h
    rfl
  all_goals
    cases h
    rfl

/-! ## The calls in the world -/

/-- A statement is committed, or fails and leaves the world as it is. -/
theorem exec_sql {stmt : Stmt δ} {c : Choice} {w w' : World δ} {r : Except Exn stmt.Result}
    (h : engine.exec (.sql stmt) c w = some (r, w')) :
    (∃ result db, w.db.exec stmt = .ok (result, db) ∧ r = .ok result ∧
      w' = w.commit stmt db) ∨
    ∃ exc, exc.Transient ∧ r = .error exc ∧ w' = w := by
  change SyncEngine.execSql stmt w c = some (r, w') at h
  cases c with
  | commit =>
      simp only [SyncEngine.execSql] at h
      split at h
      · next result db hexec =>
        cases h
        exact .inl ⟨result, db, hexec, rfl, rfl⟩
      · next exc hexec =>
        cases h
        exact .inr ⟨exc, transient_of_exec hexec, rfl, rfl⟩
  | abort text =>
      cases h
      exact .inr ⟨⟨.operationalError, text⟩, rfl, rfl, rfl⟩
  | _ => cases h


theorem readOutcome_of_fails {outcome : HttpOutcome} (h : engine.fails outcome = true) :
    ∃ exc, engine.frappe.readOutcome outcome = .error exc := by
  unfold SyncEngine.fails at h
  cases hread : engine.frappe.readOutcome outcome with
  | ok value => simp [hread, Except.toOption] at h
  | error exc => exact ⟨exc, rfl⟩

theorem readOutcome_okOutcome {client : FrappeClient δ} {value : Json} :
    client.readOutcome (okOutcome value) = .ok value := rfl

theorem fails_notFoundOutcome (engine : SyncEngine δ) : engine.fails notFoundOutcome = true := rfl

section requests

variable {w w' : World δ} {c : Choice} {outcome : HttpOutcome} {baseUrl doctype : String}

/-- A GET fails, or is answered with the matches in some order. -/
theorem exec_get {filters : List (String × Json)} {fields : List String}
    (h : engine.exec (.frappe (.get baseUrl doctype filters fields)) c w = some (outcome, w')) :
    (engine.fails outcome = true ∧ w' = w) ∨
      ∃ order, order.Perm (matching w.docs doctype filters) ∧
        outcome = okOutcome (foundBody order) ∧
        w' = { w with log := .polled doctype filters :: w.log } := by
  change engine.execFrappe _ w c = some (outcome, w') at h
  cases c with
  | refuse o =>
      simp only [SyncEngine.execFrappe] at h
      split at h <;> cases h
      exact .inl ⟨‹_›, rfl⟩
  | lose name o => simp [SyncEngine.execFrappe, World.lose] at h
  | serve name order =>
      simp only [SyncEngine.execFrappe, World.serve] at h
      split at h <;> cases h
      exact .inr ⟨order, ‹_›, rfl, rfl⟩
  | _ => cases h

/-- A POST is not applied, or applied with or without a good answer. -/
theorem exec_post {payload : Dict}
    (h : engine.exec (.frappe (.post baseUrl doctype payload)) c w = some (outcome, w')) :
    (engine.fails outcome = true ∧ w' = w) ∨
      ∃ name, FreshName w.docs doctype name ∧ w' = w.post doctype name payload ∧
        ((engine.fails outcome = true ∧ ∃ o, c = .lose name o) ∨
          (outcome = okOutcome (savedBody name) ∧ ∃ order, c = .serve name order)) := by
  change engine.execFrappe _ w c = some (outcome, w') at h
  cases c with
  | refuse o =>
      simp only [SyncEngine.execFrappe] at h
      split at h <;> cases h
      exact .inl ⟨‹_›, rfl⟩
  | lose name o =>
      simp only [SyncEngine.execFrappe, World.lose] at h
      split at h
      · split at h <;> cases h
        exact .inr ⟨name, ‹_›, rfl, .inl ⟨‹_›, _, rfl⟩⟩
      · cases h
  | serve name order =>
      simp only [SyncEngine.execFrappe, World.serve] at h
      split at h <;> cases h
      exact .inr ⟨name, ‹_›, rfl, .inr ⟨rfl, order, rfl⟩⟩
  | _ => cases h

/-- A PUT is not applied, or applied with or without a good answer. -/
theorem exec_put {payload : Dict} {docname : String}
    (h : engine.exec (.frappe (.put baseUrl doctype (some (.str docname)) payload)) c w =
      some (outcome, w')) :
    (engine.fails outcome = true ∧ w' = w) ∨
      (hasDoc w.docs doctype docname = true ∧ w' = w.put doctype docname payload ∧
        (engine.fails outcome = true ∨ outcome = okOutcome (savedBody docname))) := by
  change engine.execFrappe _ w c = some (outcome, w') at h
  cases c with
  | refuse o =>
      simp only [SyncEngine.execFrappe] at h
      split at h <;> cases h
      exact .inl ⟨‹_›, rfl⟩
  | lose name o =>
      simp only [SyncEngine.execFrappe, World.lose] at h
      split at h
      · split at h <;> cases h
        exact .inr ⟨‹_›, rfl, .inl ‹_›⟩
      · cases h
  | serve name order =>
      simp only [SyncEngine.execFrappe, World.serve] at h
      split at h <;> cases h
      · exact .inr ⟨‹_›, rfl, .inr rfl⟩
      · exact .inl ⟨fails_notFoundOutcome engine, rfl⟩
  | _ => cases h

end requests

/-! ## The rules -/

variable [DecidableEq δ]

/-- The code stays within the protocol and ends in `Q`. -/
abbrev SyncEngine.Conforms (engine : SyncEngine δ) (ops : Operation → Prop)
    (allow : Assumed δ) (Q : Except Exn α → World δ → Prop) (p : Py δ α) (w : World δ) : Prop :=
  (engine.machine ops).Safe allow (engine.Step ops allow) Q p w

theorem edits_setTally {w w' : World δ} (h : (engine.machine ops).Edits w w') :
    ∃ company, w' = w.setTally company := by
  induction h with
  | refl => exact ⟨w.tally, rfl⟩
  | tail _ hstep ih =>
      obtain ⟨company, rfl⟩ := ih
      obtain ⟨company', hedit⟩ := hstep
      simp only [SyncEngine.machine] at hedit
      split at hedit <;> cases hedit
      exact ⟨company', rfl⟩

section calls

variable {P : World δ → Prop} {w : World δ}

/-- A call made where `P` holds. -/
theorem conforms_call {Q : Except Exn α → World δ → Prop} {e : Call δ}
    {k : Call.Resp e → Py δ α} (hP : Stable P) (hw : P w)
    (h : ∀ w c r w', P w → allow e c w → engine.exec e c w = some (r, w') →
      ReflTransGen (engine.Step ops allow) w w' ∧ engine.Conforms ops allow Q (k r) w') :
    engine.Conforms ops allow Q (.call e k) w := by
  intro w₁ hedits c r w₂ ha he
  obtain ⟨company, rfl⟩ := edits_setTally hedits
  exact h _ c r w₂ (hP w company hw) ha he

theorem conforms_clock {Q : Except Exn Int → World δ → Prop} (hP : Stable P) (hw : P w)
    (hQ : ∀ now w, P w → Q (.ok now) w) : engine.Conforms ops allow Q clock w := by
  refine conforms_call hP hw fun w c r w' hw _ he => ?_
  cases c <;> cases he
  exact ⟨.refl, hQ _ _ hw⟩

theorem conforms_now {Q : Except Exn String → World δ → Prop} {store : StateStore δ}
    (hP : Stable P) (hw : P w) (hQ : ∀ now w, P w → Q (.ok now) w) :
    engine.Conforms ops allow Q store.now w :=
  .bind (conforms_clock hP hw fun _ w hw => hQ _ w hw)

theorem conforms_sql {stmt : Stmt δ} {Q : Except Exn stmt.Result → World δ → Prop}
    (hP : Stable P) (hw : P w)
    (hok : ∀ w result db, P w → w.db.exec stmt = .ok (result, db) →
      ReflTransGen (engine.Step ops allow) w (w.commit stmt db) ∧
        Q (.ok result) (w.commit stmt db))
    (herror : ∀ w exc, P w → exc.Transient → Q (.error exc) w) :
    engine.Conforms ops allow Q (sql stmt) w := by
  refine .bind (conforms_call hP hw fun w c r w' hw _ he => ?_)
  rcases exec_sql he with ⟨result, db, hexec, rfl, rfl⟩ | ⟨exc, hexc, rfl, rfl⟩
  · exact ⟨(hok w result db hw hexec).1, (hok w result db hw hexec).2⟩
  · exact ⟨.refl, herror w' exc hw hexc⟩

/-- A statement that leaves the database as it is. -/
theorem conforms_select {stmt : Stmt δ} {Q : Except Exn stmt.Result → World δ → Prop}
    (hP : Stable P) (hw : P w)
    (hcommit : ∀ w : World δ, w.commit stmt w.db = w)
    (hok : ∀ w result db, P w → w.db.exec stmt = .ok (result, db) →
      db = w.db ∧ Q (.ok result) w)
    (herror : ∀ w exc, P w → exc.Transient → Q (.error exc) w) :
    engine.Conforms ops allow Q (sql stmt) w := by
  refine conforms_sql hP hw (fun w result db hw hexec => ?_) herror
  obtain ⟨rfl, hQ⟩ := hok w result db hw hexec
  rw [hcommit]
  exact ⟨.refl, hQ⟩

theorem conforms_selectCache {key : CacheKey}
    {Q : Except Exn (Option (CacheRow δ)) → World δ → Prop} (hP : Stable P) (hw : P w)
    (hok : ∀ w, P w → Q (.ok (w.db.syncCache key)) w)
    (herror : ∀ w exc, P w → exc.Transient → Q (.error exc) w) :
    engine.Conforms ops allow Q (sql (.selectCache key)) w := by
  refine conforms_select hP hw (fun w => rfl) (fun w result db hw hexec => ?_) herror
  cases hexec
  exact ⟨rfl, hok w hw⟩

/-- Writing a cache row for a name that is a string. -/
theorem conforms_upsertCache {store : StateStore δ} {key : CacheKey} {name doctype : String}
    {hash : Option δ} {Q : Except Exn Unit → World δ → Prop} (hP : Stable P) (hw : P w)
    (hok : ∀ w lastPushedAt, P w →
      engine.Step ops allow w (w.setCache key ⟨name, doctype, hash, lastPushedAt⟩) ∧
        Q (.ok ()) (w.setCache key ⟨name, doctype, hash, lastPushedAt⟩))
    (herror : ∀ w exc, P w → exc.Transient → Q (.error exc) w) :
    engine.Conforms ops allow Q (store.upsertCache key (.str name) doctype hash) w := by
  refine .bind (conforms_now hP hw fun lastPushedAt w hw => ?_)
  refine conforms_sql hP hw (fun w result db hw hexec => ?_) herror
  cases hexec
  exact ⟨.single (hok w lastPushedAt hw).1, (hok w lastPushedAt hw).2⟩

theorem conforms_resultOp {op : ResultOp} {Q : Except Exn EntitySyncResult → World δ → Prop}
    (hP : Stable P) (hw : P w)
    (h : ∀ w, P w → allow (.result op) .inMemory w →
      ReflTransGen (engine.Step ops allow) w (w.applyResult op) ∧
        Q (.ok (w.applyResult op).result) (w.applyResult op)) :
    engine.Conforms ops allow Q (resultOp op) w := by
  refine conforms_call hP hw fun w c r w' hw ha he => ?_
  cases c <;> cases he
  exact h w hw ha

/-- A result operation that leaves no trace in the history. -/
theorem conforms_count {op : ResultOp} {Q : Except Exn EntitySyncResult → World δ → Prop}
    (hop : ∀ w : World δ, w.applyResult op = { w with result := op.apply w.result })
    (hP : Stable P) (hw : P w)
    (hQ : ∀ w result, P w → Q (.ok result) { w with result := result }) :
    engine.Conforms ops allow Q (resultOp op) w := by
  refine conforms_resultOp hP hw fun w hw _ => ?_
  rw [hop]
  exact ⟨.single (.count _), hQ w _ hw⟩

/-! ## Retried requests -/

/-- A failed attempt that restores `P` may be repeated. -/
theorem conforms_retrying {Q : Except Exn α → World δ → Prop} {retryable : Exn → Bool}
    {extra : Nat} {p : Py δ α}
    (h : ∀ w, P w → engine.Conforms ops allow (fun r w' => match r with
      | .ok a => Q (.ok a) w'
      | .error exc => P w' ∧ Q (.error exc) w') p w) (hw : P w) :
    engine.Conforms ops allow Q (retrying retryable extra p) w := by
  induction extra generalizing w with
  | zero =>
      refine (h w hw).mono fun r w' hr => ?_
      cases r with
      | ok a => exact hr
      | error exc => exact hr.2
  | succ extra ih =>
      refine .tryCatch ((h w hw).mono fun r w' hr => ?_)
      cases r with
      | ok a => exact hr
      | error exc =>
          dsimp only
          split
          · exact ih hr.1
          · exact hr.2

/-- A request to Frappe: every attempt restores `P` if it fails. -/
theorem conforms_request {Q : Except Exn Json → World δ → Prop} {request : FrappeRequest}
    (hP : Stable P) (hw : P w)
    (h : ∀ w c outcome w', P w → allow (.frappe request) c w →
      engine.exec (.frappe request) c w = some (outcome, w') →
      ReflTransGen (engine.Step ops allow) w w' ∧
        match engine.frappe.readOutcome outcome with
        | .ok value => Q (.ok value) w'
        | .error _ => P w')
    (herror : ∀ w exc, P w → exc.Transient → Q (.error exc) w) :
    engine.Conforms ops allow Q (engine.frappe.request request) w := by
  refine .tryCatch (conforms_retrying (P := P) (fun w hw => ?_) hw)
  refine .bind (conforms_call hP hw fun w c outcome w' hw ha he => ?_)
  obtain ⟨hstep, hread⟩ := h w c outcome w' hw ha he
  refine ⟨hstep, .ofExcept ?_⟩
  cases hvalue : engine.frappe.readOutcome outcome with
  | ok value =>
      rw [hvalue] at hread
      exact hread
  | error exc =>
      rw [hvalue] at hread
      refine ⟨hread, ?_⟩
      -- whatever the decorator makes of the exception
      dsimp only
      split
      · exact herror _ _ hread rfl
      · exact herror _ _ hread (transient_of_readOutcome hvalue)

end calls

end TallyConnector
