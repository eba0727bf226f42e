import TallyConnector.Effects.Always
import TallyConnector.Sync.Engine

/-! # An outside that may answer anything

For statements that hold whatever Tally and Frappe answer: a session is the
database and the result object together with the history of the exchanges.
Statements have their effect on the database; everything else an `Outside`
leaves open is open.
-/

namespace TallyConnector

open Effects Prog

variable {δ : Type}

/-- One exchange of the connector, a reading of the clock apart. -/
inductive Exchange (δ : Type) where
  | fetched (request : CollectionRequest) (outcome : TallyOutcome)
  | requested (request : FrappeRequest) (outcome : HttpOutcome)
  /-- The statement was committed. -/
  | executed (stmt : Stmt δ)
  /-- The statement raised. -/
  | rejected (stmt : Stmt δ) (exc : Exn)
  | counted (op : ResultOp)

/-- The call of an exchange. -/
def Exchange.call : Exchange δ → Call δ
  | .fetched request _ => .tally request
  | .requested request _ => .frappe request
  | .executed stmt => .sql stmt
  | .rejected stmt _ => .sql stmt
  | .counted op => .result op

def Exchange.isRequest : Exchange δ → Bool
  | .requested _ _ => true
  | _ => false

/-- The exchange is a fetch of which this holds. -/
def Exchange.isFetch (p : CollectionRequest → TallyOutcome → Bool) : Exchange δ → Bool
  | .fetched request outcome => p request outcome
  | _ => false

theorem exists_fetched {p : CollectionRequest → TallyOutcome → Bool}
    {history : List (Exchange δ)} (h : history.any (Exchange.isFetch p) = true) :
    ∃ request outcome, Exchange.fetched request outcome ∈ history ∧ p request outcome = true := by
  rcases List.any_eq_true.mp h with ⟨exchange, hmem, hfetch⟩
  cases exchange with
  | fetched request outcome => exact ⟨request, outcome, hmem, hfetch⟩
  | requested | executed | rejected | counted => cases hfetch

structure Session (δ : Type) where
  db : DB δ
  result : EntitySyncResult
  /-- The latest first. -/
  history : List (Exchange δ)

/-- How a call is answered. -/
inductive Reply where
  | clock (now : Int)
  | tally (outcome : TallyOutcome)
  | frappe (outcome : HttpOutcome)
  /-- Executed; the only way a result operation goes. -/
  | done
  /-- The statement fails. -/
  | fault (exc : Exn)

namespace Session

/-- A new process on a fresh database file. -/
def fresh : Session δ := ⟨.empty, { entityName := "" }, []⟩

def add (s : Session δ) (exchange : Exchange δ) : Session δ :=
  { s with history := exchange :: s.history }

/-- A committed statement. -/
def execute (s : Session δ) (stmt : Stmt δ) (db : DB δ) : Session δ :=
  { s with db := db, history := .executed stmt :: s.history }

/-- A result operation. -/
def count (s : Session δ) (op : ResultOp) : Session δ :=
  { s with result := op.apply s.result, history := .counted op :: s.history }

/-- A statement that is not made to fail. -/
def execSql (s : Session δ) (stmt : Stmt δ) : Except Exn stmt.Result × Session δ :=
  match s.db.exec stmt with
  | .ok (result, db) => (.ok result, s.execute stmt db)
  | .error exc => (.error exc, s.add (.rejected stmt exc))

/-- A call, answered as the reply says. -/
def exec : (e : Call δ) → Reply → Session δ → Option (Call.Resp e × Session δ)
  | .clock, .clock now, s => some (now, s)
  | .tally request, .tally outcome, s => some (outcome, s.add (.fetched request outcome))
  | .frappe request, .frappe outcome, s => some (outcome, s.add (.requested request outcome))
  | .sql stmt, .done, s => some (s.execSql stmt)
  | .sql stmt, .fault exc, s => some (.error exc, s.add (.rejected stmt exc))
  | .result op, .done, s => some (op.apply s.result, s.count op)
  | _, _, _ => none

end Session

/-- What is left open: how Frappe answers, and which statements fail. The
exceptions of `sqlite3` are not the connector's own. -/
structure Outside (δ : Type) where
  frappe : FrappeRequest → HttpOutcome → Prop
  fault : Stmt δ → Exn → Prop
  transient : ∀ stmt exc, fault stmt exc → exc.isPermanent = false

namespace Outside

/-- Frappe answers anything, and the database works. -/
def reliableStore : Outside δ where
  frappe _ _ := True
  fault _ _ := False
  transient _ _ h := h.elim

def allows (outside : Outside δ) : Call δ → Reply → Prop
  | .frappe request, .frappe outcome => outside.frappe request outcome
  | .sql stmt, .fault exc => outside.fault stmt exc
  | _, _ => True

/-- The answers to a call. -/
def step (outside : Outside δ) : Answering (@Call.Resp δ) (Session δ) :=
  fun e s r s' => ∃ reply, outside.allows e reply ∧ Session.exec e reply s = some (r, s')

/-- A call while the database works. -/
def reliableExec (e : Call δ) (reply : Reply) (s : Session δ) :
    Option (Call.Resp e × Session δ) :=
  match reply with
  | .fault _ => none
  | reply => Session.exec e reply s

theorem step_of_reliableExec (e : Call δ) (reply : Reply) (s : Session δ) (r : Call.Resp e)
    (s' : Session δ) (h : reliableExec e reply s = some (r, s')) :
    reliableStore.step e s r s' := by
  cases reply with
  | fault exc => cases h
  | clock now => exact ⟨_, by cases e <;> trivial, h⟩
  | tally outcome => exact ⟨_, by cases e <;> trivial, h⟩
  | frappe outcome => exact ⟨_, by cases e <;> trivial, h⟩
  | done => exact ⟨_, by cases e <;> trivial, h⟩

end Outside

variable {outside : Outside δ} {s s' : Session δ}

/-! ## Calls -/

theorem open_clock {Q : Except Exn Int → Session δ → Prop} (h : ∀ now, Q (.ok now) s) :
    (clock : Py δ Int).Always outside.step Q s := by
  rintro now s' ⟨reply, -, he⟩
  cases reply <;> cases he
  exact h _

theorem open_now {store : StateStore δ} {Q : Except Exn String → Session δ → Prop}
    (h : ∀ now, Q (.ok now) s) : store.now.Always outside.step Q s :=
  .bind (open_clock fun _ => h _)

theorem open_resultOp {op : ResultOp} {Q : Except Exn EntitySyncResult → Session δ → Prop}
    (h : Q (.ok (op.apply s.result)) (s.count op)) :
    (resultOp op : Py δ _).Always outside.step Q s := by
  rintro result s' ⟨reply, -, he⟩
  cases reply <;> cases he
  exact h

theorem open_sql {stmt : Stmt δ} {Q : Except Exn stmt.Result → Session δ → Prop}
    (hok : ∀ result db, s.db.exec stmt = .ok (result, db) → Q (.ok result) (s.execute stmt db))
    (herror : ∀ exc, (s.db.exec stmt = .error exc ∨ outside.fault stmt exc) →
      Q (.error exc) (s.add (.rejected stmt exc))) :
    (sql stmt).Always outside.step Q s := by
  refine .bind ?_
  rintro r s' ⟨reply, hallows, he⟩
  cases reply with
  | done =>
      change some (s.execSql stmt) = some (_, s') at he
      unfold Session.execSql at he
      split at he
      · next hexec =>
        cases he
        exact hok _ _ hexec
      · next hexec =>
        cases he
        exact herror _ (.inl hexec)
  | fault exc =>
      cases he
      exact herror _ (.inr hallows)
  | _ => cases he

/-- What was exchanged in between. -/
def Session.After (s : Session δ) (new : List (Exchange δ)) (s' : Session δ) : Prop :=
  s'.history = new ++ s.history

namespace Session.After

variable {s₁ : Session δ} {new new' : List (Exchange δ)}

theorem refl (s : Session δ) : s.After [] s := rfl

theorem trans (h : s.After new s₁) (h' : s₁.After new' s') : s.After (new' ++ new) s' := by
  unfold Session.After at h h' ⊢
  rw [h', h, List.append_assoc]

theorem count (s : Session δ) (op : ResultOp) : s.After [.counted op] (s.count op) := rfl

theorem unique (h : s.After new s') (h' : s.After new' s') : new = new' :=
  List.append_cancel_right (h.symm.trans h')

end Session.After

/-! ## Replaying exchanges -/

namespace Session

/-- The session after an exchange. -/
def take (s : Session δ) : Exchange δ → Session δ
  | .executed stmt =>
      match s.db.exec stmt with
      | .ok (_, db) => s.execute stmt db
      | .error _ => s.add (.executed stmt)
  | .counted op => s.count op
  | exchange => s.add exchange

/-- The session that exchanges lead to, the latest first. But for the readings
of the clock, a run is its exchanges, and these are all the sessions on it. -/
def replay (s : Session δ) (new : List (Exchange δ)) : Session δ :=
  new.foldr (fun exchange s => s.take exchange) s

@[simp] theorem replay_nil : s.replay [] = s := rfl

@[simp] theorem replay_cons {exchange : Exchange δ} {new : List (Exchange δ)} :
    s.replay (exchange :: new) = (s.replay new).take exchange := rfl

theorem replay_append {new new' : List (Exchange δ)} :
    s.replay (new' ++ new) = (s.replay new).replay new' := List.foldr_append

theorem take_history {exchange : Exchange δ} :
    (s.take exchange).history = exchange :: s.history := by
  cases exchange with
  | executed stmt =>
      simp only [take]
      split <;> rfl
  | _ => rfl

theorem after_replay (s : Session δ) (new : List (Exchange δ)) : s.After new (s.replay new) := by
  induction new with
  | nil => rfl
  | cons exchange new ih =>
      unfold Session.After at ih ⊢
      rw [replay_cons, take_history, ih, List.cons_append]

end Session

/-- A call leaves at most one exchange behind, which does all that it did. -/
theorem replay_of_step {e : Call δ} {r : Call.Resp e} (h : outside.step e s r s') :
    ∃ new, s' = s.replay new ∧ ∀ exchange ∈ new, exchange.call = e := by
  obtain ⟨reply, -, he⟩ := h
  cases e with
  | clock =>
      cases reply <;> cases he
      exact ⟨[], rfl, by simp⟩
  | tally request =>
      cases reply <;> cases he
      exact ⟨[.fetched request r], rfl, by simp [Exchange.call]⟩
  | frappe request =>
      cases reply <;> cases he
      exact ⟨[.requested request r], rfl, by simp [Exchange.call]⟩
  | sql stmt =>
      cases reply with
      | done =>
          -- the statement is executed, or refused by its own check
          change some (s.execSql stmt) = some (_, s') at he
          unfold Session.execSql at he
          split at he
          · next hexec =>
            cases he
            refine ⟨[.executed stmt], ?_, by simp [Exchange.call]⟩
            simp only [Session.replay_cons, Session.replay_nil, Session.take, hexec]
          · cases he
            exact ⟨[.rejected stmt _], rfl, by simp [Exchange.call]⟩
      | fault exc =>
          -- the database failed
          cases he
          exact ⟨[.rejected stmt exc], rfl, by simp [Exchange.call]⟩
      | _ => cases he
  | result op =>
      cases reply <;> cases he
      exact ⟨[.counted op], rfl, by simp [Exchange.call]⟩

/-- A run is what its exchanges lead to, and they are the program's calls. -/
theorem replay_of_runs {α : Type} {P : Call δ → Prop} {p : Py δ α} (hp : p.All P)
    {r : Except Exn α} (hrun : p.Runs outside.step s r s') :
    ∃ new, s' = s.replay new ∧ ∀ exchange ∈ new, P exchange.call := by
  refine Runs.of_all (I := fun (s s' : Session δ) =>
    ∃ new, s' = s.replay new ∧ ∀ exchange ∈ new, P exchange.call) hp
    (fun s => ⟨[], rfl, by simp⟩) ?_ ?_ hrun
  · rintro s s₁ s₂ ⟨new, rfl, hall⟩ ⟨new', rfl, hall'⟩
    exact ⟨new' ++ new, Session.replay_append.symm, fun exchange hmem =>
      (List.mem_append.mp hmem).elim (hall' exchange) (hall exchange)⟩
  · intro e s r s' he hstep
    obtain ⟨new, rfl, hall⟩ := replay_of_step hstep
    exact ⟨new, rfl, fun exchange hmem => hall exchange hmem ▸ he⟩

end TallyConnector
