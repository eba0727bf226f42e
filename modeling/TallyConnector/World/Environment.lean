import TallyConnector.Sync.Engine

/-! # Deterministic environments

For statements that compare runs, or say how one operation ends: the outside
of the connector is an automaton with an arbitrary state, which may answer
each call as it likes. The database is the one thing it has no say in, except
that it can make a statement fail.
-/

namespace TallyConnector

open Effects

structure Environment (δ σ : Type) where
  clock : σ → Int × σ
  tally : CollectionRequest → σ → TallyOutcome × σ
  frappe : FrappeRequest → σ → HttpOutcome × σ
  /-- The exception of a statement that fails. -/
  sqlError : Stmt δ → σ → Option Exn

/-- What a Frappe target receives, and what is counted about a record. -/
inductive Report where
  | request (request : FrappeRequest)
  | created (push : Push)
  | updated (push : Push)
  | unchanged (push : Push)
deriving DecidableEq

def ResultOp.reports : ResultOp → List Report
  | .created push => [.created push]
  | .updated push => [.updated push]
  | .unchanged push => [.unchanged push]
  | _ => []

/-- One connector process and its environment, the database apart. -/
structure Side (σ : Type) where
  state : σ
  result : EntitySyncResult := { entityName := "" }
  /-- The latest first. -/
  reports : List Report := []

structure Local (δ σ : Type) extends Side σ where
  db : DB δ

namespace Environment

variable {δ σ : Type} (env : Environment δ σ)

/-- The answer to a call. -/
def answer : (e : Call δ) → Local δ σ → Call.Resp e × Local δ σ
  | .clock, w => ((env.clock w.state).1, { w with state := (env.clock w.state).2 })
  | .tally request, w =>
      ((env.tally request w.state).1, { w with state := (env.tally request w.state).2 })
  | .frappe request, w =>
      ((env.frappe request w.state).1, { w with
        state := (env.frappe request w.state).2
        reports := .request request :: w.reports })
  | .sql stmt, w =>
      match env.sqlError stmt w.state with
      | some exc => (.error exc, w)
      | none =>
          match w.db.exec stmt with
          | .ok (result, db) => (.ok result, { w with db := db })
          | .error exc => (.error exc, w)
  | .result op, w =>
      (op.apply w.result, { w with
        result := op.apply w.result
        reports := op.reports ++ w.reports })

variable {env} {w : Local δ σ}

/-- A statement that does not fail is executed. -/
theorem answer_sql {stmt : Stmt δ} {result : stmt.Result} {db : DB δ}
    (hnone : env.sqlError stmt w.state = none) (hexec : w.db.exec stmt = .ok (result, db)) :
    env.answer (.sql stmt) w = (.ok result, { w with db := db }) := by
  simp only [answer, hnone, hexec]

theorem answer_selectCache {key : CacheKey}
    (hnone : env.sqlError (.selectCache key) w.state = none) :
    env.answer (.sql (.selectCache key)) w = (.ok (w.db.syncCache key), w) :=
  answer_sql hnone rfl

variable (env)

/-- The run of a program. -/
def run {α : Type} (p : Py δ α) (w : Local δ σ) : Except Exn α × Local δ σ :=
  Prog.run env.answer p w

end Environment

end TallyConnector
