import TallyConnector.World.Environment
import TallyConnector.World.Site

/-! # Two Frappe targets on one store

A run in which the connector is configured now with one target, now with
another, always with the same state database. What the own target gets to see
of it can be compared with the run in which the other target's operations are
left out.
-/

namespace TallyConnector

variable {δ σ τ : Type}

/-- The engine configured with another Frappe target. -/
def SyncEngine.target (engine : SyncEngine δ) (baseUrl : String) : SyncEngine δ :=
  { engine with settings := { engine.settings with frappeBaseUrl := baseUrl } }

/-- An environment with another Tally. -/
def Environment.withTally (env : Environment δ σ) (tally : CollectionRequest → TallyOutcome) :
    Environment δ σ :=
  { env with tally := fun request s => (tally request, s) }

/-- One operation in a run on a shared store. -/
structure Turn where
  /-- The connector is configured with the other target. -/
  other : Bool
  op : Operation
  /-- Tally's records at that time. -/
  company : Company
  /-- Tally's answers. -/
  tally : CollectionRequest → TallyOutcome

/-- The store two targets share, and the processes configured with each. -/
structure Shared (δ σ τ : Type) where
  db : DB δ
  own : Side σ
  other : Side τ

namespace SyncEngine

variable [DecidableEq δ] (engine : SyncEngine δ) (ownUrl otherUrl : String)
variable (ownEnv : Environment δ σ) (otherEnv : Environment δ τ)

/-- The world after an operation. -/
def takeTurn (w : Shared δ σ τ) (turn : Turn) : Shared δ σ τ :=
  if turn.other then
    let w' := ((otherEnv.withTally turn.tally).run ((engine.target otherUrl).prog turn.op)
      { toSide := w.other, db := w.db }).2
    { w with db := w'.db, other := w'.toSide }
  else
    let w' := ((ownEnv.withTally turn.tally).run ((engine.target ownUrl).prog turn.op)
      { toSide := w.own, db := w.db }).2
    { w with db := w'.db, own := w'.toSide }

def takeTurns (turns : List Turn) (w : Shared δ σ τ) : Shared δ σ τ :=
  turns.foldl (engine.takeTurn ownUrl otherUrl ownEnv otherEnv) w

/-- The turns are a history of one Tally company. -/
structure History (turns : List Turn) : Prop where
  evolves : (turns.map (·.company)).IsChain Company.Evolves
  wellFormed : ∀ turn ∈ turns, turn.company.WellFormed engine.registry
  snapshots : ∀ turn ∈ turns, ∀ request,
    engine.Snapshot { request, outcome := turn.tally request, company := turn.company }

/-- Whatever is done for the other target in between, these operations send
and report the same. -/
def Isolated (ops : List Operation) : Prop :=
  ∀ (σ τ : Type) (ownEnv : Environment δ σ) (otherEnv : Environment δ τ) (w : Shared δ σ τ)
    (turns : List Turn), engine.History turns →
      (turns.filter fun turn => !turn.other).map (·.op) = ops →
        (engine.takeTurns ownUrl otherUrl ownEnv otherEnv turns w).own.reports =
          (engine.takeTurns ownUrl otherUrl ownEnv otherEnv
            (turns.filter fun turn => !turn.other) w).own.reports

end SyncEngine

/-- The operations that read a table the targets share. -/
def Operation.Shares : Operation → Prop
  | .incrementalSync => True
  | .processRetryQueue limit => fitsInt64 limit = true ∧ limit ≠ 0
  | _ => False

end TallyConnector
