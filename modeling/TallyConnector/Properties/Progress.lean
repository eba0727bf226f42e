import TallyConnector.Sync.Visits
import TallyConnector.World.Groups

/-! # What a failed fetch leaves behind

When Tally cannot be asked or its response cannot be parsed, the sync of an
entity writes its `since_alter_id` back. In an incremental sync that is the
stored checkpoint; in a full sync or a resync it is `None`, and the stored
checkpoint is lost.
-/

namespace TallyConnector

open Effects Prog

variable {δ : Type} {engine : SyncEngine δ} {outside : Outside δ} {spec : EntitySpec}
variable {s s' : Session δ} {new : List (Exchange δ)}

/-- Tally was asked for the entity. -/
def Asked (spec : EntitySpec) (new : List (Exchange δ)) : Prop :=
  ∃ request outcome, Exchange.fetched request outcome ∈ new ∧ request.entityName = spec.name

/-- Every request for the entity failed, or its response could not be parsed. -/
def SyncEngine.Unfetched (engine : SyncEngine δ) (spec : EntitySpec)
    (new : List (Exchange δ)) : Prop :=
  ∀ request outcome, Exchange.fetched request outcome ∈ new → request.entityName = spec.name →
    ∃ exc, engine.recordsOf spec outcome = .error exc

/-- Frappe is not asked, and the tables stay as they are, the entity's own
checkpoint apart. -/
structure Session.Untouched (entityName : String) (s : Session δ) (part : List (Exchange δ))
    (s' : Session δ) : Prop where
  requests : ∀ exchange ∈ part, exchange.isRequest = false
  retryQueue : s'.db.retryQueue = s.db.retryQueue
  syncCache : s'.db.syncCache = s.db.syncCache
  others : ∀ name, name ≠ entityName → s'.db.syncState name = s.db.syncState name

/-- The stored `last_alter_id` is what it was, and nothing else was touched:
what was exchanged for the entity, between what was exchanged for others, asks
Frappe nothing and leaves the tables alone. -/
structure SyncEngine.KeepsProgress (engine : SyncEngine δ) (spec : EntitySpec) (s : Session δ)
    (new : List (Exchange δ)) (s' : Session δ) : Prop where
  lastAlterId : s'.db.lastAlterId spec.name = s.db.lastAlterId spec.name
  replay : s' = s.replay new
  untouched : ∃ before part after, new = after ++ (part ++ before) ∧
    (∀ exchange ∈ after ++ before, engine.Elsewhere spec exchange) ∧
    (s.replay before).Untouched spec.name part (s.replay (part ++ before))

section synced

variable [DecidableEq δ]
variable {since : Option Int} {request : CollectionRequest} {r : Except Exn EntitySyncResult}

theorem SyncEngine.Collected.fetch_cases {maxAlterId : Option Int} {status : String}
    (h : engine.Collected outside spec since request s maxAlterId status s') :
    (maxAlterId = since ∧ s'.db = s.db ∧
      ∃ part, s.After part s' ∧ ∀ exchange ∈ part, exchange.isRequest = false) ∨
    ∃ part outcome records, s.After part s' ∧ Exchange.fetched request outcome ∈ part ∧
      engine.recordsOf spec outcome = .ok records := by
  cases h with
  | unfetched outcomes _ _ =>
      refine .inl ⟨rfl, rfl, opening spec request outcomes, after_opening, fun exchange hmem => ?_⟩
      rcases List.mem_append.mp hmem with hmem | hmem
      · obtain ⟨outcome, -, rfl⟩ := List.mem_map.mp hmem
        rfl
      · obtain rfl := List.mem_singleton.mp hmem
        rfl
  | fetched outcome rest records hrecords _ parts _ _ hpasses =>
      refine .inr ⟨_, outcome, records,
        (after_opening.trans (.count _ _)).trans hpasses.after, ?_, hrecords⟩
      simp [opening]

/-- A sync reads a response, or it ends by writing `since` back. -/
theorem SyncEngine.Synced.fetch_cases (hworks : ∀ stmt exc, ¬ outside.fault stmt exc)
    (h : engine.Synced outside spec since request s r s') :
    (∃ part, s.After part s' ∧ s.Untouched spec.name part s' ∧
      ((∃ row : SyncStateRow, row.lastAlterId = since ∧
          s'.db.syncState spec.name = some row) ∨
        (since.all fitsInt64 = false ∧ s'.db.syncState spec.name = s.db.syncState spec.name))) ∨
    ∃ part outcome records, s.After part s' ∧ Exchange.fetched request outcome ∈ part ∧
      engine.recordsOf spec outcome = .ok records := by
  cases h with
  | written maxAlterId status s₁ h row hrow _ _ =>
      -- the statement of the checkpoint was executed
      rcases h.fetch_cases with
        ⟨rfl, hdb, part, hpart, hquiet⟩ | ⟨part, outcome, records, hpart, hmem, hrecords⟩
      · -- `since` is written
        refine .inl ⟨_, hpart.written spec.name row, ⟨?_, ?_, ?_, ?_⟩,
          .inl ⟨row, hrow, Function.update_self ..⟩⟩
        · simpa [Exchange.isRequest] using hquiet
        · show s₁.db.retryQueue = s.db.retryQueue
          rw [hdb]
        · show s₁.db.syncCache = s.db.syncCache
          rw [hdb]
        · intro name hne
          refine (Function.update_of_ne hne _ _).trans ?_
          rw [hdb]
      · -- a response was read
        refine .inr ⟨_, outcome, records, hpart.written spec.name row, ?_, hrecords⟩
        exact List.mem_cons_of_mem _ (List.mem_cons_of_mem _ hmem)
  | unwritten maxAlterId status s₁ h row exc hexc =>
      -- it was refused
      rcases h.fetch_cases with
        ⟨rfl, hdb, part, hpart, hquiet⟩ | ⟨part, outcome, records, hpart, hmem, hrecords⟩
      · -- `since` does not fit
        have hfits : maxAlterId.all fitsInt64 = false := hexc.resolve_right (hworks _ _)
        refine .inl ⟨_, hpart.rejected (.upsertSyncState spec.name row) exc, ⟨?_, ?_, ?_, ?_⟩,
          .inr ⟨hfits, ?_⟩⟩
        · simpa [Exchange.isRequest] using hquiet
        · exact congrArg DB.retryQueue hdb
        · exact congrArg DB.syncCache hdb
        · exact fun name _ => congrFun (congrArg DB.syncState hdb) name
        · exact congrFun (congrArg DB.syncState hdb) spec.name
      · exact .inr ⟨_, outcome, records, hpart.rejected _ exc, List.mem_cons_of_mem _ hmem,
          hrecords⟩
  | interrupted outcome outcomes records hrecords _ parts raw rest _ s₁ _ new exc hpasses htreated =>
      -- the loop over the records of a response was left
      refine .inr ⟨_, outcome, records, ((after_opening.trans (.count _ _)).trans
        hpasses.after).trans htreated.after, ?_, hrecords⟩
      simp [opening]

end synced

section operation

variable {op : Operation} {r : Except Exn Unit}

theorem Session.readCheckpoint_db {incremental : Bool} {entityName : String} :
    (s.readCheckpoint incremental entityName).db = s.db := by
  cases incremental <;> rfl

theorem Session.Untouched.readCheckpoint {incremental : Bool} {part : List (Exchange δ)}
    (hpart : (s.readCheckpoint incremental spec.name).After part s')
    (h : (s.readCheckpoint incremental spec.name).Untouched spec.name part s') :
    ∃ part', s.After part' s' ∧ s.Untouched spec.name part' s' := by
  obtain ⟨hquiet, hqueue, hcache, hothers⟩ := h
  rw [Session.readCheckpoint_db] at hqueue hcache
  simp only [Session.readCheckpoint_db] at hothers
  cases incremental with
  | false => exact ⟨part, hpart, hquiet, hqueue, hcache, hothers⟩
  | true =>
      have hread : s.After [.executed (.selectSyncState spec.name)]
          (s.readCheckpoint true spec.name) := rfl
      refine ⟨_, hread.trans hpart, fun exchange hmem => ?_, hqueue, hcache, hothers⟩
      rcases List.mem_append.mp hmem with hmem | hmem
      · exact hquiet exchange hmem
      · obtain rfl := List.mem_singleton.mp hmem
        rfl

theorem SyncEngine.Leaves.not_asked (h : engine.Leaves spec s s') (hnew : s.After new s') :
    ¬ Asked spec new := by
  rintro ⟨request, outcome, hmem, hname⟩
  exact h.not_fetched hnew hname hmem

variable [DecidableEq δ]

end operation

/-! ## Tally down -/

/-- A database with a checkpoint for groups. -/
def storedGroups (lastAlterId : Option Int) : Session Dict where
  db :=
    let empty : DB Dict := .empty
    { empty with
      syncState := Function.update empty.syncState "group"
        (some ⟨"2024-01-01T00:00:00+00:00", lastAlterId, "ok", "2024-01-01T00:00:00+00:00"⟩) }
  result := { entityName := "" }
  history := []

/-- A group sync that is told that Tally timed out. -/
theorem exists_run_timeout (op : Operation) (lastAlterId : Option Int) (replies : List Reply)
    (hplay : ((play Outside.reliableExec replies ((groupEngine 1 []).prog op)
      (storedGroups lastAlterId)).any fun final =>
        final.2.history.any (Exchange.isFetch fun request _ => request.entityName == "group") ∧
        final.2.history.all (fun exchange =>
          !exchange.isFetch fun _ outcome => outcome != .timeout)) = true) :
    ∃ r s', ((groupEngine 1 []).prog op).Runs Outside.reliableStore.step
        (storedGroups lastAlterId) r s' ∧
      play Outside.reliableExec replies ((groupEngine 1 []).prog op) (storedGroups lastAlterId) =
        some (r, s') ∧
      Asked group s'.history ∧ (groupEngine 1 []).Unfetched group s'.history := by
  obtain ⟨⟨r, s'⟩, hrun, hfinal⟩ := (Option.any_eq_true _ _).mp hplay
  obtain ⟨hany, hall⟩ := of_decide_eq_true hfinal
  refine ⟨r, s', runs_of_play Outside.step_of_reliableExec hrun, hrun, ?_, ?_⟩
  · rcases exists_fetched hany with ⟨request, outcome, hmem, hname⟩
    exact ⟨request, outcome, hmem, eq_of_beq hname⟩
  · intro request outcome hmem _
    obtain rfl : outcome = .timeout := by
      simpa [Exchange.isFetch] using List.all_eq_true.mp hall _ hmem
    exact ⟨_, rfl⟩

end TallyConnector
