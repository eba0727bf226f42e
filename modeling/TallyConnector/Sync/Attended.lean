import TallyConnector.Sync.Alike
import TallyConnector.Tally.Rows

/-! # The records of a response

The records of a response that can be read are treated one after the other,
between the fetch and the checkpoint, and nothing else is done for records of
the entity. If their natural keys are distinct, each of them is treated as its
own content, the cache row it had before and Frappe's answers say, whatever
else the response holds.
-/

namespace TallyConnector

open Effects Prog

variable {δ : Type} {engine : SyncEngine δ} {outside : Outside δ} {spec : EntitySpec}
variable {s s' s₁ : Session δ} {new new' : List (Exchange δ)}

/-! ## What is done for records -/

/-- Statements on the rows of a record. -/
def Stmt.Handles : Stmt δ → Prop
  | .selectCache _ => True
  | .upsertCache _ _ _ _ _ => True
  | .upsertRetry _ _ _ _ _ _ _ => True
  | _ => False

/-- The exchange belongs to the treatment of some record. -/
def Exchange.Handles : Exchange δ → Prop
  | .fetched _ _ => False
  | .requested _ _ => True
  | .executed stmt => stmt.Handles
  | .rejected stmt _ => stmt.Handles
  | .counted (.new _) => False
  | .counted (.fetched _) => False
  | .counted .read => False
  | .counted _ => True

theorem Exchange.isRequest_of_not_handles {exchange : Exchange δ} (h : ¬ exchange.Handles) :
    exchange.isRequest = false := by
  cases exchange with
  | requested request outcome => exact absurd trivial h
  | _ => rfl

theorem Session.syncCache_take {exchange : Exchange δ} (h : ¬ exchange.Handles) :
    (s.take exchange).db.syncCache = s.db.syncCache := by
  cases exchange with
  | executed stmt =>
      simp only [Session.take]
      split
      · next db hexec =>
        cases stmt with
        | selectCache key => exact absurd trivial h
        | upsertCache key name doctype hash lastPushedAt => exact absurd trivial h
        | upsertRetry name guid operation payload nextAttemptAt error createdAt =>
            exact absurd trivial h
        | upsertSyncState name row =>
            -- the statements on the other tables
            simp only [DB.exec] at hexec
            split at hexec <;> cases hexec
            rfl
        | selectDue now limit =>
            simp only [DB.exec] at hexec
            split at hexec <;> cases hexec
            rfl
        | _ =>
            cases hexec
            rfl
      · rfl
  | _ => rfl

/-! ## The loop and its frame -/

/-- The natural key is one of the text fields. -/
def EntitySpec.TextKey (spec : EntitySpec) : Prop :=
  spec.naturalKeyField ≠ "ledger_entries" ∧ spec.naturalKeyField ≠ "inventory_entries"

instance (spec : EntitySpec) : Decidable spec.TextKey := inferInstanceAs (Decidable (_ ∧ _))

/-- The key a parsed record is queued under can be bound. -/
theorem bindTextNotNull_recordGuid (hkey : spec.TextKey) {outcome : TallyOutcome}
    {records : List Record} (hrecords : engine.recordsOf spec outcome = .ok records)
    {raw : Record} (hraw : raw ∈ records) (column : String) {exc : Exn} :
    bindTextNotNull column (SyncEngine.recordGuid spec raw) ≠ .error exc := by
  have htext : TextOutsideLists raw := by
    unfold SyncEngine.recordsOf at hrecords
    split at hrecords
    · exact textOutsideLists_of_mem hrecords hraw
    · cases hrecords
  have hguid : ∃ text, SyncEngine.recordGuid spec raw = .str text := by
    unfold SyncEngine.recordGuid
    cases hlookup : raw.lookup spec.naturalKeyField with
    | some value => exact htext _ hkey.1 hkey.2 value hlookup
    | none =>
        cases hguid : raw.lookup "guid" with
        | some value => exact htext _ (by decide) (by decide) value hguid
        | none => exact ⟨"unknown", rfl⟩
  obtain ⟨text, htext⟩ := hguid
  rw [htext]
  simp

theorem Session.replay_fetch {request : CollectionRequest} {outcomes : List TallyOutcome} :
    s.fetch request outcomes = s.replay (outcomes.map (.fetched request)) := by
  induction outcomes with
  | nil => rfl
  | cons outcome outcomes ih =>
      rw [List.map_cons, Session.replay_cons, ← ih]
      rfl

theorem Session.replay_readCheckpoint (incremental : Bool) (entityName : String) :
    ∃ part, s.readCheckpoint incremental entityName = s.replay part ∧
      ∀ exchange ∈ part, exchange = .executed (.selectSyncState entityName) := by
  cases incremental with
  | false => exact ⟨[], rfl, by simp⟩
  | true => exact ⟨[.executed (.selectSyncState entityName)], rfl, by simp⟩

theorem SyncEngine.Leaves.sinceOf {incremental : Bool} (h : engine.Leaves spec s s') :
    s'.db.sinceOf incremental spec.name = s.db.sinceOf incremental spec.name := by
  unfold DB.sinceOf
  split
  · exact congrArg (Option.bind · _) h.sameFor.syncState
  · rfl

variable [DecidableEq δ]

theorem SyncEngine.Passes.runs {parts : List (Part δ)}
    (h : engine.Passes outside spec s parts s') : ∀ part ∈ parts,
      (engine.syncRecord spec (engine.mapping.entry spec.name) part.raw).Runs outside.step
        part.before (.ok ()) part.after ∧ part.before.After part.new part.after := by
  induction h with
  | nil s => simp
  | cons hbefore hrun htreated _ ih =>
      exact List.forall_mem_cons.mpr ⟨⟨hrun, htreated.after⟩, ih⟩

theorem SyncEngine.Passes.replay {parts : List (Part δ)}
    (h : engine.Passes outside spec s parts s') : s' = s.replay (exchanges parts) := by
  induction h with
  | nil s => rfl
  | @cons s s' part parts hbefore hrun htreated _ ih =>
      subst hbefore
      obtain ⟨new, hnew, -⟩ := replay_of_runs (all_true _) hrun
      have hpart : part.new = new := htreated.after.unique (hnew ▸ Session.after_replay _ new)
      rw [ih, hnew, exchanges, Session.replay_append, hpart]

section synced

variable {since : Option Int} {request request' : CollectionRequest} {outcome : TallyOutcome}
variable {records : List Record} {r : Except Exn EntitySyncResult}

/-- A sync asks for one collection. -/
theorem SyncEngine.Synced.request_eq (h : engine.Synced outside spec since request s r s')
    (hnew : s.After new s') (hmem : Exchange.fetched request' outcome ∈ new) :
    request' = request := by
  -- until the row is written, the one fetch is that of the request
  have hcollected : ∀ {maxAlterId status s₁ part},
      engine.Collected outside spec since request s maxAlterId status s₁ → s.After part s₁ →
        Exchange.fetched request' outcome ∈ part → request' = request := by
    intro maxAlterId status s₁ part h hpart hmem
    cases h with
    | unfetched outcomes _ _ =>
        rw [hpart.unique after_opening] at hmem
        exact (fetched_mem_opening.mp hmem).1
    | fetched outcome' rest records _ _ parts _ _ hpasses =>
        rw [hpart.unique ((after_opening.trans (.count _ _)).trans hpasses.after)] at hmem
        rcases List.mem_append.mp hmem with hmem | hmem
        · exact absurd hmem hpasses.not_fetched
        · exact (fetched_mem_opening.mp (List.mem_of_ne_of_mem (by simp) hmem)).1
  cases h with
  | written maxAlterId status s₁ h row _ _ _ =>
      obtain ⟨part, hpart⟩ := h.after
      rw [hnew.unique (hpart.written spec.name row)] at hmem
      exact hcollected h hpart (by simpa using hmem)
  | unwritten maxAlterId status s₁ h row exc _ =>
      obtain ⟨part, hpart⟩ := h.after
      rw [hnew.unique (hpart.rejected (.upsertSyncState spec.name row) exc)] at hmem
      exact hcollected h hpart (by simpa using hmem)
  | interrupted outcome' outcomes records _ _ parts raw rest _ s₁ _ new' exc hpasses htreated =>
      rw [hnew.unique (((after_opening.trans (.count _ _)).trans hpasses.after).trans
        htreated.after)] at hmem
      rcases List.mem_append.mp hmem with hmem | hmem
      · exact absurd hmem htreated.not_fetched
      · rcases List.mem_append.mp hmem with hmem | hmem
        · exact absurd hmem hpasses.not_fetched
        · exact (fetched_mem_opening.mp (List.mem_of_ne_of_mem (by simp) hmem)).1

/-- The records of a response that can be read are all treated, and what comes
before and after is no treatment. -/
theorem SyncEngine.Synced.passes (h : engine.Synced outside spec since request s r s')
    (hworks : ∀ stmt exc, ¬ outside.fault stmt exc) (hkey : spec.TextKey)
    (hnew : s.After new s') (hmem : Exchange.fetched request' outcome ∈ new)
    (hrecords : engine.recordsOf spec outcome = .ok records) :
    ∃ before parts after, parts.map (·.raw) = records ∧
      new = after ++ (exchanges parts ++ before) ∧
      (∀ exchange ∈ after ++ before, ¬ exchange.Handles) ∧
      engine.Passes outside spec (s.replay before) parts (s.replay (exchanges parts ++ before)) ∧
      (s.replay before).db = s.db ∧
      (s.replay (exchanges parts ++ before)).db.syncCache = s'.db.syncCache := by
  have hfinish : ∀ (after : List (Exchange δ)) {maxAlterId status s₁ part},
      engine.Collected outside spec since request s maxAlterId status s₁ → s.After part s₁ →
        s₁.db.syncCache = s'.db.syncCache → new = after ++ part →
          (∀ exchange ∈ after, ¬ exchange.Handles ∧
            ∀ request outcome, exchange ≠ .fetched request outcome) →
            ∃ before parts after, parts.map (·.raw) = records ∧
              new = after ++ (exchanges parts ++ before) ∧
              (∀ exchange ∈ after ++ before, ¬ exchange.Handles) ∧
              engine.Passes outside spec (s.replay before) parts
                (s.replay (exchanges parts ++ before)) ∧
              (s.replay before).db = s.db ∧
              (s.replay (exchanges parts ++ before)).db.syncCache = s'.db.syncCache := by
    rintro after maxAlterId status s₁ part hcollected hpart hdb rfl hafter
    have hmem' : Exchange.fetched request' outcome ∈ part :=
      (List.mem_append.mp hmem).resolve_left fun hmem => (hafter _ hmem).2 _ _ rfl
    obtain ⟨-, outcomes, parts, hparts, rfl, hpasses⟩ :=
      hcollected.of_fetched hpart hmem' hrecords
    -- the session the loop starts from, by its exchanges
    let before : List (Exchange δ) :=
      .counted (.fetched records.length) :: opening spec request outcomes
    have hstart : ((s.count (.new spec.name)).fetch request outcomes).count
        (.fetched records.length) = s.replay before := by
      rw [Session.replay_cons, opening, Session.replay_append, Session.replay_fetch]
      rfl
    have hdb₀ : (s.replay before).db = s.db := by
      rw [← hstart]
      rfl
    rw [hstart] at hpasses
    have hstop := hpasses.replay
    rw [← Session.replay_append] at hstop
    refine ⟨before, parts, after, hparts, rfl, fun exchange hmem => ?_, hstop ▸ hpasses, hdb₀,
      hstop ▸ hdb⟩
    rcases List.mem_append.mp hmem with hmem | hmem
    · exact (hafter exchange hmem).1
    · simp only [before, opening, List.mem_cons, List.mem_append, List.mem_map, List.not_mem_nil,
        or_false] at hmem
      rcases hmem with rfl | ⟨outcome, -, rfl⟩ | rfl <;> exact id
  cases h with
  | written maxAlterId status s₁ h row _ _ _ =>
      obtain ⟨part, hpart⟩ := h.after
      refine hfinish [.counted .read, .executed (.upsertSyncState spec.name row)]
        h hpart rfl (hnew.unique (hpart.written _ _)) ?_
      simp [Exchange.Handles, Stmt.Handles]
  | unwritten maxAlterId status s₁ h row exc _ =>
      obtain ⟨part, hpart⟩ := h.after
      refine hfinish [.rejected (.upsertSyncState spec.name row) exc]
        h hpart rfl (hnew.unique (hpart.rejected _ _)) ?_
      simp [Exchange.Handles, Stmt.Handles]
  | interrupted outcome' outcomes records' hrecords' hfails parts raw rest hparts s₁ _ new' exc
      hpasses htreated =>
      -- a record that was parsed can be queued
      cases htreated with
      | aborted item hspec hraw hpushed stmt exc' hexc' =>
          rcases hexc' with hbind | hfault
          · refine absurd hbind (bindTextNotNull_recordGuid hkey hrecords' ?_ _)
            rw [hparts]
            simp
          · exact absurd hfault (hworks _ _)

end synced

/-! ## A whole operation -/

/-- The records of a response in a run, each with its part of the exchanges.
Whatever else is done for records is done for other entities. -/
structure SyncEngine.Attended (engine : SyncEngine δ) (outside : Outside δ) (spec : EntitySpec)
    (records : List Record) (s : Session δ) (new : List (Exchange δ)) (parts : List (Part δ)) :
    Prop where
  raws : parts.map (·.raw) = records
  passes : ∃ before after, new = after ++ (exchanges parts ++ before) ∧
    (∀ exchange ∈ after ++ before, exchange.Handles → engine.Elsewhere spec exchange) ∧
    engine.Passes outside spec (s.replay before) parts (s.replay (exchanges parts ++ before))

section visits

variable {op : Operation} {request : CollectionRequest} {outcome : TallyOutcome}

/-- A fetch of the entity is part of its one visit. -/
theorem SyncEngine.Visits.fetched (h : engine.Visits outside op spec s s') (hnew : s.After new s')
    (hmem : Exchange.fetched request outcome ∈ new) (hname : request.entityName = spec.name) :
    ∃ before part after r s₂, new = after ++ (part ++ before) ∧
      (∀ exchange ∈ after ++ before, exchange.Handles → engine.Elsewhere spec exchange) ∧
      Exchange.fetched request outcome ∈ part ∧ (s.replay before).After part s₂ ∧
      engine.Synced outside spec (s.db.sinceOf op.incremental spec.name)
        (engine.collectionRequest spec (s.db.sinceOf op.incremental spec.name) op.range.1
          op.range.2) (s.replay before) r s₂ := by
  obtain ⟨s₁, r, s₂, hbefore, hvisit, hafter⟩ := h
  have hsynced := hvisit.synced
  rw [hbefore.sinceOf] at hsynced
  obtain ⟨before, rfl, hothers⟩ := id hbefore
  obtain ⟨after, rfl, hothers'⟩ := id hafter
  obtain ⟨read, hread, hquiet⟩ :=
    (s.replay before).replay_readCheckpoint op.incremental spec.name
  rw [hread, ← Session.replay_append] at hsynced
  obtain ⟨part, hpart⟩ := hsynced.after
  have hall : new = after ++ (part ++ (read ++ before)) :=
    hnew.unique (((s.after_replay _).trans hpart).trans (s₂.after_replay after))
  refine ⟨read ++ before, part, after, r, s₂, hall, fun exchange hmem hhandles => ?_, ?_, hpart,
    hsynced⟩
  · rcases List.mem_append.mp hmem with hmem | hmem
    · exact hothers' exchange hmem
    · rcases List.mem_append.mp hmem with hmem | hmem
      · obtain rfl := hquiet exchange hmem
        exact hhandles.elim
      · exact hothers exchange hmem
  · -- neither the other entities nor the read of the checkpoint fetched it
    rw [hall] at hmem
    rcases List.mem_append.mp hmem with hmem | hmem
    · exact absurd hmem (hafter.not_fetched (Session.after_replay _ after) hname)
    · rcases List.mem_append.mp hmem with hmem | hmem
      · exact hmem
      · rcases List.mem_append.mp hmem with hmem | hmem
        · cases hquiet _ hmem
        · exact absurd hmem (hbefore.not_fetched (Session.after_replay _ before) hname)

theorem SyncEngine.Visits.request_eq (h : engine.Visits outside op spec s s')
    (hnew : s.After new s') (hmem : Exchange.fetched request outcome ∈ new)
    (hname : request.entityName = spec.name) :
    request = engine.collectionRequest spec (s.db.sinceOf op.incremental spec.name) op.range.1
      op.range.2 := by
  obtain ⟨before, part, after, r, s₂, -, -, hpart, hafter, hsynced⟩ := h.fetched hnew hmem hname
  exact hsynced.request_eq hafter hpart

/-- A response that was read is worked off. -/
theorem SyncEngine.Visits.attended (h : engine.Visits outside op spec s s')
    (hworks : ∀ stmt exc, ¬ outside.fault stmt exc) (hkey : spec.TextKey) (hnew : s.After new s')
    (hmem : Exchange.fetched request outcome ∈ new) (hname : request.entityName = spec.name)
    {records : List Record} (hrecords : engine.recordsOf spec outcome = .ok records) :
    ∃ parts, engine.Attended outside spec records s new parts := by
  obtain ⟨before, part, after, r, s₂, rfl, hothers, hpart, hafter, hsynced⟩ :=
    h.fetched hnew hmem hname
  obtain ⟨before', parts, after', hraws, rfl, hquiet, hpasses, -⟩ :=
    hsynced.passes hworks hkey hafter hpart hrecords
  refine ⟨parts, hraws, before' ++ before, after ++ after', by simp, fun exchange hmem hhandles => ?_,
    ?_⟩
  · simp only [List.mem_append] at hmem hothers hquiet
    rcases hmem with (hmem | hmem) | (hmem | hmem)
    · exact hothers exchange (.inl hmem) hhandles
    · exact absurd hhandles (hquiet exchange (.inl hmem))
    · exact absurd hhandles (hquiet exchange (.inr hmem))
    · exact hothers exchange (.inr hmem) hhandles
  · rw [← Session.replay_append, ← Session.replay_append, List.append_assoc] at hpasses
    exact hpasses

end visits

/-! ## Independence -/

/-- Until a record's turn nothing is done with its cache row, if the keys of
the response are distinct. -/
theorem SyncEngine.Attended.cachedRow {records : List Record} {parts : List (Part δ)}
    (h : engine.Attended outside spec records s new parts)
    (hdistinct : (records.filterMap spec.keyOf).Nodup) {part : Part δ} (hpart : part ∈ parts)
    {key : String} (hkey : spec.keyOf part.raw = some key) :
    engine.cachedRow spec part.before key = engine.cachedRow spec s key := by
  obtain ⟨before, after, -, hothers, hpasses⟩ := h.passes
  have hstart : engine.cachedRow spec (s.replay before) key = engine.cachedRow spec s key := by
    have hbefore : ∀ exchange ∈ before, exchange.Handles → engine.Elsewhere spec exchange :=
      fun exchange hmem => hothers exchange (List.mem_append_right _ hmem)
    clear hpasses hothers
    induction before with
    | nil => rfl
    | cons exchange before ih =>
        refine Eq.trans ?_ (ih fun exchange hmem => hbefore exchange (List.mem_cons_of_mem _ hmem))
        by_cases hhandles : exchange.Handles
        · obtain ⟨other, -, hne, hconcerns⟩ := hbefore exchange List.mem_cons_self hhandles
          exact (Session.sameFor_take hconcerns hne).syncCache _ rfl
        · exact congrFun (Session.syncCache_take hhandles) _
  exact (hpasses.cachedRow_part (h.raws ▸ hdistinct) part hpart key hkey).1.trans hstart

/-- A record that occurs in two responses is treated the same in two runs from
one session, as far as Frappe answers the same. -/
theorem SyncEngine.Attended.independent {records records' : List Record}
    {parts parts' : List (Part δ)}
    (h : engine.Attended Outside.reliableStore spec records s new parts)
    (h' : engine.Attended Outside.reliableStore spec records' s new' parts')
    (hdistinct : (records.filterMap spec.keyOf).Nodup)
    (hdistinct' : (records'.filterMap spec.keyOf).Nodup) {part part' : Part δ}
    (hpart : part ∈ parts) (hpart' : part' ∈ parts') (hraw : part'.raw = part.raw)
    (hanswers : AnsweredAlike part.new part'.new) :
    part.new.map Exchange.untimed = part'.new.map Exchange.untimed := by
  obtain ⟨before, after, -, -, hpasses⟩ := h.passes
  obtain ⟨before', after', -, -, hpasses'⟩ := h'.passes
  obtain ⟨hrun, hnew⟩ := hpasses.runs part hpart
  obtain ⟨hrun', hnew'⟩ := hpasses'.runs part' hpart'
  rw [hraw] at hrun'
  refine syncRecord_untimed hrun hrun' hnew hnew' ?_ hanswers
  rintro _ ⟨key, hkey, rfl⟩
  exact (h.cachedRow hdistinct hpart hkey).trans
    (h'.cachedRow hdistinct' hpart' (hraw ▸ hkey)).symm

end TallyConnector
