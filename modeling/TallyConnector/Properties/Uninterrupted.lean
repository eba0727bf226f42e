import TallyConnector.Sync.Attended
import TallyConnector.World.Groups

/-! # One bad record

A cycle treats every record of every response and writes every checkpoint,
whatever the records contain and whatever Frappe answers, with one exception:
the checkpoint is bound as a 64-bit integer outside of both `try` blocks, so an
alter id that does not fit ends the cycle.

What is done for a record does not depend on the other records of a response
whose keys are distinct, nor on the responses for other entities: two cycles
from one session treat it the same, as far as Frappe answers the same.
-/

namespace TallyConnector

open Effects Prog

variable {δ : Type} {engine : SyncEngine δ} {outside : Outside δ} {spec : EntitySpec}
variable {s s' s₁ : Session δ} {new : List (Exchange δ)}

/-! ## Checkpoints that fit -/

/-- The checkpoint that the records of a response lead to fits a column. -/
def SyncEngine.Fits (spec : EntitySpec) (since : Option Int) (records : List Record) : Prop :=
  (records.foldl (seen spec) since).all fitsInt64 = true

/-- The checkpoints of all responses that were read fit. -/
def SyncEngine.AllFit (engine : SyncEngine δ) (incremental : Bool) (s : Session δ)
    (new : List (Exchange δ)) : Prop :=
  ∀ spec ∈ engine.registry.specs, ∀ request outcome records,
    Exchange.fetched request outcome ∈ new → request.entityName = spec.name →
      engine.recordsOf spec outcome = .ok records →
        Fits spec (s.db.sinceOf incremental spec.name) records

/-- The stored checkpoints are 64-bit integers, as SQLite keeps them. -/
def DB.Stored (db : DB δ) : Prop :=
  ∀ entityName n, db.lastAlterId entityName = some n → fitsInt64 n = true

theorem DB.Stored.sinceOf (h : s.db.Stored) {incremental : Bool} {entityName : String} :
    (s.db.sinceOf incremental entityName).all fitsInt64 = true := by
  unfold DB.sinceOf
  split
  · cases hlast : s.db.lastAlterId entityName with
    | none => rfl
    | some n => exact h entityName n hlast
  · rfl

/-! ## The entity of a result -/

theorem Item.Pushed.entityName {item : Item engine} {r : Except Exn Unit}
    (h : item.Pushed outside s new r s') : s'.result.entityName = s.result.entityName := by
  cases h with
  | unchanged row _ _ _ => rfl
  | saved looks s₁ op name bound lastPushedAt hlooks hop _ _ =>
      rw [← hlooks.result]
      rcases hop with rfl | rfl <;> rfl
  | failed looks s₁ exc hlooks _ => rw [hlooks.result]
  | lost looks s₁ op name lastPushedAt exc hlooks hop _ =>
      rw [← hlooks.result]
      rcases hop with rfl | rfl <;> rfl

theorem SyncEngine.Treated.entityName {raw : Record} {r : Except Exn Unit}
    (h : engine.Treated outside spec raw s new r s') :
    s'.result.entityName = s.result.entityName := by
  cases h with
  | dropped _ => rfl
  | unmapped _ _ _ => rfl
  | pushed item _ _ hpushed => exact hpushed.entityName
  | queued item _ _ hpushed guid _ nextAttemptAt createdAt => exact hpushed.entityName
  | aborted item _ _ hpushed stmt exc' _ => exact hpushed.entityName

variable [DecidableEq δ]

theorem SyncEngine.Passes.entityName {parts : List (Part δ)}
    (h : engine.Passes outside spec s parts s') :
    s'.result.entityName = s.result.entityName := by
  induction h with
  | nil s => rfl
  | cons hbefore _ htreated _ ih =>
      subst hbefore
      exact ih.trans htreated.entityName

theorem SyncEngine.Synced.entityName {since : Option Int} {request : CollectionRequest}
    {result : EntitySyncResult} (h : engine.Synced outside spec since request s (.ok result) s') :
    result.entityName = spec.name := by
  cases h with
  | written maxAlterId status s₁ h row _ _ _ =>
      cases h with
      | unfetched outcomes _ _ => rfl
      | fetched outcome rest records _ _ parts _ _ hpasses => exact hpasses.entityName

theorem SyncEngine.Cycled.entityNames {incremental : Bool} {specs : List EntitySpec}
    {results : List EntitySyncResult} (h : engine.Cycled outside incremental s specs results s') :
    results.map (·.entityName) = specs.map (·.name) := by
  induction h with
  | nil s => rfl
  | cons h _ ih => rw [List.map_cons, List.map_cons, ih, Synced.entityName h.synced]

/-! ## Two runs -/

/-- In a run these records of the entity were read. -/
def SyncEngine.Reads (engine : SyncEngine δ) (spec : EntitySpec) (new : List (Exchange δ))
    (records : List Record) : Prop :=
  ∃ request outcome, Exchange.fetched request outcome ∈ new ∧ request.entityName = spec.name ∧
    engine.recordsOf spec outcome = .ok records

/-- What two runs from one session do for an entity, whatever else Tally
answered in them. -/
structure SyncEngine.Independent (engine : SyncEngine δ) (spec : EntitySpec) (s : Session δ)
    (new new' : List (Exchange δ)) : Prop where
  request : ∀ request outcome request' outcome', Exchange.fetched request outcome ∈ new →
    request.entityName = spec.name → Exchange.fetched request' outcome' ∈ new' →
      request'.entityName = spec.name → request = request'
  /-- A record of both responses is treated the same up to the clock, as far as
  Frappe answers the same. -/
  treatment : ∀ records records', engine.Reads spec new records →
    engine.Reads spec new' records' → (records.filterMap spec.keyOf).Nodup →
      (records'.filterMap spec.keyOf).Nodup →
        ∃ parts parts', engine.Attended Outside.reliableStore spec records s new parts ∧
          engine.Attended Outside.reliableStore spec records' s new' parts' ∧
          ∀ part ∈ parts, ∀ part' ∈ parts', part'.raw = part.raw →
            AnsweredAlike part.new part'.new →
              part.new.map Exchange.untimed = part'.new.map Exchange.untimed

/-! ## A sync -/

section synced

variable {since : Option Int} {request request' : CollectionRequest} {outcome : TallyOutcome}
variable {records : List Record}

/-- A checkpoint that was written fits. -/
theorem SyncEngine.Synced.fits {result : EntitySyncResult}
    (h : engine.Synced outside spec since request s (.ok result) s') (hnew : s.After new s')
    (hmem : Exchange.fetched request' outcome ∈ new)
    (hrecords : engine.recordsOf spec outcome = .ok records) : Fits spec since records := by
  cases h with
  | written maxAlterId status s₁ h row hrow hstatus hfits =>
      obtain ⟨part, hpart⟩ := h.after
      have hfinish : new =
          .counted .read :: .executed (.upsertSyncState spec.name row) :: part :=
        hnew.unique (hpart.written spec.name row)
      rw [hfinish] at hmem
      simp only [List.mem_cons, reduceCtorEq, false_or] at hmem
      obtain ⟨rfl, -⟩ := h.of_fetched hpart hmem hrecords
      exact hfits

/-- Nothing else can end a sync early. -/
theorem SyncEngine.Synced.returns {r : Except Exn EntitySyncResult}
    (h : engine.Synced outside spec since request s r s')
    (hworks : ∀ stmt exc, ¬ outside.fault stmt exc) (hkey : spec.TextKey)
    (hsince : since.all fitsInt64 = true) (hnew : s.After new s')
    (hfits : ∀ outcome records, Exchange.fetched request outcome ∈ new →
      engine.recordsOf spec outcome = .ok records → Fits spec since records) :
    ∃ result, r = .ok result := by
  cases h with
  | written maxAlterId status s₁ h row _ _ _ => exact ⟨_, rfl⟩
  | unwritten maxAlterId status s₁ h row exc hexc =>
      -- the number of the checkpoint did not fit: that of the start does, and so do the ids
      have hoverflow := hexc.resolve_right (hworks _ _)
      obtain ⟨part, hpart⟩ := h.after
      have hfinish : new = .rejected (.upsertSyncState spec.name row) exc :: part :=
        hnew.unique (hpart.rejected _ _)
      cases h with
      | unfetched outcomes _ _ => rw [hsince] at hoverflow; cases hoverflow
      | fetched outcome rest records hrecords _ parts _ _ hpasses =>
          have hall := hpart.unique ((after_opening.trans (.count _ _)).trans hpasses.after)
          have hfit := hfits outcome records (by simp [hfinish, hall, opening]) hrecords
          rw [hfit] at hoverflow
          cases hoverflow
  | interrupted outcome outcomes records hrecords _ parts raw rest hparts s₁ _ new' exc hpasses
      htreated =>
      cases htreated with
      | aborted item hspec hraw hpushed stmt exc' hexc' =>
          -- a record could not be queued, but its key is text
          rcases hexc' with hbind | hfault
          · refine absurd hbind (bindTextNotNull_recordGuid hkey hrecords ?_ _)
            rw [hparts]
            simp
          · exact absurd hfault (hworks _ _)

end synced

/-! ## Cycles -/

section cycle

variable {incremental : Bool}

theorem SyncEngine.Cycled.after {specs : List EntitySpec} {results : List EntitySyncResult}
    (h : engine.Cycled outside incremental s specs results s') : ∃ part, s.After part s' := by
  induction h with
  | nil s => exact ⟨[], .refl s⟩
  | cons h _ ih =>
      obtain ⟨part, hpart⟩ := ih
      obtain ⟨part', hpart', -⟩ := Session.readCheckpoint_after _ incremental _
      obtain ⟨part'', hpart''⟩ := h.synced.after
      exact ⟨_, (hpart'.trans hpart'').trans hpart⟩

/-- In a cycle that ended normally all checkpoints fit. -/
theorem SyncEngine.Cycled.allFit {specs : List EntitySpec} {results : List EntitySyncResult}
    (h : engine.Cycled outside incremental s specs results s')
    (hspecs : specs ⊆ engine.registry.specs) (hnodup : (specs.map (·.name)).Nodup)
    (hnew : s.After new s') : engine.AllFit incremental s new := by
  intro spec hspec request outcome records hmem hname hrecords
  induction h generalizing new with
  | nil s =>
      rw [hnew.unique (.refl s)] at hmem
      cases hmem
  | @cons s s₁ s' head specs result results h hrest ih =>
      rw [List.map_cons, List.nodup_cons] at hnodup
      have hspecs' : specs ⊆ engine.registry.specs :=
        fun _ hmem => hspecs (List.mem_cons_of_mem _ hmem)
      obtain ⟨start, hstart, hstart'⟩ := s.readCheckpoint_after incremental head.name
      obtain ⟨first, hfirst⟩ := h.synced.after
      obtain ⟨later, hlater⟩ := hrest.after
      rw [hnew.unique ((hstart.trans hfirst).trans hlater)] at hmem
      by_cases hsame : head.name = spec.name
      · -- the entity itself, which is synced once
        obtain rfl := engine.registry.eq_of_name (hspecs List.mem_cons_self) hspec hsame
        have hleaves := hrest.leaves hspecs' hnodup.1
        rcases List.mem_append.mp hmem with hmem | hmem
        · exact absurd hmem (hleaves.not_fetched hlater hname)
        · rcases List.mem_append.mp hmem with hmem | hmem
          · exact h.synced.fits hfirst hmem hrecords
          · exact absurd hmem (hstart' _ _)
      · have hleaves := Visit.leaves h (hspecs List.mem_cons_self) hsame
        rcases List.mem_append.mp hmem with hmem | hmem
        · rw [← hleaves.sinceOf]
          exact ih hspecs' hnodup.2 hlater hmem
        · exact absurd hmem (hleaves.not_fetched (hstart.trans hfirst) hname)

/-- A sync within a cycle whose checkpoints all fit returns. -/
theorem SyncEngine.SyncedIn.returns {r : Except Exn EntitySyncResult} {before : List EntitySpec}
    {results : List EntitySyncResult} (h : engine.SyncedIn outside incremental spec s₁ r s')
    (hworks : ∀ stmt exc, ¬ outside.fault stmt exc) (hspec : spec ∈ engine.registry.specs)
    (hkey : spec.TextKey) (hstored : s.db.Stored)
    (hbefore : engine.Cycled outside incremental s before results s₁)
    (hspecs : before ⊆ engine.registry.specs) (hnot : spec.name ∉ before.map (·.name))
    (hnew : s.After new s')
    (hfits : engine.AllFit incremental s new) : ∃ result, r = .ok result := by
  have hsince : s₁.db.sinceOf incremental spec.name = s.db.sinceOf incremental spec.name :=
    (hbefore.leaves hspecs hnot).sinceOf
  obtain ⟨earlier, hearlier⟩ := hbefore.after
  obtain ⟨start, hstart, -⟩ := s₁.readCheckpoint_after incremental spec.name
  obtain ⟨part, hpart⟩ := h.synced.after
  refine h.synced.returns hworks hkey ?_ hpart fun outcome records hmem hrecords => ?_
  · rw [hsince]
    exact hstored.sinceOf
  · have hmem' := List.mem_append_left (start ++ earlier) hmem
    rw [hnew.unique ((hearlier.trans hstart).trans hpart)] at hfits
    rw [hsince]
    exact hfits spec hspec _ outcome records hmem' rfl hrecords

variable {order : List EntitySpec}

theorem open_runCycle (horder : engine.registry.resolveSyncOrder = .ok order)
    (hworks : ∀ stmt exc, ¬ outside.fault stmt exc) :
    (engine.runCycle incremental).Always outside.step
      (fun r s' => match r with
        | .ok results => engine.Cycled outside incremental s order results s'
        | .error exc => ∃ before spec after results s₁, order = before ++ spec :: after ∧
            engine.Cycled outside incremental s before results s₁ ∧
            engine.SyncedIn outside incremental spec s₁ (.error exc) s') s := by
  refine .bind (.ofExcept ?_)
  rw [horder]
  have hperm := engine.registry.resolveSyncOrder_perm horder
  exact (open_syncEntities hworks hperm.subset).mono fun r s' hr => hr

/-- Only a checkpoint that does not fit ends a cycle early. -/
theorem open_runCycle_fits (horder : engine.registry.resolveSyncOrder = .ok order)
    (hkeys : ∀ spec ∈ engine.registry.specs, spec.TextKey) (hstored : s.db.Stored)
    (hworks : ∀ stmt exc, ¬ outside.fault stmt exc) :
    (engine.runCycle incremental).Always outside.step
      (fun r s' => ∀ new, s.After new s' → match r with
        | .ok results => engine.Cycled outside incremental s order results s' ∧
            engine.AllFit incremental s new
        | .error _ => ¬ engine.AllFit incremental s new) s := by
  have hperm := engine.registry.resolveSyncOrder_perm horder
  have hnodup : (order.map (·.name)).Nodup :=
    (hperm.map (·.name)).nodup_iff.mpr engine.registry.nodup
  refine (open_runCycle horder hworks).mono fun r s' hend new hnew => ?_
  cases r with
  | ok results => exact ⟨hend, hend.allFit hperm.subset hnodup hnew⟩
  | error exc =>
      -- the cycle ended in one entity: one of its numbers did not fit
      obtain ⟨before, spec, after, results, s₁, rfl, hbefore, hlast⟩ := hend
      have hspec : spec ∈ engine.registry.specs := hperm.subset (by simp)
      have hnot : spec.name ∉ before.map (·.name) := by
        rw [List.map_append, List.nodup_append] at hnodup
        intro hmem
        exact hnodup.2.2 _ hmem _ (by simp) rfl
      intro hfits
      obtain ⟨result, hresult⟩ := SyncEngine.SyncedIn.returns hlast hworks hspec
        (hkeys spec hspec) hstored hbefore (fun _ hmem => hperm.subset (by simp [hmem])) hnot hnew
        hfits
      cases hresult

/-- The runs of a cycle visit each entity once, except those that an exception
kept them from. -/
theorem SyncEngine.visits_of_fetched {r : Except Exn (List EntitySyncResult)}
    (hrun : (engine.runCycle incremental).Runs Outside.reliableStore.step s r s')
    (hnew : s.After new s') (hspec : spec ∈ engine.registry.specs) {request : CollectionRequest}
    {outcome : TallyOutcome} (hmem : Exchange.fetched request outcome ∈ new)
    (hname : request.entityName = spec.name) :
    engine.Visits Outside.reliableStore (if incremental then .incrementalSync else .fullSync)
      spec s s' := by
  have hincremental : Operation.incremental
      (if incremental then .incrementalSync else .fullSync) = incremental := by
    cases incremental <;> rfl
  have hrange : Operation.range (if incremental then .incrementalSync else .fullSync) =
      (none, none) := by
    cases incremental <;> rfl
  have hend := (open_runCycle_visits hincremental hrange fun _ _ => id).of_runs hrun
  rcases hend spec hspec with hvisits | ⟨-, hleaves⟩
  · exact hvisits
  · exact absurd hmem (hleaves.not_fetched hnew hname)

/-- Two cycles from one session ask for an entity in the same way, and they
treat what their responses have in common the same. -/
theorem SyncEngine.independent_of_runs {r r' : Except Exn (List EntitySyncResult)}
    {new' : List (Exchange δ)} {s₂ : Session δ} (hspec : spec ∈ engine.registry.specs)
    (hkey : spec.TextKey)
    (hrun : (engine.runCycle incremental).Runs Outside.reliableStore.step s r s')
    (hnew : s.After new s')
    (hrun' : (engine.runCycle incremental).Runs Outside.reliableStore.step s r' s₂)
    (hnew' : s.After new' s₂) : engine.Independent spec s new new' := by
  refine ⟨fun request outcome request' outcome' hmem hname hmem' hname' => ?_, ?_⟩
  · have hvisits := visits_of_fetched hrun hnew hspec hmem hname
    have hvisits' := visits_of_fetched hrun' hnew' hspec hmem' hname'
    rw [hvisits.request_eq hnew hmem hname, hvisits'.request_eq hnew' hmem' hname']
  · rintro records records' ⟨request, outcome, hmem, hname, hrecords⟩
      ⟨request', outcome', hmem', hname', hrecords'⟩ hdistinct hdistinct'
    have hvisits := visits_of_fetched hrun hnew hspec hmem hname
    have hvisits' := visits_of_fetched hrun' hnew' hspec hmem' hname'
    obtain ⟨parts, hparts⟩ :=
      hvisits.attended (fun _ _ => id) hkey hnew hmem hname hrecords
    obtain ⟨parts', hparts'⟩ :=
      hvisits'.attended (fun _ _ => id) hkey hnew' hmem' hname' hrecords'
    exact ⟨parts, parts', hparts, hparts', fun part hpart part' hpart' =>
      hparts.independent hparts' hdistinct hdistinct' hpart hpart'⟩

/-- A cycle syncs every entity in dependency order, treating every record of
every response once and writing every checkpoint, if and only if the checkpoint
of every response it reads fits a 64-bit column. Another cycle from the same
session, with other responses, asks for each entity in the same way and treats
the records that it has in common with the first one the same. -/
theorem cycle_uninterrupted (horder : engine.registry.resolveSyncOrder = .ok order)
    (hkeys : ∀ spec ∈ engine.registry.specs, spec.TextKey) (hstored : s.db.Stored)
    {r : Except Exn (List EntitySyncResult)}
    (hrun : (engine.runCycle incremental).Runs Outside.reliableStore.step s r s')
    (hnew : s.After new s') :
    ((∃ results, r = .ok results ∧ results.map (·.entityName) = order.map (·.name) ∧
        engine.Cycled Outside.reliableStore incremental s order results s') ↔
      engine.AllFit incremental s new) ∧
    ∀ r' s₂ new', (engine.runCycle incremental).Runs Outside.reliableStore.step s r' s₂ →
      s.After new' s₂ → ∀ spec ∈ engine.registry.specs, engine.Independent spec s new new' := by
  refine ⟨?_, fun r' s₂ new' hrun' hnew' spec hspec =>
    SyncEngine.independent_of_runs hspec (hkeys spec hspec) hrun hnew hrun' hnew'⟩
  have hend := (open_runCycle_fits horder hkeys hstored fun _ _ => id).of_runs hrun new hnew
  cases r with
  | ok results =>
      obtain ⟨hcycled, hfits⟩ := hend
      exact ⟨fun _ => hfits, fun _ => ⟨results, rfl, hcycled.entityNames, hcycled⟩⟩
  | error exc =>
      refine ⟨?_, fun hfits => absurd hfits hend⟩
      rintro ⟨results, hresults, -⟩
      cases hresults

end cycle

/-! ## Three groups -/

/-- The exchanges fetched nothing but the page with these groups. -/
def onlyPage (groups : List Group) (new : List (Exchange Dict)) : Bool :=
  new.all fun exchange => match exchange with
    | .fetched _ outcome => outcome == .response 200 (groupPage groups)
    | _ => true

/-- The page with these groups was fetched. -/
def fetchedPage (groups : List Group) (new : List (Exchange Dict)) : Bool :=
  new.any (Exchange.isFetch fun request outcome =>
    request.entityName == "group" && outcome == .response 200 (groupPage groups))

section page

variable {n : Int} {pages : List (List Group)} {groups : List Group} {records : List Record}
variable {new : List (Exchange Dict)}

theorem allFit_page (hrecords : (groupEngine n pages).recordsOf group
      (.response 200 (groupPage groups)) = .ok records)
    (hfits : SyncEngine.Fits group none records) (h : onlyPage groups new = true) :
    (groupEngine n pages).AllFit false Session.fresh new := by
  intro spec hspec request outcome records' hmem _ hrecords'
  obtain rfl : spec = group := List.mem_singleton.mp hspec
  obtain rfl : outcome = .response 200 (groupPage groups) :=
    eq_of_beq (List.all_eq_true.mp h _ hmem)
  obtain rfl : records = records' := Except.ok.inj (hrecords.symm.trans hrecords')
  exact hfits

theorem reads_page (hrecords : (groupEngine n pages).recordsOf group
      (.response 200 (groupPage groups)) = .ok records) (h : fetchedPage groups new = true) :
    (groupEngine n pages).Reads group new records := by
  rcases exists_fetched h with ⟨request, outcome, hmem, hfetch⟩
  rcases Bool.and_eq_true_iff.mp hfetch with ⟨hname, houtcome⟩
  rw [eq_of_beq houtcome] at hmem
  exact ⟨request, _, hmem, eq_of_beq hname, hrecords⟩

end page

theorem recordsOf_mixedGroups : (groupEngine 1 [mixedGroups, [assets]]).recordsOf group
    (.response 200 (groupPage mixedGroups)) =
      .ok [assets.raw, nameless.parsed, liabilities.raw] := by decide +kernel

theorem recordsOf_assets : (groupEngine 1 [mixedGroups, [assets]]).recordsOf group
    (.response 200 (groupPage [assets])) = .ok [assets.raw] := by decide +kernel

theorem fits_assets : SyncEngine.Fits group none [assets.raw] := by
  show Option.all fitsInt64 _ = true
  decide +kernel

theorem fits_mixedGroups :
    SyncEngine.Fits group none [assets.raw, nameless.parsed, liabilities.raw] := by
  show Option.all fitsInt64 _ = true
  decide +kernel

/-- Of three groups one is created, one is dropped and one is refused and
queued, and the cycle returns. The first one is treated as in a cycle whose
response lists nothing else. -/
theorem cycle_uninterrupted_groups :
    let engine := groupEngine 1 [mixedGroups, [assets]]
    ∃ r s' r' s₂, (engine.runCycle false).Runs Outside.reliableStore.step Session.fresh r s' ∧
      (engine.runCycle false).Runs Outside.reliableStore.step Session.fresh r' s₂ ∧
      s'.db.retryQueue.rows.length = 1 ∧
      (∃ results, r = .ok results ∧ results.map (·.entityName) = ["group"]) ∧
      ∃ parts parts', engine.Attended Outside.reliableStore group
          [assets.raw, nameless.parsed, liabilities.raw] Session.fresh s'.history parts ∧
        engine.Attended Outside.reliableStore group [assets.raw] Session.fresh s₂.history parts' ∧
        ∀ part ∈ parts, ∀ part' ∈ parts', part'.raw = part.raw →
          AnsweredAlike part.new part'.new →
            part.new.map Exchange.untimed = part'.new.map Exchange.untimed := by
  intro engine
  have hplay : (play Outside.reliableExec mixedReplies (engine.runCycle false)
      Session.fresh).any (fun final => final.2.db.retryQueue.rows.length = 1 ∧
        onlyPage mixedGroups final.2.history ∧ fetchedPage mixedGroups final.2.history) = true := by
    decide +kernel
  have hplay' : (play Outside.reliableExec
      [.done, .tally (.response 200 (groupPage [assets])), .done,
        .done, .frappe (okOutcome (foundBody [])), .done, .frappe (okOutcome (savedBody "GRP-1")),
        .done, .clock 1, .done, .clock 1, .clock 1, .done, .done]
      (engine.runCycle false) Session.fresh).any (fun final =>
        fetchedPage [assets] final.2.history) = true := by
    decide +kernel
  obtain ⟨⟨r, s'⟩, hrun, hfinal⟩ := (Option.any_eq_true _ _).mp hplay
  obtain ⟨hqueued, honly, hfetched⟩ := of_decide_eq_true hfinal
  obtain ⟨⟨r', s₂⟩, hrun', hfetched'⟩ := (Option.any_eq_true _ _).mp hplay'
  have hruns := runs_of_play Outside.step_of_reliableExec hrun
  have hruns' := runs_of_play Outside.step_of_reliableExec hrun'
  have hfits := allFit_page recordsOf_mixedGroups fits_mixedGroups honly
  obtain ⟨hcycle, hindependent⟩ :=
    cycle_uninterrupted (show engine.registry.resolveSyncOrder = .ok [group] from rfl)
      (by decide) (fun _ _ h => by cases h) hruns (List.append_nil _).symm
  obtain ⟨results, hresults, hnames, -⟩ := hcycle.mpr hfits
  have htreated := (hindependent r' s₂ _ hruns' (List.append_nil _).symm group
    List.mem_cons_self).treatment _ _ (reads_page recordsOf_mixedGroups hfetched)
      (reads_page recordsOf_assets hfetched') (by decide) (by decide)
  exact ⟨r, s', r', s₂, hruns, hruns', hqueued, ⟨results, hresults, hnames⟩, htreated⟩

/-- An alter id of 2⁶³ ends the cycle with an exception. -/
theorem cycle_interrupted :
    let huge : Group := { guid := "g-1", name := "Assets", alterId := 2 ^ 63 }
    let engine := groupEngine 1 [[huge]]
    ∃ r s', (engine.runCycle false).Runs Outside.reliableStore.step Session.fresh r s' ∧
      engine.registry.resolveSyncOrder = .ok [group] ∧ ¬ ∃ results, r = .ok results := by
  intro huge engine
  have hplay : (play Outside.reliableExec
      [.done, .tally (.response 200 (groupPage [huge])), .done,
        .done, .frappe (okOutcome (foundBody [])), .done, .frappe (okOutcome (savedBody "GRP-1")),
        .done, .clock 0, .done, .clock 0, .clock 0, .done]
      (engine.runCycle false) Session.fresh).any (fun final => final.1.toOption.isNone) = true := by
    decide +kernel
  obtain ⟨⟨r, s'⟩, hrun, hfinal⟩ := (Option.any_eq_true _ _).mp hplay
  refine ⟨r, s', runs_of_play Outside.step_of_reliableExec hrun, rfl, ?_⟩
  rintro ⟨results, rfl⟩
  cases hfinal

end TallyConnector
