import TallyConnector.App
import TallyConnector.Properties.Counting
import TallyConnector.Properties.Uninterrupted

/-! # The exit status

The status is computed from the `failed` counters. A record that fails leaves a
trace in them, a fetch that fails does not: 0 is returned although an entity
was never read.
-/

namespace TallyConnector

open Effects Prog

variable {δ : Type} {engine : SyncEngine δ} {outside : Outside δ} {spec : EntitySpec}
variable {s s' s₁ : Session δ} {new : List (Exchange δ)}

/-! ## Failed records -/

/-- No record of the responses that were read for these entities is dropped,
and no record is put into the retry queue. -/
structure SyncEngine.NoneFailed (engine : SyncEngine δ) (specs : List EntitySpec)
    (new : List (Exchange δ)) : Prop where
  dropped : ∀ spec ∈ specs, ∀ request outcome records,
    Exchange.fetched request outcome ∈ new → request.entityName = spec.name →
      engine.recordsOf spec outcome = .ok records →
        ∀ raw ∈ records, ¬ engine.Drops spec raw
  queued : ∀ exchange ∈ new, exchange.isQueued = false

/-- A stretch of the record loop raises `failed` exactly when something fails. -/
structure Failing (fails : Prop) (s s' : Session δ) : Prop where
  le : s.result.failed ≤ s'.result.failed
  eq_iff : s'.result.failed = s.result.failed ↔ ¬ fails

theorem Failing.or {fails fails' : Prop} (h : Failing fails s s₁) (h' : Failing fails' s₁ s') :
    Failing (fails ∨ fails') s s' where
  le := h.le.trans h'.le
  eq_iff := by
    have hle := h.le
    have hle' := h'.le
    rw [not_or, ← h.eq_iff, ← h'.eq_iff]
    omega

theorem Failing.congr {fails fails' : Prop} (h : Failing fails s s') (heq : fails ↔ fails') :
    Failing fails' s s' := ⟨h.le, h.eq_iff.trans (not_congr heq)⟩

/-- A dropped or a queued record is counted as failed, no other is. -/
theorem SyncEngine.Treated.failing {raw : Record}
    (h : engine.Treated outside spec raw s new (.ok ()) s') :
    Failing (engine.Drops spec raw ∨ ∃ exchange ∈ new, exchange.isQueued = true) s s' := by
  cases h with
  | dropped hdrops =>
      refine ⟨Nat.le_succ _, ?_⟩
      simp [Session.count, ResultOp.apply, hdrops]
  | unmapped model hmodel hme =>
      refine ⟨Nat.le_refl _, iff_of_true rfl ?_⟩
      -- a record with a model is no drop where nothing is mapped
      rintro ((⟨exc, hexc⟩ | ⟨hmapped, -⟩) | ⟨exchange, hmem, -⟩)
      · rw [hmodel] at hexc
        cases hexc
      · rw [hme] at hmapped
        cases hmapped
      · cases hmem
  | pushed item hspec hraw hpushed =>
      subst hspec hraw
      obtain ⟨-, hfailed, hqueued, -⟩ := hpushed.counted
      refine ⟨hfailed.ge, iff_of_true hfailed ?_⟩
      -- it was not dropped, and nothing was queued
      rintro (hdrops | ⟨exchange, hmem, hexchange⟩)
      · exact item.not_drops hdrops
      · exact List.countP_eq_zero.mp hqueued exchange hmem hexchange
  | queued item hspec hraw hpushed guid _ nextAttemptAt createdAt =>
      obtain ⟨-, hfailed, -, -⟩ := hpushed.counted
      refine ⟨hfailed.ge.trans (Nat.le_succ _), ?_⟩
      -- the failure is counted
      refine iff_of_false ?_ (not_not_intro (.inr ⟨_, List.mem_cons_self, rfl⟩))
      intro heq
      have hsucc := hfailed ▸ heq
      exact absurd hsucc (Nat.succ_ne_self _)

variable [DecidableEq δ]

theorem SyncEngine.Passes.failing {parts : List (Part δ)}
    (h : engine.Passes outside spec s parts s') :
    Failing ((∃ part ∈ parts, engine.Drops spec part.raw) ∨
      ∃ exchange ∈ exchanges parts, exchange.isQueued = true) s s' := by
  induction h with
  | nil s => exact ⟨Nat.le_refl _, by simp [exchanges]⟩
  | @cons s s' part parts hbefore _ htreated _ ih =>
      subst hbefore
      refine (htreated.failing.or ih).congr ?_
      have hqueued : (∃ exchange ∈ exchanges (part :: parts), exchange.isQueued = true) ↔
          (∃ exchange ∈ exchanges parts, exchange.isQueued = true) ∨
            ∃ exchange ∈ part.new, exchange.isQueued = true := by
        simp only [exchanges, List.mem_append, or_and_right, exists_or]
      rw [List.exists_mem_cons_iff, hqueued]
      exact or_or_or_comm.trans (or_congr Iff.rfl or_comm)

/-! ## A sync -/

section entity

variable {since : Option Int} {request : CollectionRequest}

/-- A sync that was fetched counts no failed record exactly when none failed;
one that was not fetched counts none. -/
theorem SyncEngine.Collected.failed_iff {maxAlterId : Option Int} {status : String}
    (h : engine.Collected outside spec since request s maxAlterId status s')
    (hrequest : request.entityName = spec.name) (hnew : s.After new s') :
    s'.result.failed = 0 ↔ engine.NoneFailed [spec] new := by
  -- no record is queued before they are read
  have hopening : ∀ outcomes, ∀ exchange ∈ opening (δ := δ) spec request outcomes,
      exchange.isQueued = false := by
    intro outcomes exchange hmem
    have hnone := List.countP_eq_zero.mp
      (countP_opening (p := Exchange.isQueued) (fun _ => rfl) fun _ => rfl) exchange hmem
    simpa using hnone
  constructor
  · -- no failure was counted: nothing was dropped and nothing queued
    intro hfailed
    refine ⟨fun spec' hspec request' outcome records hmem _ hrecords => ?_, ?_⟩
    · -- no record of the answer was dropped
      obtain rfl := List.mem_singleton.mp hspec
      obtain ⟨-, outcomes, parts, rfl, -, hpasses⟩ := h.of_fetched hnew hmem hrecords
      intro raw hraw hdrops
      obtain ⟨part, hpart, rfl⟩ := List.mem_map.mp hraw
      exact hpasses.failing.eq_iff.mp hfailed (.inl ⟨part, hpart, hdrops⟩)
    · -- and none was queued
      cases h with
      | unfetched outcomes _ hfails =>
          rw [hnew.unique after_opening]
          exact hopening outcomes
      | fetched outcome rest records _ _ parts _ _ hpasses =>
          rw [hnew.unique ((after_opening.trans (.count _ _)).trans hpasses.after)]
          intro exchange hmem
          rcases List.mem_append.mp hmem with hmem | hmem
          · -- a queued record would have been counted
            have hnot := hpasses.failing.eq_iff.mp hfailed
            by_contra hqueued
            exact hnot (.inr ⟨exchange, hmem, by simpa using hqueued⟩)
          · rcases List.mem_cons.mp hmem with rfl | hmem
            · rfl
            · exact hopening _ exchange hmem
  · -- nothing was dropped or queued: no failure was counted
    intro hnone
    cases h with
    | unfetched outcomes _ hfails => rfl
    | fetched outcome rest records hrecords _ parts hparts _ hpasses =>
        have hall := hnew.unique ((after_opening.trans (.count _ _)).trans hpasses.after)
        refine hpasses.failing.eq_iff.mpr ?_
        rintro (⟨part, hpart, hdrops⟩ | ⟨exchange, hmem, hqueued⟩)
        · -- a dropped record stands in the response
          have hmem : Exchange.fetched request outcome ∈ new := by simp [hall, opening]
          refine hnone.dropped spec List.mem_cons_self request outcome records hmem hrequest
            hrecords part.raw ?_ hdrops
          exact hparts ▸ List.mem_map_of_mem hpart
        · -- a queued one stands among the exchanges
          have hnone := hnone.queued exchange (hall ▸ List.mem_append_left _ hmem)
          rw [hqueued] at hnone
          cases hnone

theorem SyncEngine.Synced.failed_iff {result : EntitySyncResult}
    (h : engine.Synced outside spec since request s (.ok result) s')
    (hrequest : request.entityName = spec.name) (hnew : s.After new s') :
    result.failed = 0 ↔ engine.NoneFailed [spec] new := by
  cases h with
  | written maxAlterId status s₁ h row _ _ _ =>
      obtain ⟨part, hpart⟩ := h.after
      have hfinish : new =
          .counted .read :: .executed (.upsertSyncState spec.name row) :: part :=
        hnew.unique (hpart.written spec.name row)
      rw [h.failed_iff hrequest hpart, hfinish]
      constructor
      · rintro ⟨hdropped, hqueued⟩
        exact ⟨by simpa using hdropped, by simpa [Exchange.isQueued] using hqueued⟩
      · rintro ⟨hdropped, hqueued⟩
        exact ⟨by simpa using hdropped, by simpa [Exchange.isQueued] using hqueued⟩

end entity

/-! ## A cycle -/

section cycle

variable {incremental : Bool} {specs : List EntitySpec} {results : List EntitySyncResult}

omit [DecidableEq δ] in
theorem SyncEngine.NoneFailed.cons_iff {part later : List (Exchange δ)}
    (hlater : ∀ request outcome, .fetched request outcome ∈ later →
      request.entityName ≠ spec.name)
    (hpart : ∀ spec' ∈ specs, ∀ request outcome, .fetched request outcome ∈ part →
      request.entityName ≠ spec'.name) :
    engine.NoneFailed (spec :: specs) (later ++ part) ↔
      engine.NoneFailed [spec] part ∧ engine.NoneFailed specs later := by
  constructor
  · rintro ⟨hdropped, hqueued⟩
    refine ⟨⟨fun spec' hspec request outcome records hmem => ?_, fun exchange hmem => ?_⟩,
      ⟨fun spec' hspec request outcome records hmem => ?_, fun exchange hmem => ?_⟩⟩
    · -- what the first part says of its entity
      obtain rfl := List.mem_singleton.mp hspec
      exact hdropped spec' List.mem_cons_self request outcome records
        (List.mem_append_right _ hmem)
    · exact hqueued exchange (List.mem_append_right _ hmem)
    · -- what the later ones say of theirs
      exact hdropped spec' (List.mem_cons_of_mem _ hspec) request outcome records
        (List.mem_append_left _ hmem)
    · exact hqueued exchange (List.mem_append_left _ hmem)
  · rintro ⟨hfirst, hrest⟩
    refine ⟨fun spec' hspec request outcome records hmem hname => ?_, fun exchange hmem => ?_⟩
    · -- an answer belongs to the part of its entity
      rcases List.mem_cons.mp hspec with rfl | hspec <;>
        rcases List.mem_append.mp hmem with hmem | hmem
      · exact absurd hname (hlater request outcome hmem)
      · exact hfirst.dropped spec' List.mem_cons_self request outcome records hmem hname
      · exact hrest.dropped spec' hspec request outcome records hmem hname
      · exact absurd hname (hpart spec' hspec request outcome hmem)
    · rcases List.mem_append.mp hmem with hmem | hmem
      · exact hrest.queued exchange hmem
      · exact hfirst.queued exchange hmem

theorem SyncEngine.SyncedIn.failed_iff {result : EntitySyncResult}
    (h : engine.SyncedIn outside incremental spec s (.ok result) s') (hnew : s.After new s') :
    result.failed = 0 ↔ engine.NoneFailed [spec] new := by
  obtain ⟨part, hpart⟩ := h.synced.after
  rw [h.synced.failed_iff rfl hpart]
  cases incremental with
  | false => rw [hnew.unique hpart]
  | true =>
      have hread : s.After [.executed (.selectSyncState spec.name)]
          (s.readCheckpoint true spec.name) := rfl
      rw [hnew.unique (hread.trans hpart)]
      constructor
      · rintro ⟨hdropped, hqueued⟩
        exact ⟨by simpa using hdropped, by simpa [or_imp, forall_and, Exchange.isQueued]
          using hqueued⟩
      · rintro ⟨hdropped, hqueued⟩
        exact ⟨by simpa using hdropped, fun exchange hmem =>
          hqueued exchange (List.mem_append_left _ hmem)⟩

/-- The failures of a cycle add up to nothing exactly when no record failed. -/
theorem SyncEngine.Cycled.totalFailed_iff
    (h : engine.Cycled outside incremental s specs results s')
    (hspecs : specs ⊆ engine.registry.specs) (hnodup : (specs.map (·.name)).Nodup)
    (hnew : s.After new s') :
    totalFailed results = 0 ↔ engine.NoneFailed specs new := by
  induction h generalizing new with
  | nil s =>
      rw [hnew.unique (.refl s)]
      exact iff_of_true rfl ⟨by simp, by simp⟩
  | @cons s s₁ s' spec specs result results h hrest ih =>
      rw [List.map_cons, List.nodup_cons] at hnodup
      have hspecs' : specs ⊆ engine.registry.specs :=
        fun _ hmem => hspecs (List.mem_cons_of_mem _ hmem)
      obtain ⟨start, hstart, -⟩ := s.readCheckpoint_after incremental spec.name
      obtain ⟨first, hfirst⟩ := h.synced.after
      obtain ⟨later, hlater⟩ := hrest.after
      have hfirst := hstart.trans hfirst
      rw [hnew.unique (hfirst.trans hlater), SyncEngine.NoneFailed.cons_iff,
        ← ih hspecs' hnodup.2 hlater, ← SyncedIn.failed_iff h hfirst]
      · simp [totalFailed]
      · intro request outcome hmem hname
        exact (hrest.leaves hspecs' hnodup.1).not_fetched hlater hname hmem
      · intro spec' hspec request outcome hmem hname
        have hne : spec.name ≠ spec'.name := fun heq =>
          hnodup.1 (heq ▸ List.mem_map_of_mem hspec)
        exact (Visit.leaves h (hspecs List.mem_cons_self) hne).not_fetched hfirst hname hmem

end cycle

/-! ## The status -/

namespace Command

variable (registry : Registry) (fromisoformat : String → Except String Date)

/-- The actions that sync. -/
def IsSync : Command → Prop
  | .processRetries => False
  | _ => True

/-- The entities an action is about. -/
def entities : Command → List String
  | .fullSync => registry.specs.map (·.name)
  | .incrementalSync => registry.specs.map (·.name)
  | .resyncEntity entityName _ _ => [entityName]
  | .processRetries => []

/-- Those among them that are registered. -/
def specs (command : Command) : List EntitySpec :=
  registry.specs.filter fun spec => spec.name ∈ command.entities registry

def incremental : Command → Bool
  | .incrementalSync => true
  | _ => false

/-- The action gets as far as asking Tally: the registry can be ordered, or the
range can be read and the entity is registered. -/
def Begins : Command → Prop
  | .fullSync => ∃ order, registry.resolveSyncOrder = .ok order
  | .incrementalSync => ∃ order, registry.resolveSyncOrder = .ok order
  | .resyncEntity entityName _ resyncRange =>
      (∃ range, readRange fromisoformat resyncRange = .ok range) ∧
        ∃ spec, registry.getEntity entityName = .ok spec
  | .processRetries => True

end Command

/-- For each of the entities a response was received that parses. -/
def SyncEngine.AllFetched (engine : SyncEngine δ) (entities : List String)
    (new : List (Exchange δ)) : Prop :=
  ∀ name ∈ entities, ∃ spec ∈ engine.registry.specs, spec.name = name ∧
    ∃ request outcome records, Exchange.fetched request outcome ∈ new ∧
      request.entityName = name ∧ engine.recordsOf spec outcome = .ok records

omit [DecidableEq δ] in
theorem SyncEngine.NoneFailed.congr {specs specs' : List EntitySpec}
    (h : ∀ spec, spec ∈ specs ↔ spec ∈ specs') :
    engine.NoneFailed specs new ↔ engine.NoneFailed specs' new :=
  ⟨fun hnone => ⟨fun spec hspec => hnone.dropped spec ((h spec).mpr hspec), hnone.queued⟩,
    fun hnone => ⟨fun spec hspec => hnone.dropped spec ((h spec).mp hspec), hnone.queued⟩⟩

section status

variable {fromisoformat : String → Except String Date} {command : Command}

/-- What 0 stands for: the action began, no checkpoint ended it, and no record
failed. -/
def SyncEngine.Clean (engine : SyncEngine δ) (fromisoformat : String → Except String Date)
    (command : Command) (s : Session δ) (new : List (Exchange δ)) : Prop :=
  (command.Begins engine.registry fromisoformat ∧ engine.AllFit command.incremental s new) ∧
    engine.NoneFailed (command.specs engine.registry) new

theorem open_cycle_status {incremental : Bool}
    (hkeys : ∀ spec ∈ engine.registry.specs, spec.TextKey) (hstored : s.db.Stored)
    (hworks : ∀ stmt exc, ¬ outside.fault stmt exc) :
    (do
      let results ← engine.runCycle incremental
      pure (if totalFailed results = 0 then 0 else 1) : Py δ Nat).Always outside.step
        (fun r s' => ∀ new, s.After new s' → (r = .ok 0 ↔
          ((∃ order, engine.registry.resolveSyncOrder = .ok order) ∧
            engine.AllFit incremental s new) ∧
          engine.NoneFailed engine.registry.specs new)) s := by
  cases horder : engine.registry.resolveSyncOrder with
  | error exc =>
      refine .bind (.bind (.ofExcept ?_))
      rw [horder]
      intro new _
      refine iff_of_false ?_ ?_
      · -- without an order no entity is visited
        rintro ⟨⟩
      · rintro ⟨⟨⟨order, ⟨⟩⟩, -⟩, -⟩
  | ok order =>
      have hperm := engine.registry.resolveSyncOrder_perm horder
      have hnodup : (order.map (·.name)).Nodup :=
        (hperm.map (·.name)).nodup_iff.mpr engine.registry.nodup
      refine .bind ((open_runCycle_fits horder hkeys hstored hworks).mono fun r s' hr => ?_)
      cases r with
      | error exc =>
          intro new hnew
          -- some number did not fit into its column
          refine iff_of_false ?_ fun h => hr new hnew h.1.2
          rintro ⟨⟩
      | ok results =>
          intro new hnew
          obtain ⟨hcycled, hfits⟩ := hr new hnew
          have hfailed := hcycled.totalFailed_iff hperm.subset hnodup hnew
          have hspecs : engine.NoneFailed order new ↔ engine.NoneFailed engine.registry.specs new :=
            SyncEngine.NoneFailed.congr fun spec => hperm.mem_iff
          rw [← hspecs, ← hfailed]
          simp [hfits]

theorem open_resync_status {entityName : String} {range : Option Date × Option Date}
    (hkeys : ∀ spec ∈ engine.registry.specs, spec.TextKey)
    (hworks : ∀ stmt exc, ¬ outside.fault stmt exc) :
    (do
      let result ← engine.resyncEntity entityName range.1 range.2
      pure (if result.failed = 0 then 0 else 1) : Py δ Nat).Always outside.step
        (fun r s' => ∀ new, s.After new s' → (r = .ok 0 ↔
          ((∃ spec, engine.registry.getEntity entityName = .ok spec) ∧
            engine.AllFit false s new) ∧
          engine.NoneFailed (engine.registry.specs.filter (·.name = entityName)) new)) s := by
  cases hget : engine.registry.getEntity entityName with
  | error exc =>
      refine .bind (.bind (.ofExcept ?_))
      rw [hget]
      intro new _
      refine iff_of_false ?_ ?_
      · rintro ⟨⟩
      · rintro ⟨⟨⟨order, ⟨⟩⟩, -⟩, -⟩
  | ok spec =>
      obtain ⟨hspec, rfl⟩ := engine.registry.getEntity_ok hget
      refine .bind (.bind (.ofExcept ?_))
      rw [hget]
      -- a resync reads no checkpoint
      have hvisit : (engine.visit false spec range.1 range.2).Always outside.step
          (engine.Visit outside false spec range.1 range.2 s) s :=
        open_visit hworks hspec range.1 range.2
      refine hvisit.mono fun r s' hvisited => ?_
      have hsynced : engine.Synced outside spec none
          (engine.collectionRequest spec none range.1 range.2) s r s' := hvisited.synced
      have hspecs : ∀ spec', spec' ∈ engine.registry.specs.filter (·.name = spec.name) ↔
          spec' ∈ [spec] := by
        intro spec'
        rw [List.mem_filter, List.mem_singleton, decide_eq_true_iff]
        constructor
        · rintro ⟨hspec', hname⟩
          exact engine.registry.eq_of_name hspec' hspec hname
        · rintro rfl
          exact ⟨hspec, rfl⟩
      cases r with
      | error exc =>
          intro new hnew
          refine iff_of_false (by rintro ⟨⟩) fun h => ?_
          obtain ⟨result, hresult⟩ := SyncEngine.Synced.returns hsynced hworks (hkeys spec hspec)
            rfl hnew fun outcome records hmem hrecords =>
              h.1.2 spec hspec _ outcome records hmem rfl hrecords
          cases hresult
      | ok result =>
          intro new hnew
          have hfailed := SyncEngine.Synced.failed_iff hsynced rfl hnew
          have hfits : engine.AllFit false s new := by
            intro spec' hspec' request outcome records hmem hname hrecords
            by_cases hsame : spec.name = spec'.name
            · obtain rfl := engine.registry.eq_of_name hspec hspec' hsame
              exact SyncEngine.Synced.fits hsynced hnew hmem hrecords
            · exact absurd hmem ((hvisited.leaves hspec hsame).not_fetched hnew hname)
          rw [SyncEngine.NoneFailed.congr hspecs, ← hfailed]
          simp [hfits]

theorem open_perform (hsync : command.IsSync)
    (hkeys : ∀ spec ∈ engine.registry.specs, spec.TextKey) (hstored : s.db.Stored)
    (hworks : ∀ stmt exc, ¬ outside.fault stmt exc) :
    (engine.perform fromisoformat command).Always outside.step
      (fun r s' => ∀ new, s.After new s' →
        (r = .ok 0 ↔ engine.Clean fromisoformat command s new)) s := by
  -- the entities of a cycle are all that are registered
  have hall : ∀ new, engine.NoneFailed engine.registry.specs new ↔
      engine.NoneFailed (engine.registry.specs.filter fun spec =>
        spec.name ∈ engine.registry.specs.map (·.name)) new := by
    refine fun new => SyncEngine.NoneFailed.congr fun spec => ?_
    rw [List.mem_filter, decide_eq_true_iff]
    exact ⟨fun h => ⟨h, List.mem_map_of_mem h⟩, And.left⟩
  cases command with
  | fullSync =>
      refine (open_cycle_status hkeys hstored hworks).mono fun r s' hr new hnew => ?_
      rw [hr new hnew, hall]
      rfl
  | incrementalSync =>
      refine (open_cycle_status hkeys hstored hworks).mono fun r s' hr new hnew => ?_
      rw [hr new hnew, hall]
      rfl
  | resyncEntity entityName hne resyncRange =>
      refine .bind (.ofExcept ?_)
      cases hrange : readRange fromisoformat resyncRange with
      | error exc =>
          intro new _
          refine iff_of_false (by rintro ⟨⟩) ?_
          rintro ⟨⟨⟨⟨range, hread⟩, -⟩, -⟩, -⟩
          rw [hrange] at hread
          cases hread
      | ok range =>
          refine (open_resync_status hkeys hworks).mono fun r s' hr new hnew => ?_
          rw [hr new hnew]
          simp [SyncEngine.Clean, Command.Begins, Command.specs, Command.entities, hrange,
            Command.incremental]
  | processRetries => exact hsync.elim

/-- The status 0 says that nothing failed and nothing interrupted the action. -/
theorem open_main (hsync : command.IsSync)
    (hkeys : ∀ spec ∈ engine.registry.specs, spec.TextKey) (hstored : s.db.Stored)
    (hworks : ∀ stmt exc, ¬ outside.fault stmt exc) :
    (engine.main fromisoformat command).Always outside.step
      (fun r s' => ∀ new, s.After new s' →
        (exitStatus r = 0 ↔ engine.Clean fromisoformat command s new)) s := by
  refine .tryCatch ((open_perform hsync hkeys hstored hworks).mono fun r s' hr => ?_)
  cases r with
  | ok status =>
      intro new hnew
      rw [← hr new hnew]
      simp [exitStatus]
  | error exc =>
      have hnot : ∀ new, s.After new s' → ¬ engine.Clean fromisoformat command s new := by
        intro new hnew hclean
        cases (hr new hnew).mpr hclean
      dsimp only
      split
      · exact fun new hnew => iff_of_false (by simp [exitStatus]) (hnot new hnew)
      · exact fun new hnew => iff_of_false (by simp [exitStatus]) (hnot new hnew)

/-- The status 0 is returned exactly if all entities were fetched and no record
failed, if and only if: when no record failed, the entities that were fetched
are all of them exactly in the runs that no exception ends, neither at the
start nor at a checkpoint that does not fit. -/
theorem exit_status_truthful (hsync : command.IsSync)
    (hkeys : ∀ spec ∈ engine.registry.specs, spec.TextKey) (hstored : s.db.Stored)
    {r : Except Exn Nat}
    (hrun : (engine.main fromisoformat command).Runs Outside.reliableStore.step s r s')
    (hnew : s.After new s') :
    (exitStatus r = 0 ↔ engine.AllFetched (command.entities engine.registry) new ∧
        engine.NoneFailed (command.specs engine.registry) new) ↔
      (engine.NoneFailed (command.specs engine.registry) new →
        (engine.AllFetched (command.entities engine.registry) new ↔
          command.Begins engine.registry fromisoformat ∧
            engine.AllFit command.incremental s new)) := by
  rw [(open_main hsync hkeys hstored fun _ _ => id).of_runs hrun new hnew, SyncEngine.Clean]
  tauto

end status

/-! ## Groups -/

/-- A full sync of three groups, one of them created, one dropped and one
queued, exits with 1; a full sync that creates the one group there is exits
with 0. -/
theorem exit_status_truthful_groups :
    let engine := groupEngine 1 [mixedGroups, [assets]]
    let main := engine.main (fun _ => .error "") .fullSync
    (∃ r s', main.Runs Outside.reliableStore.step Session.fresh r s' ∧ exitStatus r = 1 ∧
      engine.AllFetched ["group"] s'.history ∧ ¬ engine.NoneFailed [group] s'.history) ∧
    ∃ r s', main.Runs Outside.reliableStore.step Session.fresh r s' ∧ exitStatus r = 0 ∧
      engine.AllFetched ["group"] s'.history ∧ engine.NoneFailed [group] s'.history := by
  intro engine main
  have htruth : ∀ {groups records r s'},
      engine.recordsOf group (.response 200 (groupPage groups)) = .ok records →
        SyncEngine.Fits group none records →
          main.Runs Outside.reliableStore.step Session.fresh r s' →
            onlyPage groups s'.history = true → fetchedPage groups s'.history = true →
              engine.AllFetched ["group"] s'.history ∧
                (exitStatus r = 0 ↔ engine.NoneFailed [group] s'.history) := by
    intro groups records r s' hrecords hfits hruns honly hfetched
    have hall : engine.AllFetched ["group"] s'.history := by
      obtain ⟨request, outcome, hmem, hname, hread⟩ := reads_page hrecords hfetched
      intro name hname'
      obtain rfl := List.mem_singleton.mp hname'
      exact ⟨group, List.mem_cons_self, rfl, request, outcome, _, hmem, hname, hread⟩
    have hiff := (exit_status_truthful (show Command.fullSync.IsSync from trivial) (by decide)
      (fun _ _ h => by cases h) hruns (List.append_nil _).symm).mpr fun _ =>
        iff_of_true hall ⟨⟨[group], rfl⟩, allFit_page hrecords hfits honly⟩
    exact ⟨hall, hiff.trans (and_iff_right hall)⟩
  constructor
  · have hplay : (play Outside.reliableExec mixedReplies main Session.fresh).any (fun final =>
        exitStatus final.1 = 1 ∧ onlyPage mixedGroups final.2.history ∧
          fetchedPage mixedGroups final.2.history) = true := by decide +kernel
    obtain ⟨⟨r, s'⟩, hrun, hfinal⟩ := (Option.any_eq_true _ _).mp hplay
    obtain ⟨hstatus, honly, hfetched⟩ := of_decide_eq_true hfinal
    have hruns := runs_of_play Outside.step_of_reliableExec hrun
    obtain ⟨hall, hnone⟩ :=
      htruth recordsOf_mixedGroups fits_mixedGroups hruns honly hfetched
    refine ⟨r, s', hruns, hstatus, hall, fun h => ?_⟩
    have hzero : exitStatus r = 0 := hnone.mpr h
    exact absurd (hzero.symm.trans hstatus) (by decide)
  · have hplay : (play Outside.reliableExec
        (createAssets (savedBody "GRP-1") ++
          [.done, .clock 0, .done, .clock 0, .clock 0, .done, .done])
        main Session.fresh).any (fun final => exitStatus final.1 = 0 ∧
          onlyPage [assets] final.2.history ∧ fetchedPage [assets] final.2.history) = true := by
      decide +kernel
    obtain ⟨⟨r, s'⟩, hrun, hfinal⟩ := (Option.any_eq_true _ _).mp hplay
    obtain ⟨hstatus, honly, hfetched⟩ := of_decide_eq_true hfinal
    have hruns := runs_of_play Outside.step_of_reliableExec hrun
    obtain ⟨hall, hnone⟩ := htruth recordsOf_assets fits_assets hruns honly hfetched
    exact ⟨r, s', hruns, hstatus, hall, hnone.mp hstatus⟩

/-- A full sync that never reaches Tally exits with 0 as well. -/
theorem exit_status_untruthful :
    let engine := groupEngine 1 []
    ∃ r s', (engine.main (fun _ => .error "") .fullSync).Runs Outside.reliableStore.step
        Session.fresh r s' ∧ Session.fresh.After s'.history s' ∧ exitStatus r = 0 ∧
      ¬ (exitStatus r = 0 ↔
        engine.AllFetched (Command.fullSync.entities engine.registry) s'.history ∧
          engine.NoneFailed (Command.fullSync.specs engine.registry) s'.history) := by
  intro engine
  have hplay : (play Outside.reliableExec [.done, .tally .timeout, .clock 0, .clock 0, .done, .done]
      (engine.main (fun _ => .error "") .fullSync) Session.fresh).any (fun final =>
        exitStatus final.1 = 0 ∧ final.2.history.all fun exchange =>
          !exchange.isFetch fun _ outcome => outcome != .timeout) = true := by decide +kernel
  obtain ⟨⟨r, s'⟩, hrun, hfinal⟩ := (Option.any_eq_true _ _).mp hplay
  obtain ⟨hstatus, htimeout⟩ := of_decide_eq_true hfinal
  refine ⟨r, s', runs_of_play Outside.step_of_reliableExec hrun, (List.append_nil _).symm,
    hstatus, fun htruth => ?_⟩
  obtain ⟨spec, -, -, request, outcome, records, hmem, -, hrecords⟩ :=
    (htruth.mp hstatus).1 "group" List.mem_cons_self
  obtain rfl : outcome = .timeout := by
    simpa [Exchange.isFetch] using List.all_eq_true.mp htimeout _ hmem
  cases hrecords

end TallyConnector
