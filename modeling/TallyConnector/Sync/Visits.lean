import TallyConnector.Sync.OpenSync

/-! # The entities of an operation

An operation visits entities one after the other. What the visit of one entity
leaves alone about the others carries facts about a single visit over to the
whole operation.
-/

namespace TallyConnector

open Effects Prog

variable {δ : Type} {engine : SyncEngine δ} {outside : Outside δ} {spec : EntitySpec}
variable {s s' s₁ : Session δ} {new : List (Exchange δ)}

/-! ## The rows of a record -/

/-- Only the cache row and the queued row of the record have changed. -/
structure OwnRows (spec : EntitySpec) (raw : Record) (s s' : Session δ) : Prop where
  syncState : s'.db.syncState = s.db.syncState
  syncCache : ∀ key, (key.entityName ≠ spec.name ∨ spec.keyOf raw ≠ some key.tallyGuid) →
    s'.db.syncCache key = s.db.syncCache key
  retryQueue : ∀ row : RetryRow, (row.key.entityName ≠ spec.name ∨
      bindTextNotNull "retry_queue.record_guid" (SyncEngine.recordGuid spec raw) ≠
        .ok row.key.recordGuid) →
    (row ∈ s'.db.retryQueue.rows ↔ row ∈ s.db.retryQueue.rows)

theorem DB.SameBut.ownRows {item : Item engine} (h : s.db.SameBut item.cacheKey s'.db) :
    OwnRows item.spec item.raw s s' where
  syncState := h.syncState
  syncCache := by
    intro key hkey
    refine h.others key ?_
    rintro rfl
    rcases hkey with hname | hguid
    · exact hname rfl
    · exact hguid item.keyOf_raw
  retryQueue := fun row _ => by rw [h.retryQueue]

theorem Item.Pushed.sameBut {item : Item engine} {r : Except Exn Unit}
    (h : item.Pushed outside s new r s') : s.db.SameBut item.cacheKey s'.db := by
  cases h with
  | unchanged row _ _ _ => exact .refl _
  | saved looks s₁ op name bound lastPushedAt hlooks _ _ _ => exact hlooks.db.trans (.upsert _)
  | failed looks s₁ exc hlooks _ => exact hlooks.db
  | lost looks s₁ op name lastPushedAt exc hlooks _ _ => exact hlooks.db

/-- The treatment of a record touches the rows of no other record. -/
theorem SyncEngine.Treated.ownRows {raw : Record} {r : Except Exn Unit}
    (h : engine.Treated outside spec raw s new r s') : OwnRows spec raw s s' := by
  cases h with
  | dropped _ => exact ⟨rfl, fun _ _ => rfl, fun _ _ => Iff.rfl⟩
  | unmapped _ _ _ => exact ⟨rfl, fun _ _ => rfl, fun _ _ => Iff.rfl⟩
  | pushed item hspec hraw hpushed =>
      subst hspec hraw
      exact hpushed.sameBut.ownRows
  | queued item hspec hraw hpushed guid hguid nextAttemptAt createdAt =>
      subst hspec hraw
      have hown := hpushed.sameBut.ownRows
      refine ⟨hown.syncState, hown.syncCache, fun row hrow => ?_⟩
      rw [← hown.retryQueue row hrow]
      refine Tables.AutoTable.mem_upsert_of_ne ?_
      rintro hkey
      rw [hkey] at hrow
      rcases hrow with hname | hbound
      · exact hname rfl
      · exact hbound hguid
  | aborted item hspec hraw hpushed stmt exc' _ =>
      subst hspec hraw
      have hown := hpushed.sameBut.ownRows
      exact ⟨hown.syncState, hown.syncCache, hown.retryQueue⟩

/-- The cache row of a record of the entity. -/
def SyncEngine.cachedRow (engine : SyncEngine δ) (spec : EntitySpec) (s : Session δ)
    (key : String) : Option (CacheRow δ) :=
  s.db.syncCache (engine.cacheKey spec.name key)

theorem SyncEngine.Treated.cachedRow {raw : Record} {r : Except Exn Unit} {key : String}
    (h : engine.Treated outside spec raw s new r s') (hkey : spec.keyOf raw ≠ some key) :
    engine.cachedRow spec s' key = engine.cachedRow spec s key :=
  h.ownRows.syncCache _ (.inr hkey)

/-! ## Frames -/

/-- The rows of an entity are what they were. -/
structure DB.SameFor (entityName : String) (db db' : DB δ) : Prop where
  syncState : db'.syncState entityName = db.syncState entityName
  syncCache : ∀ key, key.entityName = entityName → db'.syncCache key = db.syncCache key
  retryQueue : ∀ row : RetryRow, row.key.entityName = entityName →
    (row ∈ db'.retryQueue.rows ↔ row ∈ db.retryQueue.rows)

namespace DB.SameFor

variable {entityName : String} {db db' db'' : DB δ}

theorem refl (db : DB δ) : SameFor entityName db db := ⟨rfl, fun _ _ => rfl, fun _ _ => Iff.rfl⟩

theorem trans (h : SameFor entityName db db') (h' : SameFor entityName db' db'') :
    SameFor entityName db db'' where
  syncState := h'.syncState.trans h.syncState
  syncCache key hkey := (h'.syncCache key hkey).trans (h.syncCache key hkey)
  retryQueue row hrow := (h'.retryQueue row hrow).trans (h.retryQueue row hrow)

end DB.SameFor

/-- What is exchanged for one entity leaves the rows of another alone. -/
theorem Session.sameFor_take {exchange : Exchange δ} {entityName : String}
    (h : engine.Concerns spec exchange.call) (hne : spec.name ≠ entityName) :
    s.db.SameFor entityName (s.take exchange).db := by
  cases exchange with
  | executed stmt =>
      simp only [Session.take]
      split
      · next db hexec =>
        cases stmt with
        | selectSyncState name =>
            cases hexec
            exact .refl _
        | upsertSyncState name row =>
            -- the statement writes, but in another entity
            have hname : name = spec.name := h.resolve_left (by simp [Exchange.call])
            simp only [DB.exec] at hexec
            split at hexec <;> cases hexec
            refine ⟨Function.update_of_ne (fun heq => hne ?_) _ _, fun _ _ => rfl, fun _ _ => Iff.rfl⟩
            rw [← hname, heq]
        | upsertRetry name guid operation payload nextAttemptAt error createdAt =>
            have hname : name = spec.name := h.resolve_left (by simp [Exchange.call])
            simp only [DB.exec] at hexec
            split at hexec <;> cases hexec
            refine ⟨rfl, fun _ _ => rfl, fun row hrow => Tables.AutoTable.mem_upsert_of_ne ?_⟩
            rintro hkey
            rw [hkey] at hrow
            exact hne (hname.symm.trans hrow)
        | selectCache key =>
            cases hexec
            exact .refl _
        | upsertCache key name doctype hash lastPushedAt =>
            have hname := (h.resolve_left (by simp [Exchange.call])).1
            simp only [DB.exec] at hexec
            split at hexec <;> cases hexec
            refine ⟨rfl, fun key' hkey => Function.update_of_ne ?_ _ _, fun _ _ => Iff.rfl⟩
            rintro rfl
            exact hne (hname.symm.trans hkey)
        | _ => exact (h.resolve_left (by simp [Exchange.call])).elim
      · exact .refl _
  | _ => exact .refl _

/-- The exchange is for an entity other than this one. -/
def SyncEngine.Elsewhere (engine : SyncEngine δ) (spec : EntitySpec) (exchange : Exchange δ) :
    Prop :=
  ∃ other ∈ engine.registry.specs, other.name ≠ spec.name ∧ engine.Concerns other exchange.call

/-- The part of a run in which only other entities were visited. -/
def SyncEngine.Leaves (engine : SyncEngine δ) (spec : EntitySpec) (s s' : Session δ) : Prop :=
  ∃ new, s' = s.replay new ∧ ∀ exchange ∈ new, engine.Elsewhere spec exchange

namespace SyncEngine.Leaves

theorem refl (s : Session δ) : engine.Leaves spec s s := ⟨[], rfl, by simp⟩

theorem trans (h : engine.Leaves spec s s₁) (h' : engine.Leaves spec s₁ s') :
    engine.Leaves spec s s' := by
  obtain ⟨new, rfl, hall⟩ := h
  obtain ⟨new', rfl, hall'⟩ := h'
  exact ⟨new' ++ new, Session.replay_append.symm, fun exchange hmem =>
    (List.mem_append.mp hmem).elim (hall' exchange) (hall exchange)⟩

theorem sameFor (h : engine.Leaves spec s s') : s.db.SameFor spec.name s'.db := by
  obtain ⟨new, rfl, hall⟩ := h
  induction new with
  | nil => exact .refl _
  | cons exchange new ih =>
      obtain ⟨other, -, hne, hconcerns⟩ := hall exchange List.mem_cons_self
      exact (ih fun exchange hmem => hall exchange (List.mem_cons_of_mem _ hmem)).trans
        (Session.sameFor_take hconcerns hne)

/-- Tally was not asked for the entity. -/
theorem not_fetched (h : engine.Leaves spec s s') (hnew : s.After new s')
    {request : CollectionRequest} {outcome : TallyOutcome}
    (hname : request.entityName = spec.name) : Exchange.fetched request outcome ∉ new := by
  intro hmem
  obtain ⟨new', rfl, hall⟩ := h
  rw [hnew.unique (Session.after_replay s new')] at hmem
  obtain ⟨other, -, hne, hconcerns⟩ := hall _ hmem
  have hother : request.entityName = other.name := hconcerns.resolve_left (by simp [Exchange.call])
  exact hne (hother.symm.trans hname)

end SyncEngine.Leaves

/-- Tally is not asked while a checkpoint is read. -/
theorem Session.readCheckpoint_after (s : Session δ) (incremental : Bool) (entityName : String) :
    ∃ part, s.After part (s.readCheckpoint incremental entityName) ∧
      ∀ request outcome, Exchange.fetched request outcome ∉ part := by
  cases incremental with
  | false => exact ⟨[], .refl s, by simp⟩
  | true => exact ⟨[_], rfl, by simp⟩

section treated

variable {request : CollectionRequest} {outcome : TallyOutcome}

theorem Item.Pushed.not_fetched {item : Item engine} {r : Except Exn Unit}
    (h : item.Pushed outside s new r s') : Exchange.fetched request outcome ∉ new := by
  have hnot : ∀ {looks : List (Exchange δ)} {s₁ : Session δ},
      s.LookedUp item.cacheKey looks s₁ → Exchange.fetched request outcome ∉ looks :=
    fun hlooks hmem => hlooks.lookups _ hmem
  cases h with
  | unchanged row _ _ _ => simp
  | saved looks s₁ op name bound lastPushedAt hlooks _ _ _ => simpa using hnot hlooks
  | failed looks s₁ exc hlooks _ => exact hnot hlooks
  | lost looks s₁ op name lastPushedAt exc hlooks _ _ => simpa using hnot hlooks

/-- Tally is not asked while records are treated. -/
theorem SyncEngine.Treated.not_fetched {raw : Record} {r : Except Exn Unit}
    (h : engine.Treated outside spec raw s new r s') : Exchange.fetched request outcome ∉ new := by
  cases h with
  | dropped _ => simp
  | unmapped _ _ _ => simp
  | pushed item _ _ hpushed => exact hpushed.not_fetched
  | queued item _ _ hpushed guid _ nextAttemptAt createdAt => simpa using hpushed.not_fetched
  | aborted item _ _ hpushed stmt exc' _ => simpa using hpushed.not_fetched

end treated

variable [DecidableEq δ]

theorem SyncEngine.Passes.not_fetched {parts : List (Part δ)} {request : CollectionRequest}
    {outcome : TallyOutcome} (h : engine.Passes outside spec s parts s') :
    Exchange.fetched request outcome ∉ exchanges parts := by
  induction h with
  | nil s => simp [exchanges]
  | cons hbefore _ htreated _ ih =>
      intro hmem
      rcases List.mem_append.mp hmem with hmem | hmem
      · exact ih hmem
      · exact htreated.not_fetched hmem

theorem SyncEngine.Passes.cachedRow {parts : List (Part δ)} {key : String}
    (h : engine.Passes outside spec s parts s')
    (hkey : key ∉ (parts.map (·.raw)).filterMap spec.keyOf) :
    engine.cachedRow spec s' key = engine.cachedRow spec s key := by
  induction h with
  | nil s => rfl
  | @cons s s' part parts hbefore _ htreated _ ih =>
      subst hbefore
      have hhead : spec.keyOf part.raw ≠ some key := fun hhead =>
        hkey (List.mem_filterMap.mpr ⟨part.raw, by simp, hhead⟩)
      have htail : key ∉ (parts.map (·.raw)).filterMap spec.keyOf := fun htail => by
        obtain ⟨raw, hraw, hkeyOf⟩ := List.mem_filterMap.mp htail
        exact hkey (List.mem_filterMap.mpr ⟨raw, List.mem_cons_of_mem _ hraw, hkeyOf⟩)
      exact (ih htail).trans (htreated.cachedRow hhead)

theorem SyncEngine.Passes.treated {parts : List (Part δ)}
    (h : engine.Passes outside spec s parts s') : ∀ part ∈ parts,
      engine.Treated outside spec part.raw part.before part.new (.ok ()) part.after := by
  induction h with
  | nil s => simp
  | cons hbefore _ htreated _ ih => exact List.forall_mem_cons.mpr ⟨htreated, ih⟩

/-- Under distinct keys the row of a record changes in its own part only. -/
theorem SyncEngine.Passes.cachedRow_part {parts : List (Part δ)}
    (h : engine.Passes outside spec s parts s')
    (hdistinct : ((parts.map (·.raw)).filterMap spec.keyOf).Nodup) :
    ∀ part ∈ parts, ∀ key, spec.keyOf part.raw = some key →
      engine.cachedRow spec part.before key = engine.cachedRow spec s key ∧
      engine.cachedRow spec s' key = engine.cachedRow spec part.after key := by
  induction h with
  | nil s => simp
  | @cons s s' head parts hbefore _ htreated hrest ih =>
      subst hbefore
      rw [List.map_cons, List.filterMap_cons] at hdistinct
      intro part hpart key hkey
      -- the first record: no later one has its key
      rcases List.mem_cons.mp hpart with rfl | hpart'
      · rw [hkey] at hdistinct
        exact ⟨rfl, hrest.cachedRow (List.nodup_cons.mp hdistinct).1⟩
      · -- a later one: the first has another key
        have hmem : key ∈ (parts.map (·.raw)).filterMap spec.keyOf :=
          List.mem_filterMap.mpr ⟨part.raw, List.mem_map_of_mem hpart', hkey⟩
        have htail : ((parts.map (·.raw)).filterMap spec.keyOf).Nodup ∧
            spec.keyOf head.raw ≠ some key := by
          cases hhead : spec.keyOf head.raw with
          | none =>
              rw [hhead] at hdistinct
              exact ⟨hdistinct, by simp⟩
          | some other =>
              rw [hhead] at hdistinct
              obtain ⟨hnot, hnodup⟩ := List.nodup_cons.mp hdistinct
              refine ⟨hnodup, fun heq => hnot ?_⟩
              cases heq
              exact hmem
        obtain ⟨hrow, hend⟩ := ih htail.1 part hpart' key hkey
        exact ⟨hrow.trans (htreated.cachedRow htail.2), hend⟩

section entity

variable {since : Option Int} {request : CollectionRequest}

theorem SyncEngine.Collected.after {maxAlterId : Option Int} {status : String}
    (h : engine.Collected outside spec since request s maxAlterId status s') :
    ∃ part, s.After part s' := by
  cases h with
  | unfetched outcomes _ _ => exact ⟨_, after_opening⟩
  | fetched outcome rest records _ _ parts _ _ hpasses =>
      exact ⟨_, (after_opening.trans (.count _ _)).trans hpasses.after⟩

theorem SyncEngine.Synced.after {r : Except Exn EntitySyncResult}
    (h : engine.Synced outside spec since request s r s') : ∃ part, s.After part s' := by
  cases h with
  | written _ _ s₁ h row _ _ _ =>
      obtain ⟨part, hpart⟩ := h.after
      exact ⟨_, hpart.written spec.name row⟩
  | unwritten _ _ s₁ h row exc _ =>
      obtain ⟨part, hpart⟩ := h.after
      exact ⟨_, hpart.rejected (.upsertSyncState spec.name row) exc⟩
  | interrupted outcome outcomes records _ _ parts raw rest _ s₁ _ new exc hpasses htreated =>
      exact ⟨_, ((after_opening.trans (.count _ _)).trans hpasses.after).trans htreated.after⟩

/-- A response that can be read is the one whose records are treated. -/
theorem SyncEngine.Collected.of_fetched {maxAlterId : Option Int} {status : String}
    (h : engine.Collected outside spec since request s maxAlterId status s')
    (hnew : s.After new s') {request' : CollectionRequest} {outcome : TallyOutcome}
    (hmem : Exchange.fetched request' outcome ∈ new) {records : List Record}
    (hrecords : engine.recordsOf spec outcome = .ok records) :
    maxAlterId = records.foldl (SyncEngine.seen spec) since ∧
      ∃ outcomes parts, parts.map (·.raw) = records ∧
        new = exchanges parts ++
          (.counted (.fetched records.length) :: opening spec request outcomes) ∧
        engine.Passes outside spec (((s.count (.new spec.name)).fetch request outcomes).count
          (.fetched records.length)) parts s' := by
  -- an answer that was read is none of those that failed
  have hunread : ∀ {outcomes}, engine.FetchFails spec outcomes → outcome ∉ outcomes := by
    intro outcomes hfails hmem
    obtain ⟨exc, hexc⟩ := hfails outcome hmem
    rw [hrecords] at hexc
    cases hexc
  cases h with
  | unfetched outcomes _ hfails =>
      rw [hnew.unique after_opening, fetched_mem_opening] at hmem
      exact absurd hmem.2 (hunread hfails)
  | fetched outcome' rest records' hrecords' hrest parts hparts _ hpasses =>
      have hall := hnew.unique ((after_opening.trans (.count _ _)).trans hpasses.after)
      rw [hall] at hmem
      -- so it is the one whose records were passed
      have hsame : records' = records := by
        rcases List.mem_append.mp hmem with hmem | hmem
        · exact absurd hmem hpasses.not_fetched
        · rcases List.mem_append.mp hmem with hmem | hmem
          · simp at hmem
          · rcases List.mem_cons.mp (fetched_mem_opening.mp hmem).2 with rfl | hmem
            · exact Except.ok.inj (hrecords'.symm.trans hrecords)
            · exact absurd hmem (hunread hrest)
      subst hsame
      exact ⟨rfl, outcome' :: rest, parts, hparts, hall, hpasses⟩

end entity

/-! ## Visits -/

namespace Operation

/-- A sync reads the stored checkpoint if it is incremental. -/
def incremental : Operation → Bool
  | .incrementalSync => true
  | _ => false

/-- The date range of a sync. -/
def range : Operation → Option Date × Option Date
  | .resyncEntity _ dateFrom dateTo => (dateFrom, dateTo)
  | _ => (none, none)

/-- The syncs among the operations. -/
def IsSync : Operation → Prop
  | .processRetryQueue _ => False
  | _ => True

end Operation

/-! ## Visits -/

theorem SyncEngine.all_visit {incremental : Bool} (dateFrom dateTo : Option Date) :
    (engine.visit incremental spec dateFrom dateTo).All (engine.Concerns spec) := by
  refine All.bind ?_ fun since =>
    (engine.all_syncEntity spec since dateFrom dateTo).mono fun _ => .inr
  unfold sinceAlterId
  split
  · exact (all_sql (P := engine.Concerns spec) (.inl rfl)).bind fun _ => trivial
  · trivial

section visit

variable {incremental : Bool} {dateFrom dateTo : Option Date} {r : Except Exn EntitySyncResult}

/-- The exchanges of a visit concern its entity, and they are all of it. -/
theorem SyncEngine.Visit.replay
    (h : engine.Visit outside incremental spec dateFrom dateTo s r s') :
    ∃ part, s' = s.replay part ∧ ∀ exchange ∈ part, engine.Concerns spec exchange.call :=
  replay_of_runs (all_visit dateFrom dateTo) h.run

/-- The visit of another entity. -/
theorem SyncEngine.Visit.leaves {other : EntitySpec}
    (h : engine.Visit outside incremental other dateFrom dateTo s r s')
    (hother : other ∈ engine.registry.specs) (hne : other.name ≠ spec.name) :
    engine.Leaves spec s s' := by
  obtain ⟨part, hpart, hall⟩ := h.replay
  exact ⟨part, hpart, fun exchange hmem => ⟨other, hother, hne, hall exchange hmem⟩⟩

end visit

/-- The operation visited the entity once. -/
def SyncEngine.Visits (engine : SyncEngine δ) (outside : Outside δ) (op : Operation)
    (spec : EntitySpec) (s s' : Session δ) : Prop :=
  ∃ s₁ r s₂, engine.Leaves spec s s₁ ∧
    engine.Visit outside op.incremental spec op.range.1 op.range.2 s₁ r s₂ ∧
    engine.Leaves spec s₂ s'

variable {op : Operation}

theorem SyncEngine.Visits.before (h : engine.Visits outside op spec s₁ s')
    (hs : engine.Leaves spec s s₁) : engine.Visits outside op spec s s' := by
  obtain ⟨s₂, r, s₃, hbefore, hvisit, hafter⟩ := h
  exact ⟨s₂, r, s₃, hs.trans hbefore, hvisit, hafter⟩

section cycled

variable {incremental : Bool} {specs : List EntitySpec} {results : List EntitySyncResult}

/-- A cycle over other entities leaves an entity alone. -/
theorem SyncEngine.Cycled.leaves (h : engine.Cycled outside incremental s specs results s')
    (hspecs : specs ⊆ engine.registry.specs) (hnot : spec.name ∉ specs.map (·.name)) :
    engine.Leaves spec s s' := by
  induction h with
  | nil s => exact .refl s
  | cons h _ ih =>
      rw [List.map_cons, List.mem_cons, not_or] at hnot
      have hhead := Visit.leaves h (hspecs List.mem_cons_self) (Ne.symm hnot.1)
      exact hhead.trans (ih (fun _ hmem => hspecs (List.mem_cons_of_mem _ hmem)) hnot.2)

theorem SyncEngine.Cycled.visits (hop : op.incremental = incremental)
    (hrange : op.range = (none, none)) (h : engine.Cycled outside incremental s specs results s')
    (hspecs : specs ⊆ engine.registry.specs) (hnodup : (specs.map (·.name)).Nodup) :
    ∀ spec ∈ specs, engine.Visits outside op spec s s' := by
  subst hop
  induction h with
  | nil s => simp
  | @cons s s₁ s' spec specs result results h hrest ih =>
      rw [List.map_cons, List.nodup_cons] at hnodup
      have hspecs' : specs ⊆ engine.registry.specs :=
        fun _ hmem => hspecs (List.mem_cons_of_mem _ hmem)
      intro spec' hmem
      rcases List.mem_cons.mp hmem with rfl | hmem'
      · refine ⟨s, .ok result, s₁, .refl s, ?_, hrest.leaves hspecs' hnodup.1⟩
        rw [hrange]
        exact h
      · have hne : spec.name ≠ spec'.name := fun heq =>
          hnodup.1 (heq ▸ List.mem_map_of_mem hmem')
        exact (ih hspecs' hnodup.2 spec' hmem').before
          (Visit.leaves h (hspecs List.mem_cons_self) hne)

end cycled

/-- A cycle visits every entity once, up to the visit that raises. -/
theorem open_syncEntities_visits {incremental : Bool} (hop : op.incremental = incremental)
    (hrange : op.range = (none, none)) (hworks : ∀ stmt exc, ¬ outside.fault stmt exc)
    {specs : List EntitySpec} (hspecs : specs ⊆ engine.registry.specs)
    (hnodup : (specs.map (·.name)).Nodup) :
    (engine.syncEntities incremental specs).Always outside.step
      (fun r s' => ∀ spec ∈ specs, engine.Visits outside op spec s s' ∨
        ((∃ exc, r = .error exc) ∧ engine.Leaves spec s s')) s := by
  refine (open_syncEntities hworks hspecs).mono fun r s' hr => ?_
  cases r with
  | ok results => exact fun spec hmem => .inl (hr.visits hop hrange hspecs hnodup spec hmem)
  | error exc =>
      obtain ⟨before, spec, after, results, s₁, rfl, hcycled, hlast⟩ := hr
      rw [List.map_append, List.map_cons, List.nodup_append] at hnodup
      obtain ⟨hbefore, hafter, hdisjoint⟩ := hnodup
      rw [List.nodup_cons] at hafter
      have hspecs' : before ⊆ engine.registry.specs :=
        fun _ hmem => hspecs (List.mem_append_left _ hmem)
      have hspec : spec ∈ engine.registry.specs := hspecs (by simp)
      have hvisits := hcycled.visits hop hrange hspecs' hbefore
      have hvisit : engine.Visit outside op.incremental spec op.range.1 op.range.2 s₁
          (.error exc) s' := by
        rw [hop, hrange]
        exact hlast
      have hnot : ∀ name ∈ (spec :: after).map (·.name), name ∉ before.map (·.name) :=
        fun name hmem hmem' => hdisjoint name hmem' name hmem rfl
      intro spec' hmem
      rcases List.mem_append.mp hmem with hmem' | hmem'
      · -- visited before
        obtain ⟨s₂, r, s₃, h₁, h₂, h₃⟩ := hvisits spec' hmem'
        have hne : spec.name ≠ spec'.name := fun heq =>
          hnot spec.name List.mem_cons_self (heq ▸ List.mem_map_of_mem hmem')
        exact .inl ⟨s₂, r, s₃, h₁, h₂, h₃.trans (hvisit.leaves hspec hne)⟩
      · have hbefore' := hcycled.leaves hspecs' (hnot _ (List.mem_map_of_mem hmem'))
        rcases List.mem_cons.mp hmem' with rfl | hmem''
        · -- the visit that raises
          exact .inl ⟨s₁, _, s', hbefore', hvisit, .refl s'⟩
        · -- never reached
          have hne : spec.name ≠ spec'.name := fun heq =>
            hafter.1 (heq ▸ List.mem_map_of_mem hmem'')
          exact .inr ⟨⟨exc, rfl⟩, hbefore'.trans (hvisit.leaves hspec hne)⟩

theorem open_runCycle_visits {incremental : Bool} (hop : op.incremental = incremental)
    (hrange : op.range = (none, none)) (hworks : ∀ stmt exc, ¬ outside.fault stmt exc) :
    (engine.runCycle incremental).Always outside.step
      (fun r s' => ∀ spec ∈ engine.registry.specs, engine.Visits outside op spec s s' ∨
        ((∃ exc, r = .error exc) ∧ engine.Leaves spec s s')) s := by
  refine .bind (.ofExcept ?_)
  cases horder : engine.registry.resolveSyncOrder with
  | error exc => exact fun spec _ => .inr ⟨⟨exc, rfl⟩, .refl s⟩
  | ok order =>
      have hperm := engine.registry.resolveSyncOrder_perm horder
      have hnodup : (order.map (·.name)).Nodup :=
        (hperm.map (·.name)).nodup_iff.mpr engine.registry.nodup
      refine (open_syncEntities_visits hop hrange hworks hperm.subset hnodup).mono
        fun r s' hr spec hspec => hr spec (hperm.mem_iff.mpr hspec)

/-- A sync visits an entity once or leaves it alone. -/
theorem open_prog_visits (hop : op.IsSync) (hworks : ∀ stmt exc, ¬ outside.fault stmt exc) :
    (engine.prog op).Always outside.step
      (fun _ s' => ∀ spec ∈ engine.registry.specs,
        engine.Visits outside op spec s s' ∨ engine.Leaves spec s s') s := by
  have hcycle : ∀ {incremental : Bool}, op.incremental = incremental →
      op.range = (none, none) → (do
        let _ ← engine.runCycle incremental
        pure () : Py δ Unit).Always outside.step
          (fun _ s' => ∀ spec ∈ engine.registry.specs,
            engine.Visits outside op spec s s' ∨ engine.Leaves spec s s') s := by
    intro incremental hincremental hrange
    refine .bind ((open_runCycle_visits hincremental hrange hworks).mono fun r s' hr => ?_)
    have hweaken : ∀ spec ∈ engine.registry.specs,
        engine.Visits outside op spec s s' ∨ engine.Leaves spec s s' :=
      fun spec hspec => (hr spec hspec).imp id And.right
    cases r with
    | ok results => exact hweaken
    | error exc => exact hweaken
  cases op with
  | fullSync => exact hcycle rfl rfl
  | incrementalSync => exact hcycle rfl rfl
  | resyncEntity entityName dateFrom dateTo =>
      refine .bind (.bind (.ofExcept ?_))
      cases hget : engine.registry.getEntity entityName with
      | error exc => exact fun spec _ => .inr (.refl s)
      | ok spec =>
          have hspec := (engine.registry.getEntity_ok hget).1
          -- no checkpoint is read, so the sync is the whole visit
          have hvisit : (engine.visit false spec dateFrom dateTo).Always outside.step
              (engine.Visit outside false spec dateFrom dateTo s) s :=
            open_visit hworks hspec dateFrom dateTo
          refine hvisit.mono fun r s' hr => ?_
          have hvisits : ∀ spec' ∈ engine.registry.specs,
              engine.Visits outside (.resyncEntity entityName dateFrom dateTo) spec' s s' ∨
                engine.Leaves spec' s s' := by
            intro spec' hspec'
            by_cases hname : spec.name = spec'.name
            · obtain rfl := engine.registry.eq_of_name hspec hspec' hname
              exact .inl ⟨s, r, s', .refl s, hr, .refl s'⟩
            · exact .inr (hr.leaves hspec hname)
          cases r with
          | ok result => exact hvisits
          | error exc => exact hvisits
  | processRetryQueue limit => exact hop.elim

end TallyConnector
