import TallyConnector.Sync.Refinement

/-! # Snapshots along a run

If every fetch returns a snapshot, the records of the last fetch are versions
of a well-formed company that Tally has only moved on from since.
-/

namespace TallyConnector

open Effects

variable {δ : Type} {engine : SyncEngine δ}
variable {ops : Operation → Prop} {allow : Assumed δ} {w w' : World δ}

/-- A fresh database next to a well-formed company. -/
def SyncEngine.Initial (engine : SyncEngine δ) (w : World δ) : Prop :=
  w.Fresh ∧ w.tally.WellFormed engine.registry

/-- What the last fetch still says about the company. -/
structure FetchTracked (engine : SyncEngine δ) (fetch : Fetch) (tally : Company) : Prop where
  wellFormed : fetch.company.WellFormed engine.registry
  snapshot : engine.Snapshot fetch
  /-- A record that is as old as the fetch was there already. -/
  old : ∀ version ∈ tally.records, version.alterId ≤ fetch.company.lastId →
    version ∈ fetch.company.records
  lastId : fetch.company.lastId ≤ tally.lastId

structure Tracked (engine : SyncEngine δ) (w : World δ) : Prop where
  company : w.tally.WellFormed engine.registry
  fetched : ∀ fetch, w.fetched = some fetch → FetchTracked engine fetch w.tally

theorem FetchTracked.edit {fetch : Fetch} {tally company : Company}
    (h : FetchTracked engine fetch tally) (hev : tally.Evolves company) :
    FetchTracked engine fetch company where
  wellFormed := h.wellFormed
  snapshot := h.snapshot
  old := fun version hv hid => h.old version (hev.old hv (hid.trans h.lastId)) hid
  lastId := h.lastId.trans hev.1

theorem Tracked.fetch {request : CollectionRequest} {outcome : TallyOutcome}
    (h : Tracked engine w)
    (hsnapshot : engine.Snapshot { request, outcome, company := w.tally }) :
    Tracked engine
      { w with fetched := some { request, outcome, company := w.tally } } where
  company := h.company
  fetched := by
    intro fetch hfetch
    cases hfetch
    exact ⟨h.company, hsnapshot, fun _ hv _ => hv, Nat.le_refl _⟩

theorem Tracked.enqueue (h : Tracked engine w) (key : RetryKey) (data : RetryData) :
    Tracked engine (w.enqueue key data) where
  company := h.company
  fetched := by
    intro fetch' hfetch'
    obtain ⟨fetch, hfetch, rfl⟩ := Option.map_eq_some_iff.mp hfetch'
    have htracked := h.fetched fetch hfetch
    exact ⟨htracked.wellFormed, htracked.snapshot, htracked.old, htracked.lastId⟩

/-- A snapshot's records are versions of the company at the fetch. -/
theorem FetchTracked.mem_company {fetch : Fetch} {tally : Company} {spec : EntitySpec}
    {records : List Record} {raw : Record} (h : FetchTracked engine fetch tally)
    (hspec : spec ∈ engine.registry.specs) (hrequest : fetch.request.entityName = spec.name)
    (hrecords : engine.recordsOf spec fetch.outcome = .ok records) :
    raw ∈ records ↔ ∃ version ∈ fetch.company.select fetch.request, version.raw = raw := by
  rw [(h.snapshot spec hspec hrequest.symm records hrecords).mem_iff, List.mem_map]

theorem Company.versions_of_select {company : Company} {request : CollectionRequest}
    {spec : EntitySpec} {version : Version} (hrequest : request.entityName = spec.name)
    (h : version ∈ company.select request) : version ∈ company.versions spec := by
  obtain ⟨hmem, hselects⟩ := Company.mem_select.mp h
  refine Company.mem_versions.mpr ⟨hmem, ?_⟩
  simp only [CollectionRequest.selects, Bool.and_eq_true, beq_iff_eq] at hselects
  rw [hselects.1.1.1, hrequest]

/-- The records of a snapshot are what the request of a sync asks for. -/
theorem SyncEngine.Snapshot.mem_iff {spec : EntitySpec} {since : Option Int}
    {dateFrom dateTo : Option Date} {outcome : TallyOutcome} {company : Company}
    {records : List Record} {raw : Record} (hspec : spec ∈ engine.registry.specs)
    (h : engine.Snapshot
      { request := engine.collectionRequest spec since dateFrom dateTo, outcome, company })
    (hrecords : engine.recordsOf spec outcome = .ok records) :
    raw ∈ records ↔ ∃ version ∈ company.versions spec, inRange spec dateFrom dateTo version = true ∧
      (∀ n, since = some n → n < (version.alterId : Int)) ∧ version.raw = raw := by
  rw [(h spec hspec rfl records hrecords).mem_iff, List.mem_map]
  constructor
  · rintro ⟨version, hselect, rfl⟩
    obtain ⟨hmem, hselects⟩ := Company.mem_select.mp hselect
    obtain ⟨hname, hrange, habove⟩ := selects_buildCollectionRequest.mp hselects
    exact ⟨version, Company.mem_versions.mpr ⟨hmem, hname⟩, hrange, habove, rfl⟩
  · rintro ⟨version, hversion, hrange, habove, rfl⟩
    obtain ⟨hmem, hname⟩ := Company.mem_versions.mp hversion
    refine ⟨version, Company.mem_select.mpr ⟨hmem, ?_⟩, rfl⟩
    exact selects_buildCollectionRequest.mpr ⟨hname, hrange, habove⟩

/-- A fetched item is a version of the company at the fetch. -/
theorem Tracked.version (h : Tracked engine w) {item : Item engine} (hitem : item.Fetched w) :
    ∃ fetch, w.fetched = some fetch ∧
      ∃ version ∈ fetch.company.versions item.spec, version.raw = item.raw := by
  obtain ⟨fetch, records, hfetch, hrequest, hrecords, hraw⟩ := hitem
  obtain ⟨version, hselect, hversion⟩ :=
    ((h.fetched fetch hfetch).mem_company item.hspec hrequest hrecords).mp hraw
  exact ⟨fetch, hfetch, version, Company.versions_of_select hrequest hselect, hversion⟩

/-- The guid under which a version's record is queued is its natural key. -/
theorem Company.WellFormed.guid_eq {company : Company} {item : Item engine} {version : Version}
    {guid : String} (h : company.WellFormed engine.registry)
    (hversion : version ∈ company.versions item.spec) (hraw : version.raw = item.raw)
    (hguid : bindTextNotNull "retry_queue.record_guid"
      (SyncEngine.recordGuid item.spec item.raw) = .ok guid) : guid = item.key := by
  have hkey := item.keyOf_raw
  rw [← hraw] at hkey
  have hlookup := h.lookup_key item.hspec hversion hkey
  rw [hraw] at hlookup
  rw [SyncEngine.recordGuid, hlookup, Option.getD_some, bindTextNotNull_str] at hguid
  cases hguid
  rfl

/-- The alter id of a pushed version. -/
theorem Company.WellFormed.item_alterId {company : Company} {item : Item engine}
    {version : Version} (h : company.WellFormed engine.registry)
    (hversion : version ∈ company.versions item.spec) (hraw : version.raw = item.raw) {a : Int}
    (ha : item.model.alterId = some a) : a = version.alterId :=
  h.model_alterId item.hspec hversion (by rw [hraw, item.hmodel]) ha

/-- Two versions of a company with the key of one item are the same. -/
theorem Company.WellFormed.eq_of_item {company : Company} {item item' : Item engine}
    {version version' : Version} (h : company.WellFormed engine.registry)
    (hspec : item.spec = item'.spec) (hkey : item.key = item'.key)
    (hversion : version ∈ company.versions item.spec) (hraw : version.raw = item.raw)
    (hversion' : version' ∈ company.versions item'.spec) (hraw' : version'.raw = item'.raw) :
    version = version' := by
  rw [← hspec] at hversion'
  have hkeyOf : item.spec.keyOf version.raw = some item.key := by
    rw [hraw]
    exact item.keyOf_raw
  have hkeyOf' : item.spec.keyOf version'.raw = some item.key := by
    rw [hraw', hspec, hkey]
    exact item'.keyOf_raw
  exact h.eq_of_key item.hspec hversion hversion' hkeyOf hkeyOf'

/-- The running maximum stays below a bound of what goes into it. -/
theorem foldl_seen_le {spec : EntitySpec} {records : List Record} {since : Option Int}
    {bound : Int} (hbound : 0 ≤ bound) (hsince : ∀ n, since = some n → n ≤ bound)
    (hrecords : ∀ raw ∈ records, ∀ model, toModel raw spec = .ok model →
      ∀ a, model.alterId = some a → a ≤ bound) {n : Int}
    (hn : records.foldl (SyncEngine.seen spec) since = some n) : n ≤ bound := by
  induction records generalizing since with
  | nil => exact hsince n hn
  | cons raw records ih =>
      refine ih (fun m hm => ?_) (fun raw' hraw' => hrecords raw' (List.mem_cons_of_mem _ hraw'))
        hn
      unfold SyncEngine.seen at hm
      split at hm
      · next model hmodel =>
        unfold SyncEngine.bumpMax at hm
        split at hm
        · next a ha =>
          cases hm
          refine max_le ?_ (hrecords raw List.mem_cons_self model hmodel a ha)
          cases since with
          | none => exact hbound
          | some m => exact hsince m rfl
        · exact hsince m hm
      · exact hsince m hm

/-- If every fetch returns a snapshot, every step keeps track. -/
theorem tracked_step (hallow : ∀ e c w, allow e c w → engine.snapshots e c w)
    (hstep : engine.Step ops allow w w') (h : Tracked engine w) : Tracked engine w' := by
  cases hstep with
  | edit company hev hwf =>
      exact ⟨hwf, fun fetch hfetch => (h.fetched fetch hfetch).edit hev⟩
  | fetch request outcome ha => exact h.fetch (hallow _ _ _ ha)
  | enqueue item guid data _ _ _ => exact h.enqueue _ _
  | _ => exact ⟨h.company, h.fetched⟩

end TallyConnector
