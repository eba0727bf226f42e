import TallyConnector.Properties.Snapshots
import TallyConnector.Replication.Delta
import TallyConnector.Sync.CalmSync
import TallyConnector.World.Groups

/-! # Incremental sync agrees with full sync

Seen from outside, each mapped entity is replicated by deltas: the source are
the current records with their alter ids, the replica is the payload Frappe
acknowledged last for each natural key, the checkpoint is the stored
`last_alter_id`. A sync of the entity is a pull, also when it skips records
whose hash is cached, and so is the full sync of an empty store.
-/

namespace TallyConnector

open Effects Prog Replication

variable {δ : Type}

/-! ## The replica -/

/-- The payload Frappe acknowledged last for a record. -/
def World.acked (w : World δ) (entityName naturalKey : String) : Option Dict :=
  (w.pushes.find? fun push =>
    push.entityName == entityName && push.naturalKey == naturalKey).map (·.payload)

/-- The acknowledged payloads of an entity, and its checkpoint. -/
def World.replica (w : World δ) (entityName : String) : Replica String Dict ℤ :=
  ⟨w.acked entityName, w.db.lastAlterId entityName⟩

/-- The payload of a record. -/
def MappingEntry.payloadOf (me : MappingEntry) (spec : EntitySpec) (raw : Record) : Dict :=
  match toModel raw spec with
  | .ok model => me.apply model.dump
  | .error _ => ∅

/-- The current records of an entity as entries with their alter ids. -/
def Company.source {registry : Registry} (company : Company)
    (hwf : company.WellFormed registry) {spec : EntitySpec} (hspec : spec ∈ registry.specs)
    (me : MappingEntry) : Source String Dict ℤ where
  entries := { e | ∃ version ∈ company.versions spec, spec.keyOf version.raw = some e.key ∧
    e.stamp = version.alterId ∧ e.value = me.payloadOf spec version.raw }
  last := company.lastId
  bounded := by
    rintro e ⟨version, hversion, -, hstamp, -⟩
    rw [hstamp]
    exact_mod_cast hwf.bounded version (Company.mem_versions.mp hversion).1
  distinct := by
    rintro ⟨key, stamp, value⟩ ⟨version, hversion, hkey, hstamp, hvalue⟩
      ⟨key', stamp', value'⟩ ⟨version', hversion', hkey', hstamp', hvalue'⟩ heq
    simp only at hkey hstamp hvalue hkey' hstamp' hvalue' heq
    subst heq
    obtain rfl := hwf.eq_of_key hspec hversion hversion' hkey hkey'
    rw [hstamp, hvalue, hstamp', hvalue']

variable {engine : SyncEngine δ} {allow : Assumed δ} {w w' : World δ}

theorem Item.payloadOf_raw (item : Item engine) :
    item.me.payloadOf item.spec item.raw = item.payload := by
  simp only [MappingEntry.payloadOf, item.hmodel, Item.payload]

/-! ## Pushes -/

theorem acked_cons {push : Push} {entityName naturalKey : String}
    (hpushes : w'.pushes = push :: w.pushes) :
    w'.acked entityName naturalKey =
      if push.entityName = entityName ∧ push.naturalKey = naturalKey then some push.payload
      else w.acked entityName naturalKey := by
  unfold World.acked
  rw [hpushes, List.find?_cons]
  by_cases h : push.entityName = entityName ∧ push.naturalKey = naturalKey
  · simp [h.1, h.2]
  · rw [if_neg h]
    have hne : (push.entityName == entityName && push.naturalKey == naturalKey) = false := by
      simpa using h
    rw [hne]

/-- A payload that was acknowledged came with a push. -/
theorem exists_push_of_acked {entityName naturalKey : String} {payload : Dict}
    (h : w.acked entityName naturalKey = some payload) :
    ∃ push ∈ w.pushes, push.entityName = entityName ∧ push.naturalKey = naturalKey := by
  obtain ⟨push, hfind, -⟩ := Option.map_eq_some_iff.mp h
  refine ⟨push, List.mem_of_find?_eq_some hfind, ?_⟩
  simpa using List.find?_some hfind

theorem acked_of_mem {push : Push} (h : push ∈ w.pushes) :
    ∃ payload, w.acked push.entityName push.naturalKey = some payload := by
  unfold World.acked
  cases hfind : w.pushes.find? fun p =>
      p.entityName == push.entityName && p.naturalKey == push.naturalKey with
  | none =>
      have hnone := List.find?_eq_none.mp hfind push h
      simp at hnone
  | some p => exact ⟨p.payload, rfl⟩

/-- A cached hash is the hash of the payload acknowledged last. -/
structure Cached (engine : SyncEngine δ) (w : World δ) : Prop where
  acked : ∀ (item : Item engine) (row : CacheRow δ), w.db.syncCache item.cacheKey = some row →
    row.contentHash = some item.contentHash →
      w.acked item.spec.name item.key = some item.payload
  pushed : ∀ push ∈ w.pushes, ∃ item : Item engine, item.spec.name = push.entityName

/-- A push, even a skipped one, leaves the record's payload as the one
acknowledged last. -/
theorem Item.Effect.acked_eq {item : Item engine} (h : item.Effect allow w w')
    (hw : TallyConnector.Cached engine w) (entityName naturalKey : String) :
    w'.acked entityName naturalKey =
      if item.spec.name = entityName ∧ item.key = naturalKey then some item.payload
      else w.acked entityName naturalKey := by
  cases h with
  | skip row _ hrow _ hhash =>
      split
      · next heq =>
        rw [← heq.1, ← heq.2]
        exact hw.acked item row hrow hhash
      · rfl
  | update name _ hsaved _ _ _ _ => exact acked_cons hsaved.pushes
  | create name _ hsaved _ _ _ => exact acked_cons hsaved.pushes

theorem Item.Saved.cached {item : Item engine} {name : String}
    (hinj : Function.Injective engine.contentHash) (h : item.Saved name w w')
    (hw : TallyConnector.Cached engine w) : TallyConnector.Cached engine w' where
  acked := by
    intro item' row hrow hhash
    obtain ⟨lastPushedAt, hdb⟩ := h.db
    rw [acked_cons h.pushes]
    simp only [hdb, World.setCache, Function.update_apply] at hrow
    split at hrow
    · next hkey =>
      -- the row of this push
      cases hrow
      have hpayload : item.payload = item'.payload := hinj (Option.some.inj hhash)
      obtain ⟨hspec, hkey⟩ := Item.cacheKey_inj hkey
      rw [if_pos ⟨congrArg EntitySpec.name hspec.symm, hkey.symm⟩]
      exact congrArg some hpayload
    · next hkey =>
      rw [if_neg ?_]
      · exact hw.acked item' row hrow hhash
      · rintro ⟨hname, heq⟩
        refine hkey ?_
        simp only [Item.cacheKey, SyncEngine.cacheKey]
        rw [← hname, ← heq]
        rfl
  pushed := by
    intro push hpush
    rw [h.pushes] at hpush
    rcases List.mem_cons.mp hpush with rfl | hold
    · exact ⟨item, rfl⟩
    · exact hw.pushed push hold

theorem Item.Effect.cached {item : Item engine} (hinj : Function.Injective engine.contentHash)
    (h : item.Effect allow w w') (hw : TallyConnector.Cached engine w) :
    TallyConnector.Cached engine w' := by
  cases h with
  | skip row _ _ _ _ => exact ⟨hw.acked, hw.pushed⟩
  | update name _ hsaved _ _ _ _ => exact hsaved.cached hinj hw
  | create name _ hsaved _ _ _ => exact hsaved.cached hinj hw

/-! ## The sync of an entity is a pull -/

section entity

variable {spec : EntitySpec} {records done : List Record} {raw : Record}

/-- The records in `done` are delivered, and nothing else has changed. -/
structure Pulling (engine : SyncEngine δ) (spec : EntitySpec) (records : List Record)
    (w₀ : World δ) (done : List Record) (w : World δ) : Prop where
  cached : Cached engine w
  tally : w.tally = w₀.tally
  syncState : w.db.syncState = w₀.db.syncState
  taken : ∀ item : Item engine, item.spec = spec → item.raw ∈ done →
    w.acked spec.name item.key = some item.payload
  others : ∀ entityName key,
    (entityName = spec.name → ∀ raw ∈ done, spec.keyOf raw ≠ some key) →
      w.acked entityName key = w₀.acked entityName key
  subset : done ⊆ records

theorem Pulling.start (hcached : Cached engine w) : Pulling engine spec records w [] w where
  cached := hcached
  tally := rfl
  syncState := rfl
  taken := fun _ _ h => absurd h List.not_mem_nil
  others := fun _ _ _ => rfl
  subset := List.nil_subset _

theorem Pulling.keyless {w₀ : World δ} (h : Pulling engine spec records w₀ done w)
    (hraw : raw ∈ records) (hkey : spec.keyOf raw = none) (result : EntitySyncResult) :
    Pulling engine spec records w₀ (raw :: done) (w.setResult result) where
  cached := ⟨h.cached.acked, h.cached.pushed⟩
  tally := h.tally
  syncState := h.syncState
  taken := by
    intro item hitem hmem
    rcases List.mem_cons.mp hmem with heq | hdone
    · have hkeyOf := item.keyOf_raw
      rw [hitem, heq, hkey] at hkeyOf
      cases hkeyOf
    · exact h.taken item hitem hdone
  others := by
    intro entityName key hne
    exact h.others entityName key fun hname raw' hraw' =>
      hne hname raw' (List.mem_cons_of_mem _ hraw')
  subset := List.cons_subset.mpr ⟨hraw, h.subset⟩

theorem Pulling.push {w₀ : World δ} (hinj : Function.Injective engine.contentHash)
    (hunique : ∀ raw ∈ records, ∀ raw' ∈ records, ∀ key, spec.keyOf raw = some key →
      spec.keyOf raw' = some key → raw = raw')
    (h : Pulling engine spec records w₀ done w) {item : Item engine} (hspec : item.spec = spec)
    (hraw : item.raw ∈ records) (heffect : item.Effect allow w w') :
    Pulling engine spec records w₀ (item.raw :: done) w' where
  cached := heffect.cached hinj h.cached
  tally := heffect.tally.trans h.tally
  syncState := heffect.syncState.trans h.syncState
  taken := by
    intro item' hspec' hmem
    rw [heffect.acked_eq h.cached]
    by_cases hkey : item.key = item'.key
    · -- a record of the same key is the same record
      have hmem' : item'.raw ∈ records := by
        rcases List.mem_cons.mp hmem with heq | hdone
        · exact heq ▸ hraw
        · exact h.subset hdone
      have hkeyOf : spec.keyOf item.raw = some item.key := hspec ▸ item.keyOf_raw
      have hkeyOf' : spec.keyOf item'.raw = some item.key := by
        rw [hkey]
        exact hspec' ▸ item'.keyOf_raw
      have hsame : item = item' :=
        Item.eq_of_raw (hspec.trans hspec'.symm)
          (hunique _ hraw _ hmem' _ hkeyOf hkeyOf')
      rw [if_pos ⟨congrArg EntitySpec.name hspec, hkey⟩, hsame]
    · rw [if_neg fun heq => hkey heq.2]
      rcases List.mem_cons.mp hmem with heq | hdone
      · have hsame : item' = item := Item.eq_of_raw (hspec'.trans hspec.symm) heq
        exact absurd (congrArg Item.key hsame.symm) hkey
      · exact h.taken item' hspec' hdone
  others := by
    intro entityName key hne
    rw [heffect.acked_eq h.cached, if_neg ?_]
    · exact h.others entityName key fun hname raw' hraw' =>
        hne hname raw' (List.mem_cons_of_mem _ hraw')
    · rintro ⟨hname, rfl⟩
      refine hne (hname.symm.trans (congrArg _ hspec)) item.raw List.mem_cons_self ?_
      exact hspec ▸ item.keyOf_raw
  subset := List.cons_subset.mpr ⟨hraw, h.subset⟩

/-- Once all records are handled, the entity has been pulled. -/
theorem Pulling.pull {w₀ : World δ} {since : Option Int} {me : MappingEntry}
    (hspec : spec ∈ engine.registry.specs) (hme : engine.mapping.entry spec.name = some me)
    (hwf : w₀.tally.WellFormed engine.registry)
    (hmem : ∀ raw, raw ∈ records ↔ ∃ version ∈ w₀.tally.versions spec,
      (∀ n, since = some n → n < (version.alterId : Int)) ∧ version.raw = raw)
    (hsince : since = w₀.db.lastAlterId spec.name)
    (h : Pulling engine spec records w₀ done w) (hdone : ∀ raw ∈ records, raw ∈ done)
    {row : SyncStateRow} (hrow : row.lastAlterId = records.foldl (SyncEngine.seen spec) since)
    (hbounded : ∀ n, since = some n → n ≤ w₀.tally.lastId) :
    Pull (w₀.tally.source hwf hspec me) (w₀.replica spec.name)
      ((w.checkpoint spec.name row).replica spec.name) where
  taken := by
    rintro ⟨key, stamp, value⟩ ⟨version, hversion, hkey, rfl, rfl⟩ habove
    -- the record was listed, being above the checkpoint
    have hraw : version.raw ∈ records := by
      refine (hmem _).mpr ⟨version, hversion, fun n hn => ?_, rfl⟩
      exact habove n (hsince.symm.trans hn)
    simp only [EntitySpec.keyOf] at hkey
    split at hkey
    · next model hmodel =>
      let item : Item engine := ⟨spec, me, version.raw, model, key, hspec, hme, hmodel, hkey⟩
      have hacked := h.taken item rfl (hdone _ hraw)
      rw [← item.payloadOf_raw] at hacked
      exact hacked
    · cases hkey
  others := by
    intro key hnone
    refine h.others spec.name key fun _ raw hraw hkey => ?_
    -- a key that is pulled has a version above the checkpoint
    obtain ⟨version, hversion, habove, rfl⟩ := (hmem raw).mp (h.subset hraw)
    refine hnone ⟨key, version.alterId, me.payloadOf spec version.raw⟩
      ⟨version, hversion, hkey, rfl, rfl⟩ (fun n hn => ?_) rfl
    exact habove n (hsince.trans hn)
  since := by
    intro n hn
    -- the new checkpoint is the largest id of the records
    have hlast : records.foldl (SyncEngine.seen spec) since = some n := by
      rw [← hrow]
      simpa [World.replica, World.checkpoint, DB.lastAlterId] using hn
    refine foldl_seen_le (by exact_mod_cast Nat.zero_le _) hbounded
      (fun raw hraw model hmodel a ha => ?_) hlast
    obtain ⟨version, hversion, -, rfl⟩ := (hmem raw).mp hraw
    rw [hwf.model_alterId hspec hversion hmodel ha]
    exact_mod_cast hwf.bounded version (Company.mem_versions.mp hversion).1

end entity

section entities

variable [DecidableEq δ] {spec : EntitySpec} {company : Company}

/-- The fetch of the entity's last sync succeeded. -/
def World.FetchedOk (w : World δ) (spec : EntitySpec) : Prop :=
  ∃ row, w.db.syncState spec.name = some row ∧ row.status = "ok"

/-- What the sync of an entity does to the replicas. -/
structure EntityStep (engine : SyncEngine δ) (spec : EntitySpec)
    (hwf : company.WellFormed engine.registry) (w w' : World δ) : Prop where
  cached : Cached engine w'
  tally : w'.tally = company
  others : ∀ entityName, entityName ≠ spec.name → w'.acked entityName = w.acked entityName ∧
    w'.db.syncState entityName = w.db.syncState entityName
  pulled : ∀ (hspec : spec ∈ engine.registry.specs) (me : MappingEntry),
    engine.mapping.entry spec.name = some me →
      w'.replica spec.name = w.replica spec.name ∨
        Pull (company.source hwf hspec me) (w.replica spec.name) (w'.replica spec.name)

/-- After a sync whose fetch succeeded, the entity has been pulled. -/
def Completed (engine : SyncEngine δ) (spec : EntitySpec)
    (hwf : company.WellFormed engine.registry) (w w' : World δ) : Prop :=
  w'.FetchedOk spec → ∀ (hspec : spec ∈ engine.registry.specs) (me : MappingEntry),
    engine.mapping.entry spec.name = some me →
      Pull (company.source hwf hspec me) (w.replica spec.name) (w'.replica spec.name)

omit [DecidableEq δ] in
/-- A sync that could not fetch leaves the replicas as they were. -/
theorem entityStep_failed {hwf : company.WellFormed engine.registry} {w₁ : World δ}
    (htally : w.tally = company) (hw : Cached engine w) (hsame : w.SameButFetch w₁)
    (result : EntitySyncResult) : EntityStep engine spec hwf w (w₁.setResult result) := by
  obtain ⟨fetched, rfl⟩ := hsame
  exact ⟨⟨hw.acked, hw.pushed⟩, htally, fun _ _ => ⟨rfl, rfl⟩, fun _ _ _ => .inl rfl⟩

omit [DecidableEq δ] in
/-- Writing the checkpoint of an entity back changes no replica. -/
theorem EntityStep.checkpoint {hwf : company.WellFormed engine.registry}
    (h : EntityStep engine spec hwf w w') {row : SyncStateRow}
    (hrow : row.lastAlterId = w'.db.lastAlterId spec.name) :
    EntityStep engine spec hwf w (w'.checkpoint spec.name row) := by
  have hreplica : (w'.checkpoint spec.name row).replica spec.name = w'.replica spec.name := by
    have hlast : (w'.checkpoint spec.name row).db.lastAlterId spec.name = row.lastAlterId := by
      simp [World.checkpoint, DB.lastAlterId]
    simp only [World.replica, hlast, hrow]
    rfl
  refine ⟨⟨h.cached.acked, h.cached.pushed⟩, h.tally, fun entityName hne => ?_, ?_⟩
  · refine ⟨(h.others entityName hne).1, ?_⟩
    rw [← (h.others entityName hne).2]
    exact Function.update_of_ne hne _ _
  · intro hspec me hme
    rw [hreplica]
    exact h.pulled hspec me hme

/-- The sync of an entity, from its checkpoint on. -/
theorem calm_syncEntity_step (hinj : Function.Injective engine.contentHash)
    (hspec : spec ∈ engine.registry.specs) (hwf : company.WellFormed engine.registry)
    (htally : w.tally = company) (hw : Cached engine w)
    (hbounded : (engine.mapping.entry spec.name).isSome →
      ∀ n, w.db.lastAlterId spec.name = some n → n ≤ company.lastId) :
    (engine.syncEntity spec (w.db.lastAlterId spec.name) none none).Always
      (engine.calm engine.snapshots)
      (fun r w' => EntityStep engine spec hwf w w' ∧
        ∀ result, r = .ok result → Completed engine spec hwf w w') w := by
  subst htally
  refine calm_syncEntity (fun exc w₁ result hsame => ?_) (fun w₁ result row hsame hrow hstatus => ?_)
    fun outcome records result hanswered hrecords => ?_
  · -- the cycle was cut short before a row was written
    exact ⟨entityStep_failed rfl hw hsame result, fun _ h => by cases h⟩
  · -- the fetch failed
    refine ⟨(entityStep_failed rfl hw hsame result).checkpoint ?_, fun _ _ hok => ?_⟩
    · obtain ⟨fetched, rfl⟩ := hsame
      exact hrow
    · obtain ⟨row', hrow', hok⟩ := hok
      have heq : row = row' := by simpa [World.checkpoint] using hrow'
      rw [← heq, hstatus] at hok
      exact absurd hok (by decide)
  · -- the answer lists what the company has above the checkpoint
    obtain ⟨w₁, htally, hsnapshot⟩ := hanswered
    have hmem : ∀ raw, raw ∈ records ↔ ∃ version ∈ w.tally.versions spec,
        (∀ n, w.db.lastAlterId spec.name = some n → n < (version.alterId : Int)) ∧
          version.raw = raw := by
      intro raw
      rw [SyncEngine.Snapshot.mem_iff hspec hsnapshot hrecords, htally]
      simp [inRange]
    have hunique : ∀ raw ∈ records, ∀ raw' ∈ records, ∀ key, spec.keyOf raw = some key →
        spec.keyOf raw' = some key → raw = raw' := by
      intro raw hraw raw' hraw' key hkey hkey'
      obtain ⟨version, hversion, -, rfl⟩ := (hmem raw).mp hraw
      obtain ⟨version', hversion', -, rfl⟩ := (hmem raw').mp hraw'
      exact congrArg Version.raw (hwf.eq_of_key hspec hversion hversion' hkey hkey')
    cases hme : engine.mapping.entry spec.name with
    | none =>
        -- nothing is pushed of an entity without mapping
        refine calm_syncRecords_unmapped.mono fun r w' hr => ?_
        obtain ⟨rfl, result', rfl⟩ := hr
        refine ⟨rfl, fun row _ _ => ⟨⟨⟨hw.acked, hw.pushed⟩, rfl, fun entityName hne => ?_, ?_⟩, ?_⟩⟩
        · exact ⟨rfl, Function.update_of_ne hne _ _⟩
        · intro _ me hme'
          rw [hme] at hme'
          cases hme'
        · intro _ _ _ _ me hme'
          rw [hme] at hme'
          cases hme'
    | some me =>
        -- the records are pulled one by one, and the checkpoint closes the pull
        have hstart : Pulling engine spec records w [] ((w.fetch (engine.collectionRequest spec
            (w.db.lastAlterId spec.name) none none) outcome).setResult result) :=
          ⟨⟨hw.acked, hw.pushed⟩, rfl, rfl, fun _ _ h => absurd h List.not_mem_nil,
            fun _ _ _ => rfl, List.nil_subset _⟩
        refine (calm_syncRecords records hspec hme
          (fun done raw w₂ result hraw hkey h => h.keyless hraw hkey result)
          (fun done item w₂ w₃ hitem hraw heffect h => h.push hinj hunique hitem hraw heffect)
          (List.Subset.refl _) hstart).mono fun r w' hr => ?_
        obtain ⟨rfl, hpulling⟩ := hr
        rw [List.append_nil] at hpulling
        refine ⟨rfl, fun row hrow _ => ?_⟩
        have hpull : ∀ (hspec : spec ∈ engine.registry.specs) (me' : MappingEntry),
            engine.mapping.entry spec.name = some me' →
              Pull (w.tally.source hwf hspec me') (w.replica spec.name)
                ((w'.checkpoint spec.name row).replica spec.name) := by
          intro hspec me' hme'
          exact hpulling.pull hspec hme' hwf hmem rfl (fun raw hraw => List.mem_reverse.mpr hraw)
            hrow (hbounded (by rw [hme]; rfl))
        refine ⟨⟨⟨hpulling.cached.acked, hpulling.cached.pushed⟩, hpulling.tally,
          fun entityName hne => ⟨?_, ?_⟩, fun hspec me' hme' => .inr (hpull hspec me' hme')⟩,
          fun _ _ _ => hpull⟩
        · funext key
          exact hpulling.others entityName key fun heq => absurd heq hne
        · refine (Function.update_of_ne hne _ _).trans ?_
          rw [hpulling.syncState]

/-- Every mapped entity is replicated by deltas. -/
structure Converging (engine : SyncEngine δ) (hwf : company.WellFormed engine.registry)
    (w : World δ) : Prop where
  tally : w.tally = company
  cached : Cached engine w
  reachable : ∀ (spec : EntitySpec) (hspec : spec ∈ engine.registry.specs) (me : MappingEntry),
    engine.mapping.entry spec.name = some me →
      Reachable ⟨company.source hwf hspec me, w.replica spec.name⟩

/-- The entity's payloads are those of its current records. -/
def Converged (engine : SyncEngine δ) (spec : EntitySpec)
    (hwf : company.WellFormed engine.registry) (w : World δ) : Prop :=
  ∀ (hspec : spec ∈ engine.registry.specs) (me : MappingEntry),
    engine.mapping.entry spec.name = some me →
      Mirrors (company.source hwf hspec me) (w.acked spec.name)

omit [DecidableEq δ] in
theorem Converging.step {hwf : company.WellFormed engine.registry}
    (hspec : spec ∈ engine.registry.specs) (h : Converging engine hwf w)
    (hstep : EntityStep engine spec hwf w w') : Converging engine hwf w' where
  tally := hstep.tally
  cached := hstep.cached
  reachable := by
    intro spec' hspec' me hme
    have hreachable := h.reachable spec' hspec' me hme
    by_cases hname : spec'.name = spec.name
    · obtain rfl := engine.registry.eq_of_name hspec' hspec hname
      rcases hstep.pulled hspec' me hme with hsame | hpull
      · rw [hsame]
        exact hreachable
      · exact hreachable.step (.pull hpull)
    · have hothers := hstep.others _ hname
      have hsame : w'.replica spec'.name = w.replica spec'.name := by
        simp only [World.replica, hothers.1, DB.lastAlterId, hothers.2]
      rw [hsame]
      exact hreachable

/-- What a cycle over some entities leaves behind. -/
structure CycleStep (engine : SyncEngine δ) (specs : List EntitySpec)
    (hwf : company.WellFormed engine.registry) (w w' : World δ) : Prop where
  converging : Converging engine hwf w'
  others : ∀ entityName, entityName ∉ specs.map (·.name) →
    w'.acked entityName = w.acked entityName ∧
      w'.db.syncState entityName = w.db.syncState entityName

theorem calm_syncEntities (hinj : Function.Injective engine.contentHash)
    (hwf : company.WellFormed engine.registry) {incremental : Bool} {specs : List EntitySpec}
    (hspecs : specs ⊆ engine.registry.specs) (hnodup : (specs.map (·.name)).Nodup)
    (hsince : incremental = false → ∀ spec ∈ specs, w.db.lastAlterId spec.name = none)
    (hw : Converging engine hwf w) :
    (engine.syncEntities incremental specs).Always (engine.calm engine.snapshots)
      (fun r w' => CycleStep engine specs hwf w w' ∧ ∀ results, r = .ok results →
        ∀ spec ∈ specs, w'.FetchedOk spec → Converged engine spec hwf w') w := by
  induction specs generalizing w with
  | nil => exact ⟨⟨hw, fun _ _ => ⟨rfl, rfl⟩⟩, fun _ _ _ h => absurd h List.not_mem_nil⟩
  | cons spec specs ih =>
      have hspec : spec ∈ engine.registry.specs := hspecs List.mem_cons_self
      rw [List.map_cons, List.nodup_cons] at hnodup
      have hbounded : (engine.mapping.entry spec.name).isSome →
          ∀ n, w.db.lastAlterId spec.name = some n → n ≤ company.lastId := by
        intro hmapped
        obtain ⟨me, hme⟩ := Option.isSome_iff_exists.mp hmapped
        exact (hw.reachable spec hspec me hme).invariant.bounded
      -- the cycle reads the checkpoint, or starts from none
      have hstart : (engine.sinceAlterId incremental spec).Always (engine.calm engine.snapshots)
          (fun r w' => r = .ok (w.db.lastAlterId spec.name) ∧ w' = w) w := by
        cases incremental with
        | false => exact ⟨by rw [hsince rfl spec List.mem_cons_self], rfl⟩
        | true =>
            refine .bind (calm_sql fun result db _ hexec => ?_)
            cases hexec
            exact ⟨rfl, rfl⟩
      refine .bind (hstart.mono fun r w₁ hr => ?_)
      obtain ⟨rfl, rfl⟩ := hr
      refine .bind ((calm_syncEntity_step hinj hspec hwf hw.tally hw.cached hbounded).mono
        fun r w₂ hr => ?_)
      obtain ⟨hstep, hcompleted⟩ := hr
      have hw₂ := hw.step hspec hstep
      have hthis : ∀ entityName, entityName ∉ (spec :: specs).map (·.name) →
          entityName ≠ spec.name ∧ entityName ∉ specs.map (·.name) := by
        intro entityName hnot
        rw [List.map_cons, List.mem_cons, not_or] at hnot
        exact hnot
      cases r with
      | error exc =>
          -- the exception ends the cycle here
          exact ⟨⟨hw₂, fun entityName hnot => hstep.others _ (hthis _ hnot).1⟩,
            fun _ h => by cases h⟩
      | ok result =>
          -- the later entities start from where they were
          have hrest : incremental = false → ∀ spec ∈ specs,
              w₂.db.lastAlterId spec.name = none := by
            intro hincremental spec' hmem
            have hne : spec'.name ≠ spec.name := fun heq =>
              hnodup.1 (heq ▸ List.mem_map_of_mem hmem)
            rw [DB.lastAlterId, (hstep.others _ hne).2]
            exact hsince hincremental spec' (List.mem_cons_of_mem _ hmem)
          refine .bind ((ih (fun _ h => hspecs (List.mem_cons_of_mem _ h)) hnodup.2 hrest
            hw₂).mono fun r w₃ hr => ?_)
          obtain ⟨hcycle, hconverged⟩ := hr
          have hall : CycleStep engine (spec :: specs) hwf w₁ w₃ := by
            refine ⟨hcycle.converging, fun entityName hnot => ?_⟩
            obtain ⟨hacked, hstate⟩ := hcycle.others entityName (hthis _ hnot).2
            obtain ⟨hacked', hstate'⟩ := hstep.others entityName (hthis _ hnot).1
            exact ⟨hacked.trans hacked', hstate.trans hstate'⟩
          cases r with
          | error exc => exact ⟨hall, fun _ h => by cases h⟩
          | ok results =>
              refine ⟨hall, fun _ _ spec' hmem hok => ?_⟩
              rcases List.mem_cons.mp hmem with rfl | hmem'
              · -- the entity was pulled, and the later ones left it alone
                obtain ⟨hacked, hstate⟩ := hcycle.others _ hnodup.1
                have hok₂ : w₂.FetchedOk spec' := by
                  obtain ⟨row, hrow, hstatus⟩ := hok
                  exact ⟨row, hstate.symm.trans hrow, hstatus⟩
                intro hspec me hme
                rw [hacked]
                exact (hw.reachable spec' hspec me hme).mirrors
                  (hcompleted _ rfl hok₂ hspec me hme)
              · -- the entity is one of the later ones
                exact hconverged results rfl spec' hmem' hok

theorem calm_runCycle (hinj : Function.Injective engine.contentHash)
    (hwf : company.WellFormed engine.registry) {incremental : Bool}
    (hsince : incremental = false → ∀ entityName, w.db.lastAlterId entityName = none)
    (hw : Converging engine hwf w) :
    (engine.runCycle incremental).Always (engine.calm engine.snapshots)
      (fun r w' => Converging engine hwf w' ∧ ∀ results, r = .ok results →
        ∀ spec ∈ engine.registry.specs, w'.FetchedOk spec → Converged engine spec hwf w') w := by
  refine .bind (.ofExcept ?_)
  cases horder : engine.registry.resolveSyncOrder with
  | error exc => exact ⟨hw, fun _ h => by cases h⟩
  | ok order =>
      have hperm := engine.registry.resolveSyncOrder_perm horder
      have hnodup : (order.map (·.name)).Nodup :=
        (hperm.map (·.name)).nodup_iff.mpr engine.registry.nodup
      refine (calm_syncEntities hinj hwf hperm.subset hnodup
        (fun hincremental spec _ => hsince hincremental spec.name) hw).mono fun r w' hr => ?_
      exact ⟨hr.1.converging, fun results hresults spec hspec hok =>
        hr.2 results hresults spec (hperm.mem_iff.mpr hspec) hok⟩

end entities

/-! ## Histories -/

/-- An empty store next to an empty Frappe site. -/
structure World.Blank (w : World δ) : Prop extends w.Fresh where
  docs : w.docs = []

namespace SyncEngine

variable [DecidableEq δ] (engine : SyncEngine δ)

omit [DecidableEq δ] in
/-- Creating and altering records: no natural key disappears. -/
structure Grows (company company' : Company) : Prop where
  evolves : company.Evolves company'
  wellFormed : company'.WellFormed engine.registry
  kept : ∀ spec ∈ engine.registry.specs, ∀ version ∈ company.versions spec, ∀ key,
    spec.keyOf version.raw = some key →
      ∃ version' ∈ company'.versions spec, spec.keyOf version'.raw = some key

omit [DecidableEq δ] in
/-- The worlds after Tally edits and incremental cycles, the store and Frappe
empty at first. -/
inductive Incremental [DecidableEq δ] : World δ → Prop
  | start {w : World δ} (hblank : w.Blank) (hwf : w.tally.WellFormed engine.registry) :
      Incremental w
  | edit {w : World δ} {company : Company} (h : Incremental w)
      (hgrows : engine.Grows w.tally company) : Incremental (w.setTally company)
  | cycle {w w' : World δ} {r : Except Exn Unit} (h : Incremental w)
      (hrun : (engine.prog .incrementalSync).Runs (engine.calm engine.snapshots) w r w') :
      Incremental w'

end SyncEngine

section histories

variable {spec : EntitySpec} {company company' : Company} {w₀ w₁ : World δ}

/-- A growing company is a source that evolves. -/
theorem SyncEngine.Grows.source (h : engine.Grows company company')
    (hwf : company.WellFormed engine.registry) (hspec : spec ∈ engine.registry.specs)
    (me : MappingEntry) :
    (company.source hwf hspec me).Evolves (company'.source h.wellFormed hspec me) where
  last := by
    show (company.lastId : ℤ) ≤ company'.lastId
    exact_mod_cast h.evolves.1
  fresh := by
    rintro e ⟨version, hversion, hkey, hstamp, hvalue⟩
    obtain ⟨hmem, hname⟩ := Company.mem_versions.mp hversion
    rcases h.evolves.2 version hmem with hold | hnew
    · exact .inl ⟨version, Company.mem_versions.mpr ⟨hold, hname⟩, hkey, hstamp, hvalue⟩
    · right
      rw [hstamp]
      show (company.lastId : ℤ) < version.alterId
      exact_mod_cast hnew
  kept := by
    rintro ⟨key, stamp, value⟩ ⟨version, hversion, hkey, -, -⟩
    obtain ⟨version', hversion', hkey'⟩ := h.kept spec hspec version hversion key hkey
    exact ⟨⟨key, version'.alterId, me.payloadOf spec version'.raw⟩,
      ⟨version', hversion', hkey', rfl, rfl⟩, rfl⟩

theorem converging_blank (h : w.Blank) (htally : w.tally = company)
    (hwf : company.WellFormed engine.registry) : Converging engine hwf w where
  tally := htally
  cached := by
    refine ⟨fun item row hrow => ?_, fun push hpush => ?_⟩
    · rw [h.db] at hrow
      cases hrow
    · rw [h.pushes] at hpush
      cases hpush
  reachable := by
    intro spec hspec me _
    have hempty : w.replica spec.name = .empty := by
      have hacked : w.acked spec.name = fun _ => none := by
        funext key
        simp [World.acked, h.pushes]
      have hlast : w.db.lastAlterId spec.name = none := by
        rw [h.db]
        rfl
      simp only [World.replica, Replica.empty, hacked, hlast]
    rw [hempty]
    exact ⟨_, .refl⟩

theorem Converging.edit {hwf : w.tally.WellFormed engine.registry}
    (h : Converging engine hwf w) (hgrows : engine.Grows w.tally company) :
    Converging engine hgrows.wellFormed (w.setTally company) where
  tally := rfl
  cached := ⟨h.cached.acked, h.cached.pushed⟩
  reachable := fun spec hspec me hme =>
    (h.reachable spec hspec me hme).step (.edit (hgrows.source hwf hspec me))

theorem Converging.self {hwf : company.WellFormed engine.registry}
    (h : Converging engine hwf w) :
    ∃ hwf : w.tally.WellFormed engine.registry, Converging engine hwf w := by
  obtain rfl := h.tally
  exact ⟨hwf, h⟩

/-- Once the entity has converged, the payload of each record is the one
acknowledged last. -/
theorem Converged.acked {hwf : company.WellFormed engine.registry}
    (h : Converged engine spec hwf w) (hspec : spec ∈ engine.registry.specs)
    {me : MappingEntry} (hme : engine.mapping.entry spec.name = some me) {version : Version}
    (hversion : version ∈ company.versions spec) {key : String}
    (hkey : spec.keyOf version.raw = some key) :
    w.acked spec.name key = some (me.payloadOf spec version.raw) :=
  (h hspec me hme key _).mpr ⟨⟨key, version.alterId, _⟩, ⟨version, hversion, hkey, rfl, rfl⟩,
    rfl, rfl⟩

/-- An unmapped entity is never pushed. -/
theorem Cached.acked_unmapped (h : Cached engine w)
    (hme : engine.mapping.entry spec.name = none) (key : String) :
    w.acked spec.name key = none := by
  cases hacked : w.acked spec.name key with
  | none => rfl
  | some payload =>
      obtain ⟨push, hpush, hname, -⟩ := exists_push_of_acked hacked
      obtain ⟨item, hitem⟩ := h.pushed push hpush
      have hmapped := item.hme
      rw [hitem, hname, hme] at hmapped
      cases hmapped

/-- Two worlds that have converged to the same company agree. -/
theorem Converged.agrees {hwf : company.WellFormed engine.registry}
    (hw : Cached engine w) (hw' : Cached engine w')
    (h : Converged engine spec hwf w) (h' : Converged engine spec hwf w')
    (hspec : spec ∈ engine.registry.specs) {version : Version}
    (hversion : version ∈ company.versions spec) {key : String}
    (hkey : spec.keyOf version.raw = some key) :
    w.acked spec.name key = w'.acked spec.name key ∧
      ((engine.mapping.entry spec.name).isSome → (w.acked spec.name key).isSome) := by
  cases hme : engine.mapping.entry spec.name with
  | none => exact ⟨by rw [hw.acked_unmapped hme, hw'.acked_unmapped hme], by simp⟩
  | some me =>
      have hacked := h.acked hspec hme hversion hkey
      have hunique := congrFun ((h hspec me hme).unique (h' hspec me hme)) key
      exact ⟨hunique, fun _ => by rw [hacked]; rfl⟩

/-- Only current records were ever pushed. -/
theorem Converged.pushed {hwf : company.WellFormed engine.registry} (hw : Cached engine w)
    (h : ∀ spec ∈ engine.registry.specs, Converged engine spec hwf w) {push : Push}
    (hpush : push ∈ w.pushes) :
    ∃ spec ∈ engine.registry.specs, spec.name = push.entityName ∧
      ∃ version ∈ company.versions spec, spec.keyOf version.raw = some push.naturalKey := by
  obtain ⟨item, hitem⟩ := hw.pushed push hpush
  obtain ⟨payload, hacked⟩ := acked_of_mem hpush
  rw [← hitem] at hacked
  obtain ⟨e, ⟨version, hversion, hkey, -, -⟩, heq, -⟩ :=
    (h item.spec item.hspec item.hspec item.me item.hme _ _).mp hacked
  exact ⟨item.spec, item.hspec, hitem, version, hversion, heq ▸ hkey⟩

variable [DecidableEq δ]

theorem calm_prog_cycle (hinj : Function.Injective engine.contentHash)
    (hwf : company.WellFormed engine.registry) (op : Operation) (incremental : Bool)
    (hop : engine.prog op = do
      let _ ← engine.runCycle incremental
      pure ())
    (hsince : incremental = false → ∀ entityName, w.db.lastAlterId entityName = none)
    (hw : Converging engine hwf w) :
    (engine.prog op).Always (engine.calm engine.snapshots)
      (fun r w' => Converging engine hwf w' ∧ (r = .ok () →
        ∀ spec ∈ engine.registry.specs, w'.FetchedOk spec → Converged engine spec hwf w')) w := by
  rw [hop]
  refine .bind ((calm_runCycle hinj hwf hsince hw).mono fun r w' hr => ?_)
  cases r with
  | error exc => exact ⟨hr.1, fun h => by cases h⟩
  | ok results => exact ⟨hr.1, fun _ => hr.2 results rfl⟩

/-- A history of edits and incremental cycles is one of a replica by deltas,
for every mapped entity. -/
theorem SyncEngine.Incremental.converging (hinj : Function.Injective engine.contentHash)
    (h : engine.Incremental w) :
    ∃ hwf : w.tally.WellFormed engine.registry, Converging engine hwf w := by
  induction h with
  | start hblank hwf => exact ⟨hwf, converging_blank hblank rfl hwf⟩
  | edit _ hgrows ih =>
      obtain ⟨_, hconverging⟩ := ih
      exact ⟨hgrows.wellFormed, hconverging.edit hgrows⟩
  | cycle _ hrun ih =>
      obtain ⟨hwf, hconverging⟩ := ih
      have hcycle := calm_prog_cycle hinj hwf .incrementalSync true rfl (by simp) hconverging
      exact (hcycle.of_runs hrun).1.self

/-- After a history of edits and incremental cycles whose last one could fetch
everything, Frappe has acknowledged for each record what it acknowledges in a
full sync of the same company from scratch, and no other natural key. -/
theorem incremental_agrees (hinj : Function.Injective engine.contentHash)
    (h : engine.Incremental w)
    (hrun : (engine.prog .incrementalSync).Runs (engine.calm engine.snapshots) w (.ok ()) w')
    (hok : ∀ spec ∈ engine.registry.specs, w'.FetchedOk spec)
    (hblank : w₀.Blank) (htally : w₀.tally = w'.tally)
    (hfull : (engine.prog .fullSync).Runs (engine.calm engine.snapshots) w₀ (.ok ()) w₁)
    (hfullok : ∀ spec ∈ engine.registry.specs, w₁.FetchedOk spec) :
    (∀ spec ∈ engine.registry.specs, ∀ version ∈ w'.tally.versions spec, ∀ key,
      spec.keyOf version.raw = some key →
        w'.acked spec.name key = w₁.acked spec.name key ∧
          ((engine.mapping.entry spec.name).isSome → (w'.acked spec.name key).isSome)) ∧
      ∀ push ∈ w'.pushes, ∃ spec ∈ engine.registry.specs, spec.name = push.entityName ∧
        ∃ version ∈ w'.tally.versions spec, spec.keyOf version.raw = some push.naturalKey := by
  obtain ⟨hwf, hconverging⟩ := h.converging hinj
  have hcycle := calm_prog_cycle hinj hwf .incrementalSync true rfl (by simp) hconverging
  obtain ⟨hconverging', hconverged⟩ := hcycle.of_runs hrun
  have hcompany : w₀.tally = w.tally := htally.trans hconverging'.tally
  have hfullcycle := calm_prog_cycle hinj hwf .fullSync false rfl (fun _ _ => by rw [hblank.db]; rfl)
    (converging_blank hblank hcompany hwf)
  obtain ⟨hconverging₁, hconverged₁⟩ := hfullcycle.of_runs hfull
  rw [hconverging'.tally]
  have hincremental := fun spec hspec => hconverged rfl spec hspec (hok spec hspec)
  constructor
  · intro spec hspec version hversion key hkey
    exact (hincremental spec hspec).agrees hconverging'.cached hconverging₁.cached
      (hconverged₁ rfl spec hspec (hfullok spec hspec)) hspec hversion hkey
  · intro push hpush
    exact Converged.pushed hconverging'.cached hincremental hpush

/-- Two groups, the first one altered after a sync; a cycle that cannot fetch,
then one that can: both payloads are the ones of a full sync from scratch. -/
theorem incremental_agrees_groups :
    let renamed : Group := { guid := "g-1", name := "Fixed Assets", alterId := 2 }
    let cash : Group := { guid := "g-2", name := "Cash", parent := some "Assets", alterId := 3 }
    let engine := groupEngine 1 [[assets], [renamed, cash]]
    ∃ w w' w₁ : World Dict, engine.Incremental w ∧
      (engine.prog .incrementalSync).Runs (engine.calm engine.snapshots) w (.ok ()) w' ∧
      w'.tally = groupCompany [renamed, cash] 3 ∧
      ∀ version ∈ [renamed.version, cash.version], ∀ key, group.keyOf version.raw = some key →
        w'.acked "group" key = w₁.acked "group" key ∧ (w'.acked "group" key).isSome := by
  intro renamed cash engine
  let fetched (groups : List Group) : List Choice :=
    [.inMemory, .commit, groupResponse groups, .inMemory]
  let created (name : String) : List Choice :=
    [.commit, .serve "" [], .commit, .serve name [], .inMemory, .clock 0, .commit]
  let checkpointed : List Choice := [.clock 0, .clock 0, .commit, .inMemory]
  let first : List Choice := [.commit, .inMemory, groupResponse [assets], .inMemory] ++
    created "GRP-1" ++ checkpointed
  let failed : List Choice := [.commit, .inMemory, .tally .timeout] ++ checkpointed
  let second : List Choice := [.commit, .inMemory, groupResponse [renamed, cash], .inMemory] ++
    -- the renamed group is overwritten
    [.commit, .commit, .serve "" [], .inMemory, .clock 0, .commit] ++
    created "GRP-2" ++ checkpointed
  let full : List Choice := [.inMemory, groupResponse [renamed, cash], .inMemory] ++
    created "GRP-1" ++ created "GRP-2" ++ checkpointed
  let company := groupCompany [renamed, cash] 3
  let w₀ : World Dict := groupWorld (groupCompany [assets] 1)
  let blank : World Dict := groupWorld company
  let cycle := engine.prog .incrementalSync
  have hplay : ((play engine.calmExec first cycle w₀).bind fun a =>
      (play engine.calmExec failed cycle (a.2.setTally company)).bind fun b =>
        (play engine.calmExec second cycle b.2).bind fun c =>
          (play engine.calmExec full (engine.prog .fullSync) blank).map fun d =>
            (a, b, c, d)).any (fun x =>
              x.1.2.tally = groupCompany [assets] 1 ∧
              (x.2.2.1.1.toOption.isSome ∧ x.2.2.1.2.tally = company ∧
                (x.2.2.1.2.db.syncState "group").any (·.status == "ok")) ∧
              (x.2.2.2.1.toOption.isSome ∧
                (x.2.2.2.2.db.syncState "group").any (·.status == "ok"))) = true := by
    decide +kernel
  obtain ⟨⟨a, b, c, d⟩, hruns, hfinal⟩ := (Option.any_eq_true _ _).mp hplay
  obtain ⟨a', hfirst, hruns⟩ := Option.bind_eq_some_iff.mp hruns
  obtain ⟨b', hfailed, hruns⟩ := Option.bind_eq_some_iff.mp hruns
  obtain ⟨c', hsecond, hruns⟩ := Option.bind_eq_some_iff.mp hruns
  obtain ⟨d', hfull, hruns⟩ := Option.map_eq_some_iff.mp hruns
  cases hruns
  obtain ⟨htally, ⟨hsecondok, hcompany, hok⟩, hfullok, hfullfetched⟩ := of_decide_eq_true hfinal
  have hruns : ∀ {cs p} {w : World Dict} {x : Except Exn Unit × World Dict},
      play engine.calmExec cs p w = some x →
        p.Runs (engine.calm engine.snapshots) w x.1 x.2 :=
    fun h => runs_of_play engine.calm_of_calmExec h
  have hreturned : ∀ {r : Except Exn Unit}, r.toOption.isSome = true → r = .ok () := by
    intro r h
    cases r with
    | ok _ => rfl
    | error exc => cases h
  have hfetched : ∀ {w : World Dict}, (w.db.syncState "group").any (·.status == "ok") = true →
      ∀ spec ∈ engine.registry.specs, w.FetchedOk spec := by
    intro w h spec hspec
    obtain rfl : spec = group := List.mem_singleton.mp hspec
    obtain ⟨row, hrow, hstatus⟩ := (Option.any_eq_true _ _).mp h
    exact ⟨row, hrow, by simpa using hstatus⟩
  have hgrows : engine.Grows a.2.tally company := by
    rw [htally]
    refine ⟨by decide, by decide +kernel, fun spec hspec version hversion key hkey => ?_⟩
    obtain rfl : spec = group := List.mem_singleton.mp hspec
    obtain rfl : version = assets.version := List.mem_singleton.mp hversion
    refine ⟨renamed.version, by decide, ?_⟩
    rw [← hkey]
    decide
  have hstart : engine.Incremental w₀ :=
    .start ⟨⟨rfl, rfl, rfl, rfl⟩, rfl⟩ (by decide +kernel)
  have hhistory : engine.Incremental b.2 :=
    .cycle (.edit (.cycle hstart (hruns hfirst)) hgrows) (hruns hfailed)
  have hlast := hruns hsecond
  rw [hreturned hsecondok] at hlast
  have hscratch := hruns hfull
  rw [hreturned hfullok] at hscratch
  have hagrees := incremental_agrees (contentHash_groupEngine_injective _ _) hhistory hlast
    (hfetched hok) ⟨⟨rfl, rfl, rfl, rfl⟩, rfl⟩ hcompany.symm hscratch (hfetched hfullfetched)
  refine ⟨b.2, c.2, d.2, hhistory, hlast, hcompany, fun version hversion key hkey => ?_⟩
  have hagree := hagrees.1 group List.mem_cons_self version (by rw [hcompany]; exact hversion)
    key hkey
  exact ⟨hagree.1, hagree.2 rfl⟩

end histories

end TallyConnector
