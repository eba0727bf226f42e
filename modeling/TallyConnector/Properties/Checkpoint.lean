import TallyConnector.Properties.Snapshots
import TallyConnector.World.Groups

/-! # No record is lost below the checkpoint

The invariant ties the four stores together: a cached content hash stands for
an acknowledged payload, a checkpoint stays below the last id Tally gave out,
what a sync queued is still queued or was acknowledged, and so is every
current record at or below the checkpoint of its entity.
-/

namespace TallyConnector

open Effects Tables

variable {δ : Type} {engine : SyncEngine δ}

namespace Item

variable {item item' : Item engine} {w w' : World δ}

/-- Frappe acknowledged a push of the item's payload under its key. -/
def Acked (item : Item engine) (w : World δ) : Prop :=
  ∃ push ∈ w.pushes, push.entityName = item.spec.name ∧ push.naturalKey = item.key ∧
    push.payload = item.payload

/-- The item's record is the payload of the queued row of its key. -/
def InQueue (item : Item engine) (w : World δ) : Prop :=
  ∃ row ∈ w.db.retryQueue.rows,
    row.key = ⟨item.spec.name, item.key, "create"⟩ ∧ row.val.payloadJson = item.raw

/-- The item's record is not lost. -/
def Kept (item : Item engine) (w : World δ) : Prop := item.Acked w ∨ item.InQueue w

theorem Acked.mono (h : item.Acked w) (hpushes : w.pushes ⊆ w'.pushes) : item.Acked w' := by
  obtain ⟨push, hpush, hrest⟩ := h
  exact ⟨push, hpushes hpush, hrest⟩

theorem Kept.mono (h : item.Kept w) (hpushes : w.pushes ⊆ w'.pushes)
    (hqueue : w'.db.retryQueue = w.db.retryQueue) : item.Kept w' := by
  rcases h with hacked | hqueued
  · exact .inl (hacked.mono hpushes)
  · right
    unfold InQueue
    rw [hqueue]
    exact hqueued

/-- Queueing another record leaves the item, if the two do not share a key. -/
theorem Kept.enqueue (h : item.Kept w) {guid : String} {data : RetryData}
    (hpayload : data.payloadJson = item'.raw)
    (hdistinct : item.spec.name = item'.spec.name → item.key = guid → item.raw = item'.raw) :
    item.Kept (w.enqueue ⟨item'.spec.name, guid, "create"⟩ data) := by
  rcases h with hacked | ⟨row, hrow, hkey, hraw⟩
  · exact .inl hacked
  right
  by_cases hsame : row.key = ⟨item'.spec.name, guid, "create"⟩
  · -- the row is overwritten with the same record
    rw [hkey, RetryKey.mk.injEq] at hsame
    obtain ⟨row', hrow', hkey', hraw'⟩ := w.exists_row_enqueue _ data
    refine ⟨row', hrow', ?_, ?_⟩
    · rw [hkey', hsame.1, hsame.2.1]
    · rw [hraw', hpayload, hdistinct hsame.1 hsame.2.1]
  · exact ⟨row, (AutoTable.mem_upsert_of_ne hsame).mpr hrow, hkey, hraw⟩

/-- A freshly queued item is in the queue. -/
theorem inQueue_enqueue (w : World δ) {data : RetryData} (hpayload : data.payloadJson = item.raw) :
    item.InQueue (w.enqueue ⟨item.spec.name, item.key, "create"⟩ data) := by
  obtain ⟨row, hrow, hkey, hraw⟩ := w.exists_row_enqueue _ data
  exact ⟨row, hrow, hkey, hraw.trans hpayload⟩

theorem Kept.reschedule (h : item.Kept w) (id : Nat) (error nextAttemptAt : String) :
    item.Kept (w.reschedule id error nextAttemptAt) := by
  rcases h with hacked | ⟨row, hrow, hkey, hraw⟩
  · exact .inl hacked
  right
  refine ⟨_, AutoTable.mem_update.mpr ⟨row, hrow, rfl⟩, ?_, ?_⟩
  · split <;> exact hkey
  · split <;> exact hraw

/-- A settled row was acknowledged, so deleting it loses nothing. -/
theorem Kept.settle (h : item.Kept w)
    (hskipped : ∀ name docs, Event.skipped (item.push name) docs ∈ w.log → item.Acked w)
    {id : Nat} (hsettled : ∀ row ∈ w.db.retryQueue.rows, row.id = id → engine.Settled row w) :
    item.Kept (w.settle id) := by
  rcases h with hacked | ⟨row, hrow, hkey, hraw⟩
  · exact .inl hacked
  by_cases hid : row.id = id
  · left
    have hentity : item.spec.name = row.key.entityName := by rw [hkey]
    rcases hsettled row hrow hid item.spec item.hspec hentity (by simp [item.hme]) with
      hnone | ⟨item', hspec, hraw', hdelivered⟩
    · rw [hraw, item.keyOf_raw] at hnone
      cases hnone
    · obtain rfl : item' = item := eq_of_raw hspec (hraw'.trans hraw)
      rcases hdelivered with ⟨name, hpush⟩ | ⟨name, docs, hskip⟩
      · exact ⟨_, hpush, rfl, rfl, rfl⟩
      · exact hskipped name docs hskip
  · exact .inr ⟨row, AutoTable.mem_delete.mpr ⟨hrow, hid⟩, hkey, hraw⟩

end Item

/-! ## The invariant -/

variable {ops : Operation → Prop} {allow : Assumed δ} {w w' : World δ}

structure Accounts (engine : SyncEngine δ) (w : World δ) : Prop extends Tracked engine w where
  /-- A cached content hash stands for an acknowledged payload. -/
  cache : ∀ (item : Item engine) (row : CacheRow δ), w.db.syncCache item.cacheKey = some row →
    row.contentHash = some item.contentHash → item.Acked w
  skipped : ∀ (item : Item engine) (name : Json) (docs : List Doc),
    Event.skipped (item.push name) docs ∈ w.log → item.Acked w
  /-- A checkpoint is an id Tally has given out, before the last fetch if it
  is not newer. -/
  checkpoint : ∀ entityName n, w.db.lastAlterId entityName = some n →
    n ≤ w.tally.lastId ∧ ∀ fetch, w.fetched = some fetch → n ≤ fetch.company.lastId
  queued : ∀ fetch, w.fetched = some fetch → ∀ raw ∈ fetch.queued, ∃ item : Item engine,
    item.spec.name = fetch.request.entityName ∧ item.raw = raw ∧ item.Kept w ∧
      ∃ version ∈ fetch.company.versions item.spec, version.raw = raw
  covered : ∀ item : Item engine, ∀ version ∈ w.tally.versions item.spec,
    version.raw = item.raw → ∀ n, w.db.lastAlterId item.spec.name = some n →
      (version.alterId : Int) ≤ n → item.Kept w

theorem acked_of_push {item item' : Item engine} {name name' : Json}
    (hpush : item.push name = item'.push name') (h : item'.Acked w) : item.Acked w := by
  obtain ⟨push, hmem, hentity, hkey, hpayload⟩ := h
  have hfields := (Push.mk.injEq ..).mp hpush
  exact ⟨push, hmem, hentity.trans hfields.1.symm, hkey.trans hfields.2.1.symm,
    hpayload.trans hfields.2.2.2.2.2.symm⟩

theorem cache_step (hinj : Function.Injective engine.contentHash)
    (hstep : engine.Step ops allow w w') (h : Accounts engine w) (item : Item engine)
    (row : CacheRow δ) (hrow : w'.db.syncCache item.cacheKey = some row)
    (hhash : row.contentHash = some item.contentHash) : item.Acked w' := by
  cases hstep with
  | ack item' name op =>
      exact (h.cache item row hrow hhash).mono (List.subset_cons_self _ _)
  | remember item' name at' _ =>
      simp only [World.setCache, Function.update_apply] at hrow
      split at hrow
      · cases hrow
        cases hhash
      · exact h.cache item row hrow hhash
  | save item' name at' hack _ =>
      simp only [World.setCache, Function.update_apply] at hrow
      split at hrow
      · next hkey =>
        cases hrow
        have hpayload := hinj (Option.some.inj hhash)
        obtain ⟨hspec, hkey⟩ := Item.cacheKey_inj hkey
        exact ⟨_, hack, congrArg EntitySpec.name hspec.symm, hkey.symm, hpayload⟩
      · exact h.cache item row hrow hhash
  | _ => exact h.cache item row hrow hhash

theorem skipped_step (hstep : engine.Step ops allow w w') (h : Accounts engine w)
    (item : Item engine) (name : Json) (docs : List Doc)
    (hevent : Event.skipped (item.push name) docs ∈ w'.log) : item.Acked w' := by
  have hold : ∀ event, (∀ push docs, event ≠ Event.skipped push docs) →
      Event.skipped (item.push name) docs ∈ event :: w.log → item.Acked w := by
    intro event hne hmem
    rcases List.mem_cons.mp hmem with heq | hmem
    · exact absurd heq.symm (hne _ _)
    · exact h.skipped item name docs hmem
  cases hstep with
  | ack item' name' op =>
      exact (h.skipped item name docs hevent).mono (List.subset_cons_self _ _)
  | skip item' row hrow hhash _ =>
      rcases List.mem_cons.mp hevent with heq | hmem
      · rw [Event.skipped.injEq] at heq
        exact acked_of_push heq.1 (h.cache item' row hrow hhash)
      · exact h.skipped item name docs hmem
  | poll doctype filters => exact hold _ (by simp) hevent
  | post item' name' choice _ _ _ _ _ => exact hold _ (by simp) hevent
  | put item' row _ _ _ => exact hold _ (by simp) hevent
  | remember item' name' at' _ => exact hold _ (by simp) hevent
  | save item' name' at' _ _ => exact hold _ (by simp) hevent
  | _ => exact h.skipped item name docs hevent

theorem checkpoint_step (hstep : engine.Step ops allow w w') (h : Accounts engine w)
    (entityName : String) (n : Int) (hn : w'.db.lastAlterId entityName = some n) :
    n ≤ w'.tally.lastId ∧ ∀ fetch, w'.fetched = some fetch → n ≤ fetch.company.lastId := by
  cases hstep with
  | edit company hev _ =>
      -- an edit only raises the last id
      obtain ⟨hle, hfetch⟩ := h.checkpoint entityName n hn
      exact ⟨hle.trans (Int.ofNat_le.mpr hev.1), hfetch⟩
  | fetch request outcome _ =>
      -- the company was fetched as it is
      have hle := (h.checkpoint entityName n hn).1
      refine ⟨hle, fun fetch hfetch => ?_⟩
      cases hfetch
      exact hle
  | enqueue item guid data _ _ _ =>
      obtain ⟨hle, hold⟩ := h.checkpoint entityName n hn
      refine ⟨hle, fun fetch' hfetch' => ?_⟩
      obtain ⟨fetch, hfetch, rfl⟩ := Option.map_eq_some_iff.mp hfetch'
      exact hold fetch hfetch
  | checkpoint spec since dateFrom dateTo row hspec hsince _ hcovered =>
      by_cases hname : entityName = spec.name
      · -- the checkpoint that is written
        subst hname
        have hn' : row.lastAlterId = some n := by
          simpa [World.checkpoint, DB.lastAlterId] using hn
        have hsince' : ∀ n, since = some n → n ≤ w.tally.lastId ∧
            ∀ fetch, w.fetched = some fetch → n ≤ fetch.company.lastId := by
          rintro m rfl
          rcases hsince with hnone | hsome
          · cases hnone
          · exact h.checkpoint spec.name m hsome.symm
        rcases hcovered with hlast | ⟨fetch, records, hfetch, hrequest, hrecords, hlast, -⟩
        · exact hsince' n (hlast.symm.trans hn')
        · -- the maximum is one of the fetched ids, or the old checkpoint
          have htracked := h.fetched fetch hfetch
          have hbound : n ≤ fetch.company.lastId := by
            refine foldl_seen_le (Int.natCast_nonneg _) (fun m hm => (hsince' m hm).2 fetch hfetch)
              (fun raw hraw model hmodel a ha => ?_) (hlast.symm.trans hn')
            have hentity : fetch.request.entityName = spec.name := by rw [hrequest]; rfl
            obtain ⟨version, hselect, rfl⟩ :=
              (htracked.mem_company hspec hentity hrecords).mp hraw
            have hversion := Company.versions_of_select hentity hselect
            rw [htracked.wellFormed.model_alterId hspec hversion hmodel ha]
            exact Int.ofNat_le.mpr
              (htracked.wellFormed.bounded version (Company.mem_versions.mp hversion).1)
          refine ⟨hbound.trans (Int.ofNat_le.mpr htracked.lastId), fun fetch' hfetch' => ?_⟩
          have heq : fetch = fetch' := Option.some.inj (hfetch.symm.trans hfetch')
          exact heq ▸ hbound
      · -- the checkpoint of another entity
        have hold : w.db.lastAlterId entityName = some n := by
          simpa [World.checkpoint, DB.lastAlterId, Function.update_of_ne hname] using hn
        exact h.checkpoint entityName n hold
  | _ => exact h.checkpoint entityName n hn

theorem queued_step (hstep : engine.Step ops allow w w') (h : Accounts engine w) (fetch' : Fetch)
    (hfetch' : w'.fetched = some fetch') (raw : Record) (hraw : raw ∈ fetch'.queued) :
    ∃ item : Item engine, item.spec.name = fetch'.request.entityName ∧ item.raw = raw ∧
      item.Kept w' ∧ ∃ version ∈ fetch'.company.versions item.spec, version.raw = raw := by
  cases hstep with
  | fetch request outcome _ =>
      cases hfetch'
      cases hraw
  | ack item' name op =>
      -- an acknowledgement adds a push
      obtain ⟨item, hname, hitem, hkept, hversion⟩ := h.queued fetch' hfetch' raw hraw
      exact ⟨item, hname, hitem, hkept.mono (List.subset_cons_self _ _) rfl, hversion⟩
  | settle id hsettled =>
      obtain ⟨item, hname, hitem, hkept, hversion⟩ := h.queued fetch' hfetch' raw hraw
      exact ⟨item, hname, hitem, hkept.settle (h.skipped item) hsettled, hversion⟩
  | reschedule id error nextAttemptAt =>
      obtain ⟨item, hname, hitem, hkept, hversion⟩ := h.queued fetch' hfetch' raw hraw
      exact ⟨item, hname, hitem, hkept.reschedule id error nextAttemptAt, hversion⟩
  | enqueue item' guid data hitem' hguid hpayload =>
      obtain ⟨fetch, hfetch, rfl⟩ := Option.map_eq_some_iff.mp hfetch'
      obtain ⟨fetch₁, hfetch₁, version', hversion', hraw'⟩ := h.toTracked.version hitem'
      obtain rfl : fetch = fetch₁ := Option.some.inj (hfetch.symm.trans hfetch₁)
      have hwf := (h.fetched fetch hfetch).wellFormed
      obtain rfl : guid = item'.key := hwf.guid_eq hversion' hraw' hguid
      rcases List.mem_cons.mp hraw with rfl | hold
      · -- the record just queued
        obtain ⟨fetch₂, records, hfetch₂, hentity, _, _⟩ := hitem'
        obtain rfl : fetch = fetch₂ := Option.some.inj (hfetch.symm.trans hfetch₂)
        exact ⟨item', hentity.symm, hpayload.symm, .inr (Item.inQueue_enqueue w hpayload),
          version', hversion', by rw [hraw', hpayload]⟩
      · -- a record queued before: its row stays, or is written over by the same payload
        obtain ⟨item, hname, hitem, hkept, version, hversion, hvraw⟩ :=
          h.queued fetch hfetch raw hold
        refine ⟨item, hname, hitem, hkept.enqueue hpayload fun hspec hkey => ?_,
          version, hversion, hvraw⟩
        have hspec' := engine.registry.eq_of_name item.hspec item'.hspec hspec
        have heq := hwf.eq_of_item hspec' hkey hversion (hvraw.trans hitem.symm) hversion' hraw'
        rw [hitem, ← hvraw, heq, hraw']
  | _ => exact h.queued fetch' hfetch' raw hraw

/-- An operation without a date range. -/
def Operation.Rangeless : Operation → Prop
  | .resyncEntity _ dateFrom dateTo => dateFrom = none ∧ dateTo = none
  | _ => True

/-- What a complete fetch handled is not lost. -/
theorem kept_of_handled {item : Item engine} {fetch : Fetch} (h : Accounts engine w)
    (hfetch : w.fetched = some fetch) (hrequest : fetch.request.entityName = item.spec.name)
    (hhandled : engine.Handled item.spec item.raw w) : item.Kept w := by
  rcases hhandled with hnone | ⟨item', hspec, hraw, hdelivered⟩ | ⟨fetch', hfetch', hqueued⟩
  · rw [item.keyOf_raw] at hnone
    cases hnone
  · obtain rfl : item' = item := Item.eq_of_raw hspec hraw
    rcases hdelivered with ⟨name, hpush⟩ | ⟨name, docs, hskip⟩
    · exact .inl ⟨_, hpush, rfl, rfl, rfl⟩
    · exact .inl (h.skipped item' name docs hskip)
  · obtain rfl : fetch = fetch' := Option.some.inj (hfetch.symm.trans hfetch')
    obtain ⟨item', hname, hraw, hkept, -⟩ := h.queued fetch hfetch item.raw hqueued
    have hspec := engine.registry.eq_of_name item'.hspec item.hspec (hname.trans hrequest)
    obtain rfl : item' = item := Item.eq_of_raw hspec hraw
    exact hkept

/-- A current record at or below a new checkpoint was in the fetch behind it,
or at or below the old checkpoint. -/
theorem covered_checkpoint {spec : EntitySpec} {since : Option Int}
    {lastAlterId : Option Int} (hspec : spec ∈ engine.registry.specs)
    (hsince : since = none ∨ since = w.db.lastAlterId spec.name)
    (hcovered : engine.Covered spec since none none lastAlterId w) (h : Accounts engine w)
    {n : Int} (hbound : ∀ fetch, w.fetched = some fetch → n ≤ fetch.company.lastId)
    (hn : lastAlterId = some n) (item : Item engine) (hitem : item.spec = spec)
    {version : Version} (hversion : version ∈ w.tally.versions spec)
    (hraw : version.raw = item.raw) (hid : (version.alterId : Int) ≤ n) : item.Kept w := by
  subst hitem
  -- the checkpoint before covers what is not above it
  have hold : ∀ m, since = some m → (version.alterId : Int) ≤ m → item.Kept w := by
    rintro m rfl hm
    rcases hsince with hnone | hsome
    · cases hnone
    · exact h.covered item version hversion hraw m hsome.symm hm
  rcases hcovered with rfl | ⟨fetch, records, hfetch, hrequest, hrecords, hlast, hhandled⟩
  · exact hold n hn hid
  by_cases hselected : ∀ m, since = some m → m < version.alterId
  · -- the record was in the fetch
    have htracked := h.fetched fetch hfetch
    obtain ⟨hmem, hname⟩ := Company.mem_versions.mp hversion
    have hcompany : version ∈ fetch.company.records :=
      htracked.old version hmem (Int.ofNat_le.mp (hid.trans (hbound fetch hfetch)))
    have hentity : fetch.request.entityName = item.spec.name := by rw [hrequest]; rfl
    have hselect : version ∈ fetch.company.select fetch.request := by
      refine Company.mem_select.mpr ⟨hcompany, ?_⟩
      rw [hrequest]
      exact selects_buildCollectionRequest.mpr ⟨hname, by simp [inRange], hselected⟩
    have hrecord : item.raw ∈ records :=
      (htracked.mem_company item.hspec hentity hrecords).mpr ⟨version, hselect, hraw⟩
    exact kept_of_handled h hfetch hentity
      (hhandled (by simp [item.hme]) item.raw hrecord)
  · -- it was not asked for
    push Not at hselected
    obtain ⟨m, hm, hle⟩ := hselected
    exact hold m hm hle

theorem covered_step (hstep : engine.Step Operation.Rangeless allow w w')
    (h : Accounts engine w) (item : Item engine) (version : Version)
    (hversion : version ∈ w'.tally.versions item.spec) (hraw : version.raw = item.raw) (n : Int)
    (hn : w'.db.lastAlterId item.spec.name = some n) (hid : (version.alterId : Int) ≤ n) :
    item.Kept w' := by
  cases hstep with
  | edit company hev hwf =>
      -- a record this old was not changed by the edit
      have hle : (version.alterId : Int) ≤ w.tally.lastId :=
        hid.trans (h.checkpoint item.spec.name n hn).1
      obtain ⟨hmem, hname⟩ := Company.mem_versions.mp hversion
      have hold := Company.mem_versions.mpr ⟨hev.old hmem (Int.ofNat_le.mp hle), hname⟩
      exact h.covered item version hold hraw n hn hid
  | ack item' name op =>
      exact (h.covered item version hversion hraw n hn hid).mono (List.subset_cons_self _ _) rfl
  | settle id hsettled =>
      exact (h.covered item version hversion hraw n hn hid).settle (h.skipped item) hsettled
  | reschedule id error nextAttemptAt =>
      exact (h.covered item version hversion hraw n hn hid).reschedule id error nextAttemptAt
  | enqueue item' guid data hitem' hguid hpayload =>
      obtain ⟨fetch, hfetch, version', hversion', hraw'⟩ := h.toTracked.version hitem'
      have htracked := h.fetched fetch hfetch
      obtain rfl : guid = item'.key := htracked.wellFormed.guid_eq hversion' hraw' hguid
      refine (h.covered item version hversion hraw n hn hid).enqueue hpayload fun hname hkey => ?_
      -- the two records are one version of the company at the fetch
      have hspec := engine.registry.eq_of_name item.hspec item'.hspec hname
      have hle : (version.alterId : Int) ≤ fetch.company.lastId :=
        hid.trans ((h.checkpoint item.spec.name n hn).2 fetch hfetch)
      obtain ⟨hmem, hentity⟩ := Company.mem_versions.mp hversion
      have hold := Company.mem_versions.mpr
        ⟨htracked.old version hmem (Int.ofNat_le.mp hle), hentity⟩
      have heq := htracked.wellFormed.eq_of_item hspec hkey hold hraw hversion' hraw'
      rw [← hraw, heq, hraw']
  | checkpoint spec since dateFrom dateTo row hspec hsince hrange hcovered =>
      have hkept : item.Kept w := by
        by_cases hname : item.spec.name = spec.name
        · have hitem := engine.registry.eq_of_name item.hspec hspec hname
          have hn' : row.lastAlterId = some n := by
            simpa [World.checkpoint, DB.lastAlterId, hname] using hn
          obtain ⟨rfl, rfl⟩ : dateFrom = none ∧ dateTo = none := by
            rcases hrange with hrange | hrange
            · exact hrange
            · exact hrange
          have hstep : engine.Step Operation.Rangeless allow w (w.checkpoint spec.name row) :=
            .checkpoint spec since none none row hspec hsince hrange hcovered
          have hbound := (checkpoint_step hstep h item.spec.name n hn).2
          exact covered_checkpoint hspec hsince hcovered h hbound hn' item hitem
            (hitem ▸ hversion) hraw hid
        · have hold : w.db.lastAlterId item.spec.name = some n := by
            simpa [World.checkpoint, DB.lastAlterId, Function.update_of_ne hname] using hn
          exact h.covered item version hversion hraw n hold hid
      exact hkept.mono (fun _ hp => hp) rfl
  | _ => exact h.covered item version hversion hraw n hn hid

theorem accounts_step (hinj : Function.Injective engine.contentHash)
    (hallow : ∀ e c w, allow e c w → engine.snapshots e c w)
    (hstep : engine.Step Operation.Rangeless allow w w') (h : Accounts engine w) :
    Accounts engine w' where
  toTracked := tracked_step hallow hstep h.toTracked
  cache := cache_step hinj hstep h
  skipped := skipped_step hstep h
  checkpoint := checkpoint_step hstep h
  queued := queued_step hstep h
  covered := covered_step hstep h

theorem accounts_init (hw : w.Fresh) (hcompany : w.tally.WellFormed engine.registry) :
    Accounts engine w where
  company := hcompany
  fetched := by simp [hw.fetched]
  cache := by simp [hw.db, DB.empty]
  skipped := by simp [hw.log]
  checkpoint := by simp [hw.db, DB.empty, DB.lastAlterId]
  queued := by simp [hw.fetched]
  covered := by simp [hw.db, DB.empty, DB.lastAlterId]

/-! ## Checkpoint soundness -/

variable [DecidableEq δ]

/-- Checkpoint soundness: in every reachable state, a current record of a
mapped entity at or below the entity's checkpoint has had its payload
acknowledged by Frappe, or is queued for retry as it is, or can never be
pushed. -/
theorem checkpoint_sound (hinj : Function.Injective engine.contentHash)
    {c : Config (@Call.Resp δ) Exn (World δ)}
    (hc : (engine.machine Operation.Rangeless).Reach engine.snapshots engine.Initial c)
    {spec : EntitySpec} {me : MappingEntry} (hspec : spec ∈ engine.registry.specs)
    (hme : engine.mapping.entry spec.name = some me)
    {version : Version} (hversion : version ∈ c.world.tally.versions spec) {n : Int}
    (hn : c.world.db.lastAlterId spec.name = some n) (hid : (version.alterId : Int) ≤ n) :
    (∃ model key, toModel version.raw spec = .ok model ∧ model.usableKey spec = some key ∧
      ∃ push ∈ c.world.pushes, push.entityName = spec.name ∧ push.naturalKey = key ∧
        push.payload = me.apply model.dump ∧ push.Served c.world) ∨
    (∃ row ∈ c.world.db.retryQueue.rows,
      row.key.entityName = spec.name ∧ row.val.payloadJson = version.raw) ∨
    (∀ model, toModel version.raw spec = .ok model → model.usableKey spec = none) := by
  have haccounts : Accounts engine c.world :=
    engine.invariant (fun w hw => accounts_init hw.1 hw.2)
      (fun w w' hstep h => accounts_step hinj (fun _ _ _ ha => ha) hstep h) hc
  cases hmodel : toModel version.raw spec with
  | error exc => exact .inr (.inr fun _ h => by cases h)
  | ok model =>
      cases hkey : model.usableKey spec with
      | none =>
          refine .inr (.inr fun model' hmodel' => ?_)
          cases hmodel'
          exact hkey
      | some key =>
          let item : Item engine := ⟨spec, me, version.raw, model, key, hspec, hme, hmodel, hkey⟩
          rcases haccounts.covered item version hversion rfl n hn hid with
            -- acknowledged
            ⟨push, hpush, hentity, hpkey, hpayload⟩ | ⟨row, hrow, hrkey, hraw⟩
          · have hserved := engine.pushes_served (fun _ hw => hw.1.pushes) hc push hpush
            exact .inl ⟨model, key, rfl, hkey, push, hpush, hentity, hpkey, hpayload, hserved⟩
          · exact .inr (.inl ⟨row, hrow, by rw [hrkey], hraw⟩)

/-- A full sync of two groups, the push of the second one refused: the first
was acknowledged, the second is queued, and the checkpoint covers both. -/
theorem checkpoint_sound_groups :
    let assets : Group := { guid := "g-1", name := "Assets", alterId := 1 }
    let cash : Group := { guid := "g-2", name := "Cash", parent := some "Assets", alterId := 2 }
    let engine := groupEngine 1 [[assets, cash]]
    ∃ c, (engine.machine Operation.Rangeless).Reach engine.snapshots engine.Initial c ∧
      c.world.tally.versions group = [assets.version, cash.version] ∧
      c.world.db.lastAlterId "group" = some 2 ∧
      c.world.pushes.length = 1 ∧ c.world.db.retryQueue.rows.length = 1 ∧
      ∀ version ∈ c.world.tally.versions group,
        (∃ model key, toModel version.raw group = .ok model ∧
          model.usableKey group = some key ∧
          ∃ push ∈ c.world.pushes, push.entityName = "group" ∧ push.naturalKey = key ∧
            push.payload = groupMapping.apply model.dump ∧ push.Served c.world) ∨
        (∃ row ∈ c.world.db.retryQueue.rows,
          row.key.entityName = "group" ∧ row.val.payloadJson = version.raw) ∨
        (∀ model, toModel version.raw group = .ok model → model.usableKey group = none) := by
  intro assets cash engine
  let w : World Dict := groupWorld (groupCompany [assets, cash] 2)
  have hinit : engine.Initial w := ⟨⟨rfl, rfl, rfl, rfl⟩, by decide +kernel⟩
  obtain ⟨c, hc, hfinal⟩ := Machine.Reach.exists_of_run
    (M := engine.machine Operation.Rangeless) engine.snapshots_of_check hinit
    [.start ⟨.fullSync, trivial⟩, .call .inMemory, .call (groupResponse [assets, cash]),
      .call .inMemory,
      -- the push of the first group
      .call .commit, .call (.serve "" []), .call .commit, .call (.serve "GRP-1" []),
      .call .inMemory, .call (.clock 0), .call .commit,
      -- the push of the second group
      .call .commit, .call (.serve "" []), .call .commit,
      .call (.refuse (.response { status := 417, body := .empty })),
      .call .inMemory, .call (.clock 0), .call (.clock 0), .call .commit,
      -- the checkpoint
      .call (.clock 0), .call (.clock 0), .call .commit, .call .inMemory, .finish]
    (fun c =>
      c.world.tally.versions group = [assets.version, cash.version] ∧
      c.world.db.lastAlterId "group" = some 2 ∧
      c.world.pushes.length = 1 ∧ c.world.db.retryQueue.rows.length = 1)
    (by decide +kernel)
  obtain ⟨hversions, hcheckpoint, hpushes, hrows⟩ := of_decide_eq_true hfinal
  refine ⟨c, hc, hversions, hcheckpoint, hpushes, hrows, fun version hversion => ?_⟩
  have hid : ∀ version ∈ [assets.version, cash.version], (version.alterId : Int) ≤ 2 := by
    decide
  exact checkpoint_sound (contentHash_groupEngine_injective _ _) hc List.mem_cons_self rfl
    hversion hcheckpoint (hid version (hversions ▸ hversion))

end TallyConnector
