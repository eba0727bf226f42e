import TallyConnector.Properties.Snapshots
import TallyConnector.World.Groups

/-! # Stale overwrites

A failed push leaves its record version in the retry queue. Nothing removes
the row when a newer version of the record is pushed directly, so the next
drain overwrites it with the old one (`stale_overwrite_groups`). Where no older row
of the key is queued at an acknowledged push, pushes never go back in time
(`pushes_ordered`).
-/

namespace TallyConnector

open Effects Tables

variable {δ : Type} {engine : SyncEngine δ}

/-- `newer` does not carry an older version of the record than `older`. -/
def Push.NotStale (newer older : Push) : Prop :=
  newer.entityName = older.entityName → newer.naturalKey = older.naturalKey →
    ∀ a ∈ newer.alterId, ∀ b ∈ older.alterId, b ≤ a

instance (newer older : Push) : Decidable (newer.NotStale older) :=
  inferInstanceAs (Decidable (_ → _ → _))

/-- The acknowledged pushes, the latest first, never go back in time. -/
def PushesOrdered (w : World δ) : Prop := w.pushes.Pairwise Push.NotStale

instance (w : World δ) : Decidable (PushesOrdered w) :=
  inferInstanceAs (Decidable (List.Pairwise _ _))

/-- The alter id of the version a row carries. -/
def SyncEngine.rowAlterId (engine : SyncEngine δ) (row : RetryRow) : Option Int :=
  match engine.registry.getEntity row.key.entityName with
  | .ok spec =>
      match toModel row.val.payloadJson spec with
      | .ok model => model.alterId
      | .error _ => none
  | .error _ => none

/-- No row of the push's key carries an older version than the push. -/
def SyncEngine.NoOlderRow (engine : SyncEngine δ) (push : Push) (w : World δ) : Prop :=
  ∀ row ∈ w.db.retryQueue.rows, row.key.entityName = push.entityName →
    row.key.recordGuid = push.naturalKey →
      ∀ a ∈ engine.rowAlterId row, ∀ b ∈ push.alterId, b ≤ a

instance (engine : SyncEngine δ) (push : Push) (w : World δ) :
    Decidable (engine.NoOlderRow push w) :=
  inferInstanceAs (Decidable (∀ _ ∈ _, _ → _ → _))

/-- Every push is acknowledged while no older version of its record is
queued. -/
def SyncEngine.noOlderRow (engine : SyncEngine δ) : Assumed δ :=
  fun e _ w =>
    match e with
    | .result (.created push) | .result (.updated push) => engine.NoOlderRow push w
    | _ => True

/-- The two assumptions, decided. -/
def SyncEngine.checkOrdered (engine : SyncEngine δ) (e : Call δ) (choice : Choice)
    (w : World δ) : Bool :=
  engine.checkSnapshots e choice w &&
    match e with
    | .result (.created push) | .result (.updated push) => decide (engine.NoOlderRow push w)
    | _ => true

theorem SyncEngine.ordered_of_check (engine : SyncEngine δ) (e : Call δ) (choice : Choice)
    (w : World δ) (h : engine.checkOrdered e choice w = true) :
    engine.snapshots e choice w ∧ engine.noOlderRow e choice w := by
  obtain ⟨hsnapshot, hrow⟩ := Bool.and_eq_true_iff.mp h
  refine ⟨engine.snapshots_of_check e choice w hsnapshot, ?_⟩
  cases e with
  | result op =>
      cases op with
      | created push =>
          change engine.NoOlderRow push w
          exact of_decide_eq_true hrow
      | updated push =>
          change engine.NoOlderRow push w
          exact of_decide_eq_true hrow
      | _ => trivial
  | _ => trivial

/-! ## The invariant -/

variable {ops : Operation → Prop} {allow : Assumed δ} {w w' : World δ}

/-- Nothing acknowledged or queued under the item's key is newer than `n`. -/
structure Below (w : World δ) (item : Item engine) (n : Nat) : Prop where
  pushes : ∀ push ∈ w.pushes, push.entityName = item.spec.name →
    push.naturalKey = item.key → ∀ a ∈ push.alterId, a ≤ n
  rows : ∀ row ∈ w.db.retryQueue.rows, row.key.entityName = item.spec.name →
    row.key.recordGuid = item.key → ∀ a ∈ engine.rowAlterId row, a ≤ n

theorem Below.mono {item : Item engine} {n m : Nat} (h : Below w item n) (hnm : n ≤ m) :
    Below w item m where
  pushes := fun push hpush he hk a ha => (h.pushes push hpush he hk a ha).trans (by omega)
  rows := fun row hrow he hk a ha => (h.rows row hrow he hk a ha).trans (by omega)

structure InOrder (engine : SyncEngine δ) (w : World δ) : Prop extends Tracked engine w where
  ordered : PushesOrdered w
  /-- Every row carries an item under its key. -/
  rows : ∀ row ∈ w.db.retryQueue.rows, ∃ item : Item engine,
    row.key = ⟨item.spec.name, item.key, "create"⟩ ∧ row.val.payloadJson = item.raw
  acked : ∀ push ∈ w.pushes, ∀ row ∈ w.db.retryQueue.rows,
    row.key.entityName = push.entityName → row.key.recordGuid = push.naturalKey →
      ∀ a ∈ engine.rowAlterId row, ∀ b ∈ push.alterId, b ≤ a
  fetch : ∀ fetch, w.fetched = some fetch → ∀ item : Item engine,
    ∀ version ∈ fetch.company.versions item.spec, version.raw = item.raw →
      Below w item version.alterId
  current : ∀ item : Item engine, ∀ version ∈ w.tally.versions item.spec,
    version.raw = item.raw → Below w item version.alterId
  bounded : ∀ item : Item engine, Below w item w.tally.lastId

theorem rowAlterId_eq {item : Item engine} {row : RetryRow}
    (hname : row.key.entityName = item.spec.name) (hraw : row.val.payloadJson = item.raw) :
    engine.rowAlterId row = item.model.alterId := by
  rw [SyncEngine.rowAlterId, hname, engine.registry.getEntity_self item.hspec, hraw]
  dsimp only
  rw [item.hmodel]

/-- A queued item is the item of a row of its own key. -/
theorem InOrder.queued (h : InOrder engine w) {item : Item engine} (hqueued : item.Queued w) :
    ∃ row ∈ w.db.retryQueue.rows, row.key = ⟨item.spec.name, item.key, "create"⟩ ∧
      engine.rowAlterId row = item.model.alterId := by
  obtain ⟨row, hrow, hname, hraw⟩ := hqueued
  obtain ⟨item', hkey', hraw'⟩ := h.rows row hrow
  have hspec : item'.spec = item.spec :=
    engine.registry.eq_of_name item'.hspec item.hspec (by rw [← hname, hkey'])
  obtain rfl : item' = item := Item.eq_of_raw hspec (hraw'.symm.trans hraw)
  exact ⟨row, hrow, hkey', rowAlterId_eq hname hraw⟩

/-! ## Where a pushed version stands -/

section source

variable {item item' : Item engine} (h : InOrder engine w) (hsource : item.Source w)
variable (hspec : item'.spec = item.spec) (hkey : item'.key = item.key)

include h hsource

/-- No older push of the key is newer than what is pushed now. -/
theorem source_not_stale {push : Push} (hpush : push ∈ w.pushes)
    (hname : push.entityName = item.spec.name) (hpkey : push.naturalKey = item.key) :
    ∀ a ∈ item.model.alterId, ∀ b ∈ push.alterId, b ≤ a := by
  intro a ha b hb
  rcases hsource with hfetched | hqueued
  · obtain ⟨fetch, hfetch, version, hversion, hraw⟩ := h.toTracked.version hfetched
    have hbelow := h.fetch fetch hfetch item version hversion hraw
    rw [(h.fetched fetch hfetch).wellFormed.item_alterId hversion hraw ha]
    exact hbelow.pushes push hpush hname hpkey b hb
  · obtain ⟨row, hrow, hrkey, hrow_id⟩ := h.queued hqueued
    exact h.acked push hpush row hrow (by rw [hrkey, hname]) (by rw [hrkey, hpkey]) a
      (hrow_id ▸ ha) b hb

include hspec hkey

/-- A version of the key in the last fetch is at least as new. -/
theorem source_le_fetch {fetch : Fetch} (hfetch : w.fetched = some fetch) {version : Version}
    (hversion : version ∈ fetch.company.versions item'.spec) (hraw : version.raw = item'.raw) :
    ∀ a ∈ item.model.alterId, a ≤ version.alterId := by
  intro a ha
  rcases hsource with hfetched | hqueued
  · obtain ⟨fetch', hfetch', version', hversion', hraw'⟩ := h.toTracked.version hfetched
    obtain rfl : fetch = fetch' := Option.some.inj (hfetch.symm.trans hfetch')
    have hwf := (h.fetched fetch hfetch).wellFormed
    rw [hwf.item_alterId hversion' hraw' ha,
      hwf.eq_of_item hspec hkey hversion hraw hversion' hraw']
  · obtain ⟨row, hrow, hrkey, hrow_id⟩ := h.queued hqueued
    exact (h.fetch fetch hfetch item' version hversion hraw).rows row hrow
      (by rw [hrkey, hspec]) (by rw [hrkey, hkey]) a (hrow_id ▸ ha)

/-- The current version of the key is at least as new. -/
theorem source_le_current {version : Version}
    (hversion : version ∈ w.tally.versions item'.spec) (hraw : version.raw = item'.raw) :
    ∀ a ∈ item.model.alterId, a ≤ version.alterId := by
  intro a ha
  rcases hsource with hfetched | hqueued
  · obtain ⟨fetch, hfetch, version', hversion', hraw'⟩ := h.toTracked.version hfetched
    have htracked := h.fetched fetch hfetch
    obtain ⟨hmem, hname⟩ := Company.mem_versions.mp hversion
    by_cases hid : version.alterId ≤ fetch.company.lastId
    · -- it was there already when the item was fetched
      have hold := Company.mem_versions.mpr ⟨htracked.old version hmem hid, hname⟩
      exact source_le_fetch h (.inl hfetched) hspec hkey hfetch hold hraw a ha
    · rw [htracked.wellFormed.item_alterId hversion' hraw' ha]
      have := htracked.wellFormed.bounded version' (Company.mem_versions.mp hversion').1
      omega
  · obtain ⟨row, hrow, hrkey, hrow_id⟩ := h.queued hqueued
    exact (h.current item' version hversion hraw).rows row hrow
      (by rw [hrkey, hspec]) (by rw [hrkey, hkey]) a (hrow_id ▸ ha)

omit hspec hkey in
theorem source_le_lastId : ∀ a ∈ item.model.alterId, a ≤ w.tally.lastId := by
  intro a ha
  rcases hsource with hfetched | hqueued
  · obtain ⟨fetch, hfetch, version, hversion, hraw⟩ := h.toTracked.version hfetched
    have htracked := h.fetched fetch hfetch
    rw [htracked.wellFormed.item_alterId hversion hraw ha]
    have := htracked.wellFormed.bounded version (Company.mem_versions.mp hversion).1
    have := htracked.lastId
    omega
  · obtain ⟨row, hrow, hrkey, hrow_id⟩ := h.queued hqueued
    exact (h.bounded item).rows row hrow (by rw [hrkey]) (by rw [hrkey]) a (hrow_id ▸ ha)

end source

/-! ## The steps that add a version -/

theorem rowAlterId_congr {row row' : RetryRow} (hkey : row.key = row'.key)
    (hpayload : row.val.payloadJson = row'.val.payloadJson) :
    engine.rowAlterId row = engine.rowAlterId row' := by
  simp only [SyncEngine.rowAlterId, hkey, hpayload]

theorem Below.ack {item item' : Item engine} {n : Nat} (h : Below w item' n) (name : Json)
    (hnew : item'.spec = item.spec → item'.key = item.key → ∀ a ∈ item.model.alterId, a ≤ n) :
    Below { w with pushes := item.push name :: w.pushes } item' n where
  pushes := by
    intro push hpush hname hkey a ha
    rcases List.mem_cons.mp hpush with rfl | hold
    · have hspec := engine.registry.eq_of_name item'.hspec item.hspec hname.symm
      exact hnew hspec hkey.symm a ha
    · exact h.pushes push hold hname hkey a ha
  rows := h.rows

theorem Below.enqueue {item item' : Item engine} {n : Nat} (h : Below w item' n)
    {data : RetryData} (hpayload : data.payloadJson = item.raw)
    (hnew : item'.spec = item.spec → item'.key = item.key → ∀ a ∈ item.model.alterId, a ≤ n) :
    Below (w.enqueue ⟨item.spec.name, item.key, "create"⟩ data) item' n where
  pushes := h.pushes
  rows := by
    intro row hrow hname hkey a ha
    rcases World.of_mem_enqueue hrow with ⟨hrkey, hraw⟩ | hold
    · rw [hrkey] at hname hkey
      have hspec := engine.registry.eq_of_name item'.hspec item.hspec hname.symm
      rw [rowAlterId_eq (by rw [hrkey]) (hraw.trans hpayload)] at ha
      exact hnew hspec hkey.symm a ha
    · exact h.rows row hold hname hkey a ha

/-- Rows that come from old rows raise nothing. -/
theorem Below.of_rows {item : Item engine} {n : Nat} (h : Below w item n)
    (hpushes : w'.pushes = w.pushes)
    (hrows : ∀ row ∈ w'.db.retryQueue.rows, ∃ old ∈ w.db.retryQueue.rows,
      row.key = old.key ∧ row.val.payloadJson = old.val.payloadJson) : Below w' item n where
  pushes := by
    rw [hpushes]
    exact h.pushes
  rows := by
    intro row hrow hname hkey a ha
    obtain ⟨old, hold, hokey, hpayload⟩ := hrows row hrow
    rw [rowAlterId_congr hokey hpayload] at ha
    exact h.rows old hold (hokey ▸ hname) (hokey ▸ hkey) a ha

theorem inOrder_ack {item : Item engine} (h : InOrder engine w) (hsource : item.Source w)
    (name : Json) (hrow : engine.NoOlderRow (item.push name) w) :
    InOrder engine { w with pushes := item.push name :: w.pushes } where
  company := h.company
  fetched := h.fetched
  ordered := by
    refine List.pairwise_cons.mpr ⟨fun push hpush hname hkey => ?_, h.ordered⟩
    exact source_not_stale h hsource hpush hname.symm hkey.symm
  rows := h.rows
  acked := by
    intro push hpush row hmem hname hkey
    rcases List.mem_cons.mp hpush with rfl | hold
    · exact hrow row hmem hname hkey
    · exact h.acked push hold row hmem hname hkey
  fetch := fun fetch hfetch item' version hversion hraw =>
    (h.fetch fetch hfetch item' version hversion hraw).ack name fun hspec hkey =>
      source_le_fetch h hsource hspec hkey hfetch hversion hraw
  current := fun item' version hversion hraw =>
    (h.current item' version hversion hraw).ack name fun hspec hkey =>
      source_le_current h hsource hspec hkey hversion hraw
  bounded := fun item' => (h.bounded item').ack name fun _ _ => source_le_lastId h hsource

theorem inOrder_enqueue {item : Item engine} (h : InOrder engine w) (hfetched : item.Fetched w)
    {guid : String} {data : RetryData}
    (hguid : bindTextNotNull "retry_queue.record_guid" (SyncEngine.recordGuid item.spec item.raw) =
      .ok guid)
    (hpayload : data.payloadJson = item.raw) :
    InOrder engine (w.enqueue ⟨item.spec.name, guid, "create"⟩ data) := by
  have hsource : item.Source w := .inl hfetched
  obtain ⟨fetch₀, hfetch₀, version₀, hversion₀, hraw₀⟩ := h.toTracked.version hfetched
  obtain rfl : guid = item.key :=
    (h.fetched fetch₀ hfetch₀).wellFormed.guid_eq hversion₀ hraw₀ hguid
  exact {
    toTracked := h.toTracked.enqueue _ _
    ordered := h.ordered
    rows := by
      intro row hrow
      rcases World.of_mem_enqueue hrow with ⟨hrkey, hraw⟩ | hold
      · exact ⟨item, hrkey, hraw.trans hpayload⟩
      · exact h.rows row hold
    acked := by
      intro push hpush row hrow hname hkey
      rcases World.of_mem_enqueue hrow with ⟨hrkey, hraw⟩ | hold
      · -- the row that was added is not older than what was pushed
        rw [hrkey] at hname hkey
        rw [rowAlterId_eq (by rw [hrkey]) (hraw.trans hpayload)]
        exact source_not_stale h hsource hpush hname.symm hkey.symm
      · exact h.acked push hpush row hold hname hkey
    fetch := by
      intro fetch' hfetch' item' version hversion hraw
      obtain ⟨fetch, hfetch, rfl⟩ := Option.map_eq_some_iff.mp hfetch'
      exact (h.fetch fetch hfetch item' version hversion hraw).enqueue hpayload
        fun hspec hkey => source_le_fetch h hsource hspec hkey hfetch hversion hraw
    current := fun item' version hversion hraw =>
      (h.current item' version hversion hraw).enqueue hpayload fun hspec hkey =>
        source_le_current h hsource hspec hkey hversion hraw
    bounded := fun item' =>
      (h.bounded item').enqueue hpayload fun _ _ => source_le_lastId h hsource }

/-- Steps that only drop or put off rows. -/
theorem inOrder_of_rows (h : InOrder engine w) (hpushes : w'.pushes = w.pushes)
    (htally : w'.tally = w.tally) (hfetched : w'.fetched = w.fetched)
    (hrows : ∀ row ∈ w'.db.retryQueue.rows, ∃ old ∈ w.db.retryQueue.rows,
      row.key = old.key ∧ row.val.payloadJson = old.val.payloadJson) : InOrder engine w' where
  company := by
    rw [htally]
    exact h.company
  fetched := by
    rw [htally, hfetched]
    exact h.fetched
  ordered := by
    rw [PushesOrdered, hpushes]
    exact h.ordered
  rows := by
    intro row hrow
    obtain ⟨old, hold, hkey, hpayload⟩ := hrows row hrow
    rw [hkey, hpayload]
    exact h.rows old hold
  acked := by
    intro push hpush row hrow
    obtain ⟨old, hold, hkey, hpayload⟩ := hrows row hrow
    rw [rowAlterId_congr hkey hpayload, hkey]
    exact h.acked push (hpushes ▸ hpush) old hold
  fetch := by
    rw [hfetched]
    exact fun fetch hfetch item version hversion hraw =>
      (h.fetch fetch hfetch item version hversion hraw).of_rows hpushes hrows
  current := by
    rw [htally]
    exact fun item version hversion hraw =>
      (h.current item version hversion hraw).of_rows hpushes hrows
  bounded := by
    rw [htally]
    exact fun item => (h.bounded item).of_rows hpushes hrows

theorem inOrder_edit {company : Company} (h : InOrder engine w)
    (hev : w.tally.Evolves company) (hwf : company.WellFormed engine.registry) :
    InOrder engine (w.setTally company) where
  company := hwf
  fetched := fun fetch hfetch => (h.fetched fetch hfetch).edit hev
  ordered := h.ordered
  rows := h.rows
  acked := h.acked
  fetch := fun fetch hfetch item version hversion hraw =>
    ⟨(h.fetch fetch hfetch item version hversion hraw).pushes,
      (h.fetch fetch hfetch item version hversion hraw).rows⟩
  current := by
    intro item version hversion hraw
    obtain ⟨hmem, hname⟩ := Company.mem_versions.mp hversion
    rcases hev.2 version hmem with hold | hnew
    · have hbelow := h.current item version (Company.mem_versions.mpr ⟨hold, hname⟩) hraw
      exact ⟨hbelow.pushes, hbelow.rows⟩
    · -- a fresh version is newer than everything so far
      have hbelow := (h.bounded item).mono hnew.le
      exact ⟨hbelow.pushes, hbelow.rows⟩
  bounded := fun item =>
    ⟨((h.bounded item).mono hev.1).pushes, ((h.bounded item).mono hev.1).rows⟩

theorem inOrder_fetch {request : CollectionRequest} {outcome : TallyOutcome}
    (h : InOrder engine w)
    (hsnapshot : engine.Snapshot { request, outcome, company := w.tally }) :
    InOrder engine { w with fetched := some { request, outcome, company := w.tally } } where
  toTracked := h.toTracked.fetch hsnapshot
  ordered := h.ordered
  rows := h.rows
  acked := h.acked
  fetch := by
    intro fetch hfetch item version hversion hraw
    cases hfetch
    have hbelow := h.current item version hversion hraw
    exact ⟨hbelow.pushes, hbelow.rows⟩
  current := fun item version hversion hraw =>
    ⟨(h.current item version hversion hraw).pushes, (h.current item version hversion hraw).rows⟩
  bounded := fun item => ⟨(h.bounded item).pushes, (h.bounded item).rows⟩

theorem inOrder_step (hsnapshots : ∀ e c w, allow e c w → engine.snapshots e c w)
    (hnoOlder : ∀ e c w, allow e c w → engine.noOlderRow e c w)
    (hstep : engine.Step ops allow w w') (h : InOrder engine w) : InOrder engine w' := by
  have hsame : ∀ row ∈ w.db.retryQueue.rows, ∃ old ∈ w.db.retryQueue.rows,
      row.key = old.key ∧ row.val.payloadJson = old.val.payloadJson :=
    fun row hrow => ⟨row, hrow, rfl, rfl⟩
  cases hstep with
  | edit company hev hwf => exact inOrder_edit h hev hwf
  | fetch request outcome ha => exact inOrder_fetch h (hsnapshots _ _ _ ha)
  | ack item name op hsource hop _ ha =>
      refine inOrder_ack h hsource name ?_
      have hrow := hnoOlder _ _ _ ha
      rcases hop with rfl | rfl
      · exact hrow
      · exact hrow
  | enqueue item guid data hfetched hguid hpayload =>
      exact inOrder_enqueue h hfetched hguid hpayload
  | settle id _ =>
      refine inOrder_of_rows h rfl rfl rfl fun row hrow => ?_
      exact hsame row (AutoTable.mem_delete.mp hrow).1
  | reschedule id error nextAttemptAt =>
      exact inOrder_of_rows h rfl rfl rfl fun row hrow => World.of_mem_reschedule hrow
  | _ => exact inOrder_of_rows h rfl rfl rfl hsame

theorem inOrder_init (hw : w.Fresh) (hcompany : w.tally.WellFormed engine.registry) :
    InOrder engine w where
  company := hcompany
  fetched := by simp [hw.fetched]
  ordered := by simp [PushesOrdered, hw.pushes]
  rows := by simp [hw.db, DB.empty]
  acked := by simp [hw.pushes]
  fetch := by simp [hw.fetched]
  current := fun _ _ _ _ => ⟨by simp [hw.pushes], by simp [hw.db, DB.empty]⟩
  bounded := fun _ => ⟨by simp [hw.pushes], by simp [hw.db, DB.empty]⟩

/-! ## The order of the pushes -/

section
variable [DecidableEq δ]

/-- In every run in which a push is only acknowledged while no older version
of its record is queued, the versions acknowledged for a key never go back in
time. -/
theorem pushes_ordered {c : Config (@Call.Resp δ) Exn (World δ)}
    (hc : (engine.machine fun _ => True).Reach
      (fun e choice w => engine.snapshots e choice w ∧ engine.noOlderRow e choice w)
      engine.Initial c) : PushesOrdered c.world := by
  have horder : InOrder engine c.world :=
    engine.invariant (fun w hw => inOrder_init hw.1 hw.2)
      (fun w w' hstep h => inOrder_step (fun _ _ _ ha => ha.1) (fun _ _ _ ha => ha.2) hstep h) hc
  exact horder.ordered

end

/-- The push of a version is refused; the queue is drained before the group is
altered and synced again. -/
theorem pushes_ordered_groups :
    let old : Group := { guid := "g-1", name := "Assets", alterId := 1 }
    let new : Group := { guid := "g-1", name := "Fixed Assets", alterId := 2 }
    let engine := groupEngine 1 [[old], [new]]
    ∃ c, (engine.machine fun _ => True).Reach
        (fun e choice w => engine.snapshots e choice w ∧ engine.noOlderRow e choice w)
        engine.Initial c ∧
      c.world.pushes.map (·.alterId) = [some 2, some 1] ∧ PushesOrdered c.world := by
  intro old new engine
  have hinit : engine.Initial (groupWorld (groupCompany [old] 1)) :=
    ⟨⟨rfl, rfl, rfl, rfl⟩, by decide +kernel⟩
  obtain ⟨c, hc, hfinal⟩ := Machine.Reach.exists_of_run (M := engine.machine fun _ => True)
    engine.ordered_of_check hinit
    [.start ⟨.fullSync, trivial⟩, .call .inMemory, .call (groupResponse [old]), .call .inMemory,
      .call .commit, .call (.serve "" []), .call .commit,
      .call (.refuse (.response { status := 503, body := .empty })),
      .call .inMemory, .call (.clock 0), .call (.clock 0), .call .commit,
      .call (.clock 0), .call (.clock 0), .call .commit, .call .inMemory, .finish,
      -- the drain
      .start ⟨.processRetryQueue 100, trivial⟩, .call (.clock 0), .call .commit, .call .inMemory,
      .call .commit, .call (.serve "" []), .call .commit, .call (.serve "GRP-1" []),
      .call .inMemory, .call (.clock 0), .call .commit, .call .commit, .finish,
      -- the group is altered and synced
      .edit (groupCompany [new] 2), .start ⟨.incrementalSync, trivial⟩, .call .commit,
      .call .inMemory, .call (groupResponse [new]), .call .inMemory,
      .call .commit, .call .commit, .call (.serve "" []), .call .inMemory,
      .call (.clock 0), .call .commit,
      .call (.clock 0), .call (.clock 0), .call .commit, .call .inMemory, .finish]
    (fun c => c.world.pushes.map (·.alterId) = [some 2, some 1])
    (by decide +kernel)
  exact ⟨c, hc, of_decide_eq_true hfinal, pushes_ordered hc⟩

/-- The push of a version is refused and queued; the next version is pushed
directly; the drain then overwrites it with the queued one. -/
theorem stale_overwrite_groups :
    let old : Group := { guid := "g-1", name := "Assets", alterId := 1 }
    let new : Group := { guid := "g-1", name := "Fixed Assets", alterId := 2 }
    let engine := groupEngine 1 [[old], [new]]
    ∃ c, (engine.machine fun _ => True).Reach engine.snapshots engine.Initial c ∧
      c.world.pushes.map (fun push => (push.naturalKey, push.alterId)) =
        [("g-1", some 1), ("g-1", some 2)] ∧
      ¬ PushesOrdered c.world := by
  intro old new engine
  have hinit : engine.Initial (groupWorld (groupCompany [old] 1)) :=
    ⟨⟨rfl, rfl, rfl, rfl⟩, by decide +kernel⟩
  obtain ⟨c, hc, hfinal⟩ := Machine.Reach.exists_of_run (M := engine.machine fun _ => True)
    engine.snapshots_of_check hinit
    [.start ⟨.fullSync, trivial⟩, .call .inMemory, .call (groupResponse [old]), .call .inMemory,
      .call .commit, .call (.serve "" []), .call .commit,
      .call (.refuse (.response { status := 503, body := .empty })),
      .call .inMemory, .call (.clock 0), .call (.clock 0), .call .commit,
      .call (.clock 0), .call (.clock 0), .call .commit, .call .inMemory, .finish,
      -- the group is altered and synced
      .edit (groupCompany [new] 2), .start ⟨.incrementalSync, trivial⟩, .call .commit,
      .call .inMemory, .call (groupResponse [new]), .call .inMemory,
      .call .commit, .call (.serve "" []), .call .commit, .call (.serve "GRP-1" []),
      .call .inMemory, .call (.clock 0), .call .commit,
      .call (.clock 0), .call (.clock 0), .call .commit, .call .inMemory, .finish,
      -- the drain
      .start ⟨.processRetryQueue 100, trivial⟩, .call (.clock 0), .call .commit, .call .inMemory,
      .call .commit, .call .commit, .call (.serve "" []), .call .inMemory,
      .call (.clock 0), .call .commit, .call .commit, .finish]
    (fun c =>
      c.world.pushes.map (fun push => (push.naturalKey, push.alterId)) =
        [("g-1", some 1), ("g-1", some 2)] ∧
      ¬ PushesOrdered c.world)
    (by decide +kernel)
  exact ⟨c, hc, of_decide_eq_true hfinal⟩

end TallyConnector
