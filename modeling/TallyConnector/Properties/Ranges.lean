import TallyConnector.Properties.Checkpoint
import TallyConnector.Properties.Convergence
import TallyConnector.World.Receipts

/-! # The checkpoint after a resync of a date range

A resync with a date range loops over the records in the range and stores
their greatest alter id, as a full sync does. Dates and alter ids are
independent, so a record outside the range may be below that checkpoint
without having been pushed.
-/

namespace TallyConnector

open Effects Prog

variable {δ : Type} {engine : SyncEngine δ} {allow : Assumed δ} {spec : EntitySpec}
variable {w w' : World δ} {version : Version}

/-- The `alter_id` that the loop reads from a fetched record. -/
def EntitySpec.alterIdOf (spec : EntitySpec) (raw : Record) : Option Int :=
  match toModel raw spec with
  | .ok model => model.alterId
  | .error _ => none

namespace SyncEngine

variable (engine)

/-- The record has been pushed, or found unchanged, or is queued as it is. -/
def Secured (spec : EntitySpec) (raw : Record) (w : World δ) : Prop :=
  ∃ item : Item engine, item.spec = spec ∧ item.raw = raw ∧ (item.Delivered w ∨ item.InQueue w)

/-- What was neither pushed nor queued is above the checkpoint, so that the
next incremental sync fetches it. -/
def NothingHidden (spec : EntitySpec) (w : World δ) : Prop :=
  ∀ version ∈ w.tally.versions spec, ¬ engine.Secured spec version.raw w →
    ∀ n, w.db.lastAlterId spec.name = some n → n < version.alterId

/-- A resync of the range leaves the record as it is. -/
def LeftOut (spec : EntitySpec) (dateFrom dateTo : Option Date) (version : Version)
    (w : World δ) : Prop :=
  ¬ engine.Secured spec version.raw w ∧
    ¬ (inRange spec dateFrom dateTo version = true ∧ engine.Pushable spec version.raw)

/-- What the resync leaves out is newer than what it fetches. -/
def RangeSafe (spec : EntitySpec) (dateFrom dateTo : Option Date) (w : World δ) : Prop :=
  ∀ version ∈ w.tally.versions spec, engine.LeftOut spec dateFrom dateTo version w →
    ∀ other ∈ w.tally.versions spec, inRange spec dateFrom dateTo other = true →
      (spec.alterIdOf other.raw).isSome → other.alterId < version.alterId

end SyncEngine

/-! ## The running maximum -/

theorem seen_eq (since : Option Int) (raw : Record) :
    SyncEngine.seen spec since raw = SyncEngine.bumpMax since (spec.alterIdOf raw) := by
  unfold SyncEngine.seen EntitySpec.alterIdOf
  cases toModel raw spec <;> rfl

/-- The running maximum is below a bound exactly when all that goes into it is. -/
theorem foldl_seen_lt_iff {records : List Record} {since : Option Int} {bound : Int}
    (hnonneg : ∀ raw ∈ records, ∀ a, spec.alterIdOf raw = some a → 0 ≤ a) :
    (∀ n, records.foldl (SyncEngine.seen spec) since = some n → n < bound) ↔
      (∀ n, since = some n → n < bound) ∧
        ∀ raw ∈ records, ∀ a, spec.alterIdOf raw = some a → a < bound := by
  induction records generalizing since with
  | nil => simp
  | cons raw records ih =>
    rw [List.foldl_cons, ih fun raw' hraw' => hnonneg raw' (List.mem_cons_of_mem raw hraw'),
      seen_eq, List.forall_mem_cons]
    have hraw := hnonneg raw List.mem_cons_self
    cases halter : spec.alterIdOf raw with
    | none => simp [SyncEngine.bumpMax]
    | some a =>
      have ha : 0 ≤ a := hraw a halter
      cases since with
      | none => simp [SyncEngine.bumpMax, ha]
      | some m => simp [SyncEngine.bumpMax, and_assoc]

theorem Company.WellFormed.alterIdOf {company : Company}
    (h : company.WellFormed engine.registry) (hspec : spec ∈ engine.registry.specs)
    (hversion : version ∈ company.versions spec) {a : Int}
    (ha : spec.alterIdOf version.raw = some a) : a = version.alterId := by
  unfold EntitySpec.alterIdOf at ha
  split at ha
  · next model hmodel => exact h.model_alterId hspec hversion hmodel ha
  · cases ha

/-! ## What the loop secures -/

/-- A push secures the version it is of, and no other current one. -/
theorem Item.Effect.secured_iff {item : Item engine} (h : item.Effect allow w w')
    (hwf : w.tally.WellFormed engine.registry) {origin : Version}
    (horigin : origin ∈ w.tally.versions item.spec) (hraw : origin.raw = item.raw)
    (hversion : version ∈ w.tally.versions item.spec) :
    engine.Secured item.spec version.raw w' ↔
      engine.Secured item.spec version.raw w ∨ version.raw = item.raw := by
  have hqueue : ∀ item' : Item engine, item'.InQueue w' ↔ item'.InQueue w := by
    intro item'
    unfold Item.InQueue
    rw [h.retryQueue]
  by_cases hsame : version.raw = item.raw
  · simp only [hsame, or_true, iff_true]
    exact ⟨item, rfl, rfl, .inl h.delivered⟩
  · simp only [hsame, or_false]
    -- an item of another version has another key
    have hdelivered : ∀ item' : Item engine, item'.spec = item.spec → item'.raw = version.raw →
        (item'.Delivered w' ↔ item'.Delivered w) := by
      intro item' hspec' hraw'
      refine h.delivered_iff fun _ hkey => hsame ?_
      have heq := hwf.eq_of_item hspec' hkey (hspec' ▸ hversion) hraw'.symm horigin hraw
      rw [heq, hraw]
    constructor
    · rintro ⟨item', hspec', hraw', hsecured⟩
      refine ⟨item', hspec', hraw', ?_⟩
      rwa [hdelivered item' hspec' hraw', hqueue] at hsecured
    · rintro ⟨item', hspec', hraw', hsecured⟩
      refine ⟨item', hspec', hraw', ?_⟩
      rwa [hdelivered item' hspec' hraw', hqueue]

/-- After the loop over some records of `w₀`, these are secured as far as they
can be pushed, and nothing else changed. -/
structure Swept (engine : SyncEngine δ) (spec : EntitySpec) (w₀ : World δ)
    (done : List Record) (w : World δ) : Prop where
  tally : w.tally = w₀.tally
  secured : ∀ version ∈ w₀.tally.versions spec,
    (engine.Secured spec version.raw w ↔ engine.Secured spec version.raw w₀ ∨
      version.raw ∈ done ∧ engine.Pushable spec version.raw)

variable {w₀ : World δ} {done records : List Record} {raw : Record}

theorem Swept.keyless (h : Swept engine spec w₀ done w) (hkey : spec.keyOf raw = none)
    (result : EntitySyncResult) : Swept engine spec w₀ (raw :: done) (w.setResult result) where
  tally := h.tally
  secured := by
    intro version hversion
    have hne : engine.Pushable spec version.raw → version.raw ≠ raw := by
      rintro ⟨item, rfl, hraw⟩ heq
      rw [← heq, ← hraw, item.keyOf_raw] at hkey
      cases hkey
    refine Iff.trans (h.secured version hversion) (or_congr_right ?_)
    rw [List.mem_cons]
    constructor
    · rintro ⟨hmem, hpushable⟩
      exact ⟨.inr hmem, hpushable⟩
    · rintro ⟨hmem, hpushable⟩
      exact ⟨hmem.resolve_left (hne hpushable), hpushable⟩

theorem Swept.push {item : Item engine} (h : Swept engine item.spec w₀ done w)
    (hwf : w₀.tally.WellFormed engine.registry) {origin : Version}
    (horigin : origin ∈ w₀.tally.versions item.spec) (horaw : origin.raw = item.raw)
    (heffect : item.Effect allow w w') : Swept engine item.spec w₀ (item.raw :: done) w' where
  tally := heffect.tally.trans h.tally
  secured := by
    intro version hversion
    have hstep := heffect.secured_iff (h.tally ▸ hwf) (h.tally ▸ horigin) horaw
      (h.tally ▸ hversion)
    rw [hstep, h.secured version hversion, List.mem_cons, or_assoc]
    refine or_congr_right ?_
    constructor
    · rintro (⟨hmem, hpushable⟩ | heq)
      · exact ⟨.inr hmem, hpushable⟩
      · exact ⟨.inl heq, item, rfl, heq.symm⟩
    · rintro ⟨heq | hmem, hpushable⟩
      · exact .inr heq
      · exact .inl ⟨hmem, hpushable⟩

/-- After the loop over all records in the range, nothing is hidden exactly
when what is left out is newer. -/
theorem Swept.hidden_iff {dateFrom dateTo : Option Date} {row : SyncStateRow}
    (hspec : spec ∈ engine.registry.specs) (hwf : w₀.tally.WellFormed engine.registry)
    (hmem : ∀ raw, raw ∈ records ↔ ∃ version ∈ w₀.tally.versions spec,
      inRange spec dateFrom dateTo version = true ∧ version.raw = raw)
    (h : Swept engine spec w₀ done w) (hdone : ∀ raw, raw ∈ done ↔ raw ∈ records)
    (hrow : row.lastAlterId = records.foldl (SyncEngine.seen spec) none) :
    engine.NothingHidden spec (w.checkpoint spec.name row) ↔
      engine.RangeSafe spec dateFrom dateTo w₀ := by
  have hlast : (w.checkpoint spec.name row).db.lastAlterId spec.name =
      records.foldl (SyncEngine.seen spec) none := by
    rw [← hrow]
    simp [World.checkpoint, DB.lastAlterId]
  have hnonneg : ∀ raw ∈ records, ∀ a, spec.alterIdOf raw = some a → 0 ≤ a := by
    intro raw hraw a ha
    obtain ⟨version, hversion, -, rfl⟩ := (hmem raw).mp hraw
    rw [hwf.alterIdOf hspec hversion ha]
    exact Int.natCast_nonneg _
  unfold SyncEngine.NothingHidden SyncEngine.RangeSafe
  change (∀ version ∈ w.tally.versions spec, ¬ engine.Secured spec version.raw w → _) ↔ _
  rw [h.tally, hlast]
  refine forall₂_congr fun version hversion => ?_
  -- what is not secured was left out by the range, and could be pushed
  have hleft : ¬ engine.Secured spec version.raw w ↔
      engine.LeftOut spec dateFrom dateTo version w₀ := by
    unfold SyncEngine.LeftOut
    rw [h.secured version hversion, not_or, hdone]
    refine and_congr_right fun _ => not_congr ?_
    constructor
    · rintro ⟨hraw, item, hitem, hiraw⟩
      obtain ⟨version', hversion', hrange, hraw'⟩ := (hmem version.raw).mp hraw
      subst hitem
      have heq := hwf.eq_of_item rfl rfl hversion' (hraw'.trans hiraw.symm) hversion hiraw.symm
      exact ⟨heq ▸ hrange, item, rfl, hiraw⟩
    · rintro ⟨hrange, hpushable⟩
      exact ⟨(hmem _).mpr ⟨version, hversion, hrange, rfl⟩, hpushable⟩
  rw [hleft]
  refine imp_congr_right fun _ => ?_
  rw [foldl_seen_lt_iff hnonneg]
  constructor
  · -- the checkpoint is below what was left out: so is each record that was counted
    rintro ⟨-, hbelow⟩ other hother hrange hcounted
    obtain ⟨a, ha⟩ := Option.isSome_iff_exists.mp hcounted
    have hlt := hbelow other.raw ((hmem _).mpr ⟨other, hother, hrange, rfl⟩) a ha
    rw [hwf.alterIdOf hspec hother ha] at hlt
    exact Int.ofNat_lt.mp hlt
  · -- the checkpoint is the largest of the records that were counted
    intro hbelow
    refine ⟨by simp, fun raw hraw a ha => ?_⟩
    obtain ⟨other, hother, hrange, rfl⟩ := (hmem raw).mp hraw
    rw [hwf.alterIdOf hspec hother ha]
    exact Int.ofNat_lt.mpr (hbelow other hother hrange (by rw [ha]; rfl))

section resync

variable [DecidableEq δ] {dateFrom dateTo : Option Date} {result : EntitySyncResult}

/-- The loop over a snapshot sweeps it. -/
theorem calm_sweep {since : Option Int} {w₁ : World δ}
    (hspec : spec ∈ engine.registry.specs) (hwf : w₀.tally.WellFormed engine.registry)
    (hmem : ∀ raw ∈ records, ∃ version ∈ w₀.tally.versions spec, version.raw = raw)
    (hw : Swept engine spec w₀ [] w₁) :
    (engine.syncRecords spec (engine.mapping.entry spec.name) records since).Always
      (engine.calm allow)
      (fun r w' => r = .ok (records.foldl (SyncEngine.seen spec) since) ∧
        Swept engine spec w₀ records.reverse w') w₁ := by
  cases hme : engine.mapping.entry spec.name with
  | none =>
    -- an entity without mapping: nothing can be pushed
    refine calm_syncRecords_unmapped.mono fun r w' hr => ?_
    rcases hr with ⟨rfl, result, rfl⟩
    have hunpushable : ∀ raw, ¬ engine.Pushable spec raw := by
      rintro raw ⟨item, rfl, -⟩
      rw [item.hme] at hme
      cases hme
    refine ⟨rfl, hw.tally, fun version hversion => ?_⟩
    refine Iff.trans (hw.secured version hversion) ?_
    simp [hunpushable]
  | some me =>
    refine (calm_syncRecords (I := Swept engine spec w₀) records hspec hme
      (fun done raw w₂ result _ hkey h => h.keyless hkey result)
      (fun done item w₂ w₃ hitem hraw heffect h => ?_) (List.Subset.refl records) hw).mono
        fun r w' hr => ?_
    · subst hitem
      obtain ⟨origin, horigin, horaw⟩ := hmem item.raw hraw
      exact h.push hwf horigin horaw heffect
    · rwa [List.append_nil] at hr

/-- A resync, in which only the fetch may fail. -/
theorem calm_resyncEntity (hspec : spec ∈ engine.registry.specs)
    (hwf : w.tally.WellFormed engine.registry) :
    (engine.resyncEntity spec.name dateFrom dateTo).Always (engine.calm engine.snapshots)
      (fun r w' => ∀ result, r = .ok result → w'.FetchedOk spec →
        (engine.NothingHidden spec w' ↔ engine.RangeSafe spec dateFrom dateTo w)) w := by
  unfold SyncEngine.resyncEntity
  rw [engine.registry.getEntity_self hspec]
  refine .bind (.ofExcept ?_)
  refine calm_syncEntity (fun exc w₁ result hsame => ?_)
    (fun w₁ result row hsame hrow hstatus => ?_) fun outcome records result hanswered hrecords => ?_
  · intro _ hresult
    cases hresult
  · -- the fetch failed
    rintro _ - ⟨row', hrow', hok⟩
    have heq : row = row' := by simpa [World.checkpoint] using hrow'
    rw [← heq, hstatus] at hok
    exact absurd hok (by decide)
  · obtain ⟨w₁, htally, hsnapshot⟩ := hanswered
    have hmem : ∀ raw, raw ∈ records ↔ ∃ version ∈ w.tally.versions spec,
        inRange spec dateFrom dateTo version = true ∧ version.raw = raw := by
      intro raw
      rw [SyncEngine.Snapshot.mem_iff hspec hsnapshot hrecords, htally]
      simp
    have hstart : Swept engine spec w [] ((w.fetch
        (engine.collectionRequest spec none dateFrom dateTo) outcome).setResult result) := by
      refine ⟨rfl, fun version _ => ?_⟩
      simp only [List.not_mem_nil, false_and, or_false]
      exact Iff.rfl
    refine (calm_sweep hspec hwf (fun raw hraw => ?_) hstart).mono fun r w' hr => ?_
    · obtain ⟨version, hversion, -, hraw⟩ := (hmem raw).mp hraw
      exact ⟨version, hversion, hraw⟩
    · refine ⟨hr.1, fun row hrow _ _ _ _ => ?_⟩
      exact hr.2.hidden_iff hspec hwf hmem (fun raw => List.mem_reverse) hrow

/-- A resync whose fetch succeeds hides nothing from the next incremental sync
exactly when every record that it leaves out is newer than all it fetches. -/
theorem nothing_hidden_iff (hspec : spec ∈ engine.registry.specs)
    (hwf : w.tally.WellFormed engine.registry)
    (hrun : (engine.resyncEntity spec.name dateFrom dateTo).Runs
      (engine.calm engine.snapshots) w (.ok result) w')
    (hok : w'.FetchedOk spec) :
    engine.NothingHidden spec w' ↔ engine.RangeSafe spec dateFrom dateTo w :=
  (calm_resyncEntity hspec hwf).of_runs hrun result rfl hok

end resync

/-! ## Two receipts -/

/-- Entered first, with a later date. -/
def february : Receipt := { guid := "r-1", day := 738917, date := "20240201", alterId := 1 }

def january : Receipt := { guid := "r-2", day := 738899, date := "20240114", alterId := 2 }

def twoReceipts : Company := ⟨[february.version, january.version], 2⟩

theorem wellFormed_twoReceipts (pages : List (List Receipt)) :
    twoReceipts.WellFormed (Receipt.engine pages).registry := by
  change twoReceipts.WellFormed { specs := [Receipt.spec], nodup := by decide }
  decide +kernel

/-- Nothing has been pushed or queued at a fresh database. -/
theorem not_secured_groupWorld {engine : SyncEngine Dict} {company : Company} {raw : Record} :
    ¬ engine.Secured spec raw (groupWorld company) := by
  rintro ⟨item, -, -, (⟨name, hmem⟩ | ⟨name, docs, hmem⟩) | ⟨row, hmem, -⟩⟩
  · exact absurd hmem List.not_mem_nil
  · exact absurd hmem List.not_mem_nil
  · exact absurd hmem List.not_mem_nil

/-- A resync of a range that holds one of the two receipts. -/
theorem exists_resync (r : Receipt) (hr : r = february ∨ r = january) :
    ∃ result w', ((Receipt.engine [[r]]).resyncEntity "receipt_voucher" (some r.day)
        (some r.day)).Runs ((Receipt.engine [[r]]).calm (Receipt.engine [[r]]).snapshots)
        (groupWorld twoReceipts) (.ok result) w' ∧ w'.FetchedOk Receipt.spec := by
  have hplay : ((play (Receipt.engine [[r]]).calmExec
      [.inMemory, .tally (.response 200 (Receipt.page [r])), .inMemory, .commit, .serve "" [],
        .commit, .serve "REC-1" [], .inMemory, .clock 0, .commit, .clock 0, .clock 0, .commit,
        .inMemory]
      ((Receipt.engine [[r]]).resyncEntity "receipt_voucher" (some r.day) (some r.day))
      (groupWorld twoReceipts)).any fun x =>
        x.1.toOption.isSome ∧
          (x.2.db.syncState "receipt_voucher").any (·.status == "ok")) = true := by
    rcases hr with rfl | rfl
    · decide +kernel
    · decide +kernel
  obtain ⟨⟨r', w'⟩, hrun, hfinal⟩ := (Option.any_eq_true _ _).mp hplay
  obtain ⟨hreturned, hok⟩ := of_decide_eq_true hfinal
  obtain ⟨row, hrow, hstatus⟩ := (Option.any_eq_true _ _).mp hok
  cases r' with
  | error exc => cases hreturned
  | ok result =>
    exact ⟨result, w', runs_of_play (Receipt.engine [[r]]).calm_of_calmExec hrun, row, hrow,
      by simpa using hstatus⟩

/-- The later alter id is left out: the next incremental sync fetches it. -/
theorem nothing_hidden_february :
    ∃ result w', ((Receipt.engine [[february]]).resyncEntity Receipt.spec.name
        (some february.day) (some february.day)).Runs
        ((Receipt.engine [[february]]).calm (Receipt.engine [[february]]).snapshots)
        (groupWorld twoReceipts) (.ok result) w' ∧
      (Receipt.engine [[february]]).NothingHidden Receipt.spec w' := by
  obtain ⟨result, w', hrun, hok⟩ := exists_resync february (.inl rfl)
  refine ⟨result, w', hrun, (nothing_hidden_iff List.mem_cons_self
    (wellFormed_twoReceipts _) hrun hok).mpr ?_⟩
  intro version hversion hleft other hother hrange _
  have hversions : twoReceipts.versions Receipt.spec = [february.version, january.version] := by
    decide +kernel
  have hpushable : (Receipt.engine [[february]]).Pushable Receipt.spec february.version.raw :=
    (pushable_iff List.mem_cons_self).mpr (by decide +kernel)
  change version ∈ twoReceipts.versions Receipt.spec at hversion
  change other ∈ twoReceipts.versions Receipt.spec at hother
  rw [hversions, List.mem_pair] at hversion hother
  rcases hversion with rfl | rfl
  · exact absurd ⟨by decide, hpushable⟩ hleft.2
  · rcases hother with rfl | rfl
    · decide
    · exact absurd hrange (by decide)

/-- The earlier alter id is left out, and is below the checkpoint. -/
theorem hides_february :
    (Receipt.engine [[january]]).NothingHidden Receipt.spec (groupWorld twoReceipts) ∧
    ∃ result w', ((Receipt.engine [[january]]).resyncEntity Receipt.spec.name
        (some january.day) (some january.day)).Runs
        ((Receipt.engine [[january]]).calm (Receipt.engine [[january]]).snapshots)
        (groupWorld twoReceipts) (.ok result) w' ∧ w'.FetchedOk Receipt.spec ∧
      ¬ (Receipt.engine [[january]]).NothingHidden Receipt.spec w' := by
  obtain ⟨result, w', hrun, hok⟩ := exists_resync january (.inr rfl)
  refine ⟨fun _ _ _ n hn => (by cases hn), result, w', hrun, hok, fun hnothing => ?_⟩
  have hsafe := ((calm_resyncEntity List.mem_cons_self
    (wellFormed_twoReceipts _)).of_runs hrun result rfl hok).mp hnothing
  have hlt := hsafe february.version (by decide +kernel)
    ⟨not_secured_groupWorld, fun h => absurd h.1 (by decide)⟩ january.version (by decide +kernel)
    (by decide) (by decide +kernel)
  exact absurd hlt (by decide)

end TallyConnector
