import TallyConnector.Sync.Visits
import TallyConnector.World.Groups

/-! # The counters of a sync

`created` and `updated` are bumped when Frappe has acknowledged the payload,
before the name is cached; when the cache write raises, the record is counted
as failed as well. Every record is counted once, plus once for each such
write. `failed` itself is always right.
-/

namespace TallyConnector

open Effects Prog

variable {δ : Type} {engine : SyncEngine δ} {outside : Outside δ} {spec : EntitySpec}
variable {s s' : Session δ} {new : List (Exchange δ)}

/-! ## What is counted -/

/-- The cache write after an acknowledged create or update raised. -/
def Exchange.isLost : Exchange δ → Bool
  | .rejected (.upsertCache _ _ _ (some _) _) _ => true
  | _ => false

/-- A record was put into the retry queue. -/
def Exchange.isQueued : Exchange δ → Bool
  | .executed (.upsertRetry _ _ _ _ _ _ _) => true
  | _ => false

/-- A record is permanently invalid: it is no valid model, or it has no usable
natural key. -/
def EntitySpec.invalid (spec : EntitySpec) (raw : Record) : Bool := (spec.keyOf raw).isNone

/-- How many records the counters account for. -/
def EntitySyncResult.handled (result : EntitySyncResult) : Nat :=
  result.created + result.updated + result.unchanged + result.failed

theorem Exchange.IsLookup.isLost {exchange : Exchange δ} (h : exchange.IsLookup) :
    exchange.isLost = false := by
  cases exchange with
  | rejected stmt exc =>
      cases stmt with
      | upsertCache key name doctype hash lastPushedAt =>
          cases hash with
          | none => rfl
          | some hash => cases h
      | _ => rfl
  | _ => rfl

theorem Exchange.IsLookup.isQueued {exchange : Exchange δ} (h : exchange.IsLookup) :
    exchange.isQueued = false := by
  cases exchange with
  | executed stmt =>
      cases stmt with
      | upsertRetry _ _ _ _ _ _ _ => cases h
      | _ => rfl
  | _ => rfl

theorem Session.LookedUp.countP {key : CacheKey} {looks : List (Exchange δ)}
    (h : s.LookedUp key looks s') :
    looks.countP Exchange.isLost = 0 ∧ looks.countP Exchange.isQueued = 0 := by
  refine ⟨List.countP_eq_zero.mpr fun exchange hmem => ?_,
    List.countP_eq_zero.mpr fun exchange hmem => ?_⟩
  · simp [(h.lookups exchange hmem).isLost]
  · simp [(h.lookups exchange hmem).isQueued]

/-! ## One record -/

/-- What a stretch of the record loop adds to the counters. -/
structure Counted (spec : EntitySpec) (records : List Record) (new : List (Exchange δ))
    (s s' : Session δ) : Prop where
  fetched : s'.result.fetched = s.result.fetched
  handled : s'.result.handled =
    s.result.handled + records.length + new.countP Exchange.isLost
  failed : s'.result.failed =
    s.result.failed + records.countP spec.invalid + new.countP Exchange.isQueued

/-- A push bumps a counter when it returns, and one when its cache write is
lost. -/
theorem Item.Pushed.counted {item : Item engine} {r : Except Exn Unit}
    (h : item.Pushed outside s new r s') :
    s'.result.fetched = s.result.fetched ∧ s'.result.failed = s.result.failed ∧
      new.countP Exchange.isQueued = 0 ∧
      s'.result.handled =
        s.result.handled + (if r = .ok () then 1 else 0) + new.countP Exchange.isLost := by
  cases h with
  | unchanged row _ _ _ =>
      -- counted as unchanged
      refine ⟨rfl, rfl, rfl, ?_⟩
      simp [Session.count, Session.execute, ResultOp.apply, EntitySyncResult.handled,
        Exchange.isLost]
      omega
  | saved looks s₁ op name bound lastPushedAt hlooks hop _ _ =>
      -- counted as created or as updated
      obtain ⟨hlost, hqueued⟩ := hlooks.countP
      have hresult := hlooks.result
      rcases hop with rfl | rfl <;>
        simp [Session.count, Session.execute, ResultOp.apply, EntitySyncResult.handled,
          Exchange.isLost, Exchange.isQueued, Item.save, hresult, hlost, hqueued] <;> omega
  | failed looks s₁ exc hlooks _ =>
      -- nothing was counted, and nothing was lost
      obtain ⟨hlost, hqueued⟩ := hlooks.countP
      simp [hlooks.result, hlost, hqueued]
  | lost looks s₁ op name lastPushedAt exc hlooks hop _ =>
      -- counted, but the row was not written
      obtain ⟨hlost, hqueued⟩ := hlooks.countP
      have hresult := hlooks.result
      rcases hop with rfl | rfl <;>
        simp [Session.count, Session.add, ResultOp.apply, EntitySyncResult.handled,
          List.countP_cons, Exchange.isLost, Exchange.isQueued, Item.save, hresult, hlost,
          hqueued] <;> omega

theorem Item.invalid_raw (item : Item engine) : item.spec.invalid item.raw = false := by
  simp [EntitySpec.invalid, item.keyOf_raw]

theorem SyncEngine.Treated.counted {raw : Record}
    (hmapped : (engine.mapping.entry spec.name).isSome)
    (h : engine.Treated outside spec raw s new (.ok ()) s') : Counted spec [raw] new s s' := by
  cases h with
  | dropped hdrops =>
      -- it has no model, or no key
      have hinvalid : spec.invalid raw = true := by
        rcases hdrops with ⟨exc, hmodel⟩ | ⟨-, hkey⟩
        · simp [EntitySpec.invalid, keyOf_of_error hmodel]
        · simp [EntitySpec.invalid, hkey]
      refine ⟨rfl, ?_, ?_⟩
      · simp [Session.count, ResultOp.apply, EntitySyncResult.handled, Exchange.isLost]
        omega
      · simp [Session.count, ResultOp.apply, hinvalid, Exchange.isQueued]
  | unmapped model _ hme =>
      -- the entity is mapped
      rw [hme] at hmapped
      cases hmapped
  | pushed item hspec hraw hpushed =>
      obtain ⟨hfetched, hfailed, hqueued, hhandled⟩ := hpushed.counted
      have hinvalid : spec.invalid raw = false := hspec ▸ hraw ▸ item.invalid_raw
      refine ⟨hfetched, ?_, ?_⟩
      · simpa using hhandled
      · simp [hfailed, hinvalid, hqueued]
  | queued item hspec hraw hpushed guid _ nextAttemptAt createdAt =>
      obtain ⟨hfetched, hfailed, hqueued, hhandled⟩ := hpushed.counted
      have hinvalid : spec.invalid raw = false := hspec ▸ hraw ▸ item.invalid_raw
      simp only [reduceCtorEq, if_false, EntitySyncResult.handled] at hhandled
      -- the failure is counted when the record is queued
      refine ⟨hfetched, ?_, ?_⟩
      · simp [Session.enqueue, Session.count, Session.execute, ResultOp.apply,
          EntitySyncResult.handled, Exchange.isLost]
        omega
      · simp [Session.enqueue, Session.count, Session.execute, ResultOp.apply,
          List.countP_cons, Exchange.isQueued, hfailed, hinvalid, hqueued]

/-! ## The loop -/

variable [DecidableEq δ]

theorem SyncEngine.Passes.counted {parts : List (Part δ)}
    (hmapped : (engine.mapping.entry spec.name).isSome)
    (h : engine.Passes outside spec s parts s') :
    Counted spec (parts.map (·.raw)) (exchanges parts) s s' := by
  induction h with
  | nil s => exact ⟨rfl, rfl, rfl⟩
  | cons hbefore _ htreated _ ih =>
      subst hbefore
      have hpart := htreated.counted hmapped
      refine ⟨ih.fetched.trans hpart.fetched, ?_, ?_⟩
      · rw [ih.handled, hpart.handled]
        simp only [exchanges, List.map_cons, List.length_cons, List.countP_append,
          List.length_nil]
        omega
      · rw [ih.failed, hpart.failed]
        simp only [exchanges, List.map_cons, List.countP_cons, List.countP_append,
          List.countP_nil]
        omega

/-! ## A sync -/

omit [DecidableEq δ] in
theorem countP_opening {p : Exchange δ → Bool} {request : CollectionRequest}
    {outcomes : List TallyOutcome} (hfetched : ∀ outcome, p (.fetched request outcome) = false)
    (hcounted : ∀ op, p (.counted op) = false) :
    (opening spec request outcomes).countP p = 0 := by
  refine List.countP_eq_zero.mpr fun exchange hmem => ?_
  rcases List.mem_append.mp hmem with hmem | hmem
  · obtain ⟨outcome, -, rfl⟩ := List.mem_map.mp hmem
    simp [hfetched]
  · obtain rfl := List.mem_singleton.mp hmem
    simp [hcounted]

/-- Every record of a fetched response is counted exactly once, and `failed`
counts the dropped and the queued ones, if and only if no cache write raised
after Frappe had acknowledged the record. -/
theorem counted_once (hspec : spec ∈ engine.registry.specs)
    (hmapped : (engine.mapping.entry spec.name).isSome) {since : Option Int}
    {dateFrom dateTo : Option Date} {result : EntitySyncResult}
    (hrun : (engine.syncEntity spec since dateFrom dateTo).Runs outside.step s (.ok result) s')
    (hnew : s.After new s') {request : CollectionRequest} {outcome : TallyOutcome}
    (hfetched : Exchange.fetched request outcome ∈ new) {records : List Record}
    (hrecords : engine.recordsOf spec outcome = .ok records) :
    (result.fetched = records.length ∧
      result.fetched = result.created + result.updated + result.unchanged + result.failed ∧
      result.failed = records.countP spec.invalid + new.countP Exchange.isQueued) ↔
    ∀ exchange ∈ new, exchange.isLost = false := by
  cases (open_syncEntity hspec dateFrom dateTo).of_runs hrun with
  | written maxAlterId status s₁ h row hrow hstatus hfits =>
      -- the checkpoint is the last thing that is written
      obtain ⟨part, hpart⟩ := h.after
      have hfinish : new =
          .counted .read :: .executed (.upsertSyncState spec.name row) :: part :=
        hnew.unique (hpart.written spec.name row)
      rw [hfinish] at hfetched ⊢
      simp only [List.mem_cons, reduceCtorEq, false_or] at hfetched
      obtain ⟨-, outcomes, parts, hparts, rfl, hpasses⟩ :=
        h.of_fetched hpart hfetched hrecords
      have hcounted := hpasses.counted hmapped
      rw [hparts] at hcounted
      let request' := engine.collectionRequest spec since dateFrom dateTo
      have hlost : (opening spec request' outcomes : List (Exchange δ)).countP
          -- before the records nothing is lost and nothing is queued
          Exchange.isLost = 0 := countP_opening (fun _ => rfl) fun _ => rfl
      have hqueued : (opening spec request' outcomes : List (Exchange δ)).countP
          Exchange.isQueued = 0 := countP_opening (fun _ => rfl) fun _ => rfl
      have hlength : s₁.result.fetched = records.length := hcounted.fetched
      have hhandled : s₁.result.handled =
          records.length + (exchanges parts).countP Exchange.isLost := by
        simpa [Session.count, Session.fetch, ResultOp.apply, EntitySyncResult.handled]
          using hcounted.handled
      have hfailed : s₁.result.failed = records.countP spec.invalid +
          (exchanges parts).countP Exchange.isQueued := by
        simpa [Session.count, Session.fetch, ResultOp.apply] using hcounted.failed
      -- so the sum is that of the records and of what was lost
      have hnone : ∀ l : List (Exchange δ),
          (∀ exchange ∈ l, exchange.isLost = false) ↔ l.countP Exchange.isLost = 0 := by
        intro l
        simp [List.countP_eq_zero]
      rw [hnone]
      simp only [List.countP_cons, List.countP_append, Exchange.isLost, Exchange.isQueued,
        request', hlost, hqueued, Bool.false_eq_true, if_false, Nat.add_zero,
        hlength, hfailed, true_and, and_true]
      have hsum : s₁.result.created + s₁.result.updated + s₁.result.unchanged +
          s₁.result.failed = records.length + (exchanges parts).countP Exchange.isLost :=
        hhandled
      omega

/-! ## One group -/

/-- The sync of one group that is not known yet, up to the answer to the POST. -/
def createAssets (created : Json) : List Reply :=
  [.done, .tally (.response 200 (groupPage [assets])), .done,
    .done, .frappe (okOutcome (foundBody [])), .done, .frappe (okOutcome created)]

/-- Three groups, of which one is created, one is dropped and one is refused
and queued, are counted once each. -/
theorem counted_once_groups :
    let engine := groupEngine 1 [mixedGroups]
    ∃ result s', (engine.syncEntity group none none none).Runs Outside.reliableStore.step
        Session.fresh (.ok result) s' ∧
      result.created = 1 ∧ result.fetched = 3 ∧
      result.fetched = result.created + result.updated + result.unchanged + result.failed ∧
      result.failed = 2 := by
  intro engine
  have hplay : (play Outside.reliableExec mixedReplies
      (engine.syncEntity group none none none) Session.fresh).any (fun final =>
        final.1.toOption.any (fun result => result.created == 1) ∧
        final.2.history.any (Exchange.isFetch fun _ outcome =>
          outcome == .response 200 (groupPage mixedGroups)) ∧
        (final.2.history.all fun exchange => exchange.isLost == false) ∧
        final.2.history.countP Exchange.isQueued = 1) = true := by
    decide +kernel
  obtain ⟨⟨r, s'⟩, hrun, hfinal⟩ := (Option.any_eq_true _ _).mp hplay
  obtain ⟨hcreated, hfetched, hnone, hqueued⟩ := of_decide_eq_true hfinal
  cases r with
  | error exc => cases hcreated
  | ok result =>
      have hruns := runs_of_play Outside.step_of_reliableExec hrun
      rcases exists_fetched hfetched with ⟨request, outcome, hmem, houtcome⟩
      rw [eq_of_beq houtcome] at hmem
      have hrecords : engine.recordsOf group (.response 200 (groupPage mixedGroups)) =
          .ok [assets.raw, nameless.parsed, liabilities.raw] := by decide +kernel
      have hcounted := (counted_once List.mem_cons_self rfl hruns (List.append_nil _).symm hmem
        hrecords).mpr (fun exchange hmem => eq_of_beq (List.all_eq_true.mp hnone exchange hmem))
      obtain ⟨hlength, hsum, hfailed⟩ := hcounted
      rw [hqueued] at hfailed
      exact ⟨result, s', hruns, eq_of_beq hcreated, hlength, hsum, hfailed⟩

/-- Frappe acknowledges the POST with a null name: the name cannot be cached,
and the group is counted as created and as failed. -/
theorem counted_twice_groups :
    let engine := groupEngine 1 [[assets]]
    ∃ result s' request, (engine.syncEntity group none none none).Runs
        Outside.reliableStore.step Session.fresh (.ok result) s' ∧
      Exchange.fetched request (.response 200 (groupPage [assets])) ∈ s'.history ∧
      engine.recordsOf group (.response 200 (groupPage [assets])) = .ok [assets.raw] ∧
      result.fetched ≠ result.created + result.updated + result.unchanged + result.failed := by
  intro engine
  have hplay : (play Outside.reliableExec
      (createAssets (.obj [("data", .obj [("name", .null)])]) ++
        [.done, .clock 0, .done, .done, .clock 0, .clock 0, .done, .clock 0, .clock 0, .done,
          .done])
      (engine.syncEntity group none none none) Session.fresh).any (fun final =>
        final.1.toOption.any (fun result =>
          result == { entityName := "group", fetched := 1, created := 1, failed := 1 }) ∧
        final.2.history.any (Exchange.isFetch fun _ outcome =>
          outcome == .response 200 (groupPage [assets]))) = true := by
    decide +kernel
  obtain ⟨⟨r, s'⟩, hrun, hfinal⟩ := (Option.any_eq_true _ _).mp hplay
  obtain ⟨hreturned, hfetched⟩ := of_decide_eq_true hfinal
  cases r with
  | error exc => cases hreturned
  | ok result =>
      obtain rfl := eq_of_beq hreturned
      rcases exists_fetched hfetched with ⟨request, outcome, hmem, houtcome⟩
      rw [eq_of_beq houtcome] at hmem
      exact ⟨_, s', request, runs_of_play Outside.step_of_reliableExec hrun, hmem,
        by decide +kernel, by decide⟩

end TallyConnector
