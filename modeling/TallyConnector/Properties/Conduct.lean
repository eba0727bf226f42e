import TallyConnector.Models.SyncOrder
import TallyConnector.Sync.Costs
import TallyConnector.World.Groups

/-! # How an operation treats Tally and Frappe

Whatever the answers are and wherever a run is cut short: a cycle fetches an
entity only after everything it depends on, and writes only to the doctype of the
entity it has fetched last (`cycle_in_order`); and the number of requests is
bounded by the number of records there is something to do about
(`requests_bounded`).
-/

namespace TallyConnector

open Effects Prog

variable {δ : Type}

/-! ## Reading a trace -/

/-- A call with its answer. -/
abbrev Answered (δ : Type) := Σ e : Call δ, e.Resp

/-- The entities that were requested from Tally. -/
def fetchedNames (past : List (Answered δ)) : List String :=
  past.filterMap fun
    | ⟨.tally request, _⟩ => some request.entityName
    | _ => none

def isFrappe : Answered δ → Bool
  | ⟨.frappe _, _⟩ => true
  | _ => false

namespace SyncEngine

variable (engine : SyncEngine δ)

/-- How many records Tally's answer lists. -/
def listed (request : CollectionRequest) (outcome : TallyOutcome) : Nat :=
  match engine.registry.getEntity request.entityName, engine.tally.readOutcome outcome with
  | .ok spec, .ok content =>
      match parseCollectionResponse engine.ext.fromstring content spec with
      | .ok records => records.length
      | .error _ => 0
  | _, _ => 0

/-- How many records an answer gives the engine to push: those that Tally
lists, or the due rows of the queue. -/
def pushable : Answered δ → Nat
  | ⟨.tally request, outcome⟩ => engine.listed request outcome
  | ⟨.sql (.selectDue _ _), .ok (rows : List RetryRow)⟩ => rows.length
  | _ => 0

def work (past : List (Answered δ)) : Nat := (past.map engine.pushable).sum

/-- After this past, the latest first, the call comes in order: a fetch after
those of all dependencies, or again for the last entity, and never for an
earlier one; a request to Frappe for the last entity's doctype. -/
def Orderly (past : List (Answered δ)) : Call δ → Prop
  | .tally request =>
      (∃ spec ∈ engine.registry.specs, spec.name = request.entityName ∧
        ∀ dep ∈ spec.dependsOn, dep ∈ fetchedNames past) ∧
      (request.entityName ∈ fetchedNames past →
        (fetchedNames past).head? = some request.entityName)
  | .frappe request => ∃ name me, (fetchedNames past).head? = some name ∧
      engine.mapping.entry name = some me ∧ request.doctype = me.frappeDoctype
  | _ => True

/-- After this past the call does not go beyond the attempts there are for an
entity and, twice, for each record. -/
def Sparing (past : List (Answered δ)) : Call δ → Prop
  | .tally request => (fetchedNames past).count request.entityName < engine.settings.attempts
  | .frappe _ => past.countP isFrappe < 2 * engine.settings.attempts * engine.work past
  | _ => True

/-- So many requests to Frappe are left. -/
def Quota (n : Nat) (past : List (Answered δ)) : Prop :=
  past.countP isFrappe + n ≤ 2 * engine.settings.attempts * engine.work past

end SyncEngine

variable {engine : SyncEngine δ} {past : List (Answered δ)} {names : List String}
variable {rule : List (Answered δ) → Call δ → Prop} {spec : EntitySpec} {n : Nat}

theorem fetchedNames_local {e : Call δ} (h : e.Local) (r : e.Resp) :
    fetchedNames (⟨e, r⟩ :: past) = fetchedNames past := by
  cases e with
  | tally request => exact h.elim
  | frappe request => exact h.elim
  | _ => rfl

theorem SyncEngine.Quota.local {e : Call δ} (h : e.Local) (r : e.Resp)
    (hquota : engine.Quota n past) :
    engine.Quota n (⟨e, r⟩ :: past) := by
  have hcount : List.countP isFrappe ((⟨e, r⟩ : Answered δ) :: past) =
      past.countP isFrappe := by
    cases e with
    | frappe request => exact h.elim
    | _ => rfl
  unfold SyncEngine.Quota SyncEngine.work at hquota ⊢
  rw [hcount, List.map_cons, List.sum_cons, Nat.mul_add]
  exact hquota.trans (Nat.le_add_left _ _)

theorem SyncEngine.Quota.frappe {request : FrappeRequest} (outcome : HttpOutcome)
    (hquota : engine.Quota (n + 1) past) :
    engine.Quota n (⟨.frappe request, outcome⟩ :: past) := by
  have hcount : List.countP isFrappe ((⟨.frappe request, outcome⟩ : Answered δ) :: past) =
      past.countP isFrappe + 1 :=
    List.countP_cons_of_pos rfl
  unfold SyncEngine.Quota SyncEngine.work at hquota ⊢
  rw [hcount, List.map_cons, List.sum_cons, Nat.mul_add]
  omega

/-- What an answer lists may be pushed. -/
theorem SyncEngine.Quota.work (call : Answered δ) (hcall : isFrappe call = false)
    (hquota : engine.Quota 0 past) :
    engine.Quota (engine.pushable call * (2 * engine.settings.attempts)) (call :: past) := by
  unfold SyncEngine.Quota SyncEngine.work at hquota ⊢
  rw [List.countP_cons_of_neg (by simp [hcall]), List.map_cons, List.sum_cons, Nat.mul_add,
    Nat.mul_comm (engine.pushable call)]
  omega

/-! ## Syncing an entity -/

/-- The rule admits a sync of the entity once `names` were fetched. -/
structure Admits (engine : SyncEngine δ) (rule : List (Answered δ) → Call δ → Prop)
    (spec : EntitySpec) (names : List String) : Prop where
  stay : ∀ past (e : Call δ), e.Local → rule past e
  fetch : ∀ past request n, request.entityName = spec.name →
    fetchedNames past = List.replicate n spec.name ++ names → rule past (.tally request)
  send : ∀ past request n me, fetchedNames past = List.replicate (n + 1) spec.name ++ names →
    engine.mapping.entry spec.name = some me → request.doctype = me.frappeDoctype →
      rule past (.frappe request)

/-- Sparing, and by the rule. -/
abbrev SyncEngine.Both (engine : SyncEngine δ) (rule : List (Answered δ) → Call δ → Prop)
    (past : List (Answered δ)) (e : Call δ) : Prop :=
  engine.Sparing past e ∧ rule past e

theorem SyncEngine.sparing_local {e : Call δ} (h : e.Local) : engine.Sparing past e := by
  cases e with
  | tally request => exact h.elim
  | frappe request => exact h.elim
  | _ => trivial

/-- While the entity's records are pushed. -/
theorem Admits.meter (h : Admits engine rule spec names) (n : Nat) :
    Meter (engine.Both rule) (fun past e r => ⟨e, r⟩ :: past)
      (Call.Sends fun doctype => ∃ me, engine.mapping.entry spec.name = some me ∧
        doctype = me.frappeDoctype)
      Call.Local
      (fun k past => engine.Quota k past ∧
        fetchedNames past = List.replicate (n + 1) spec.name ++ names) where
  less hP := ⟨Nat.le_of_succ_le hP.1, hP.2⟩
  cost := by
    rintro k past e hsends ⟨hquota, hnames⟩
    cases e with
    | frappe request =>
      rcases hsends with ⟨me, hme, hdoctype⟩
      refine ⟨⟨?_, h.send past request n me hnames hme hdoctype⟩, fun outcome =>
        ⟨hquota.frappe outcome, hnames⟩⟩
      exact Nat.lt_of_lt_of_le (Nat.lt_add_of_pos_right (Nat.succ_pos k)) hquota
    | _ => exact hsends.elim
  free hlocal hP := ⟨⟨SyncEngine.sparing_local hlocal, h.stay _ _ hlocal⟩, fun r =>
    ⟨hP.1.local hlocal r, (fetchedNames_local hlocal r).trans hP.2⟩⟩

/-- What a fetch leaves behind. -/
structure Fetched (engine : SyncEngine δ) (spec : EntitySpec) (names : List String) (k : Nat)
    (past : List (Answered δ)) : Prop where
  names : ∃ n, fetchedNames past = List.replicate (n + 1) spec.name ++ names
  quota : engine.Quota k past

theorem listed_of_parse (hspec : spec ∈ engine.registry.specs) {request : CollectionRequest}
    (hname : request.entityName = spec.name) {outcome : TallyOutcome} {content : Bytes}
    (hread : engine.tally.readOutcome outcome = .ok content) {records : List Record}
    (hparse : parseCollectionResponse engine.ext.fromstring content spec = .ok records) :
    engine.listed request outcome = records.length := by
  unfold SyncEngine.listed
  rw [hname, engine.registry.getEntity_self hspec, hread]
  dsimp only
  rw [hparse]

/-- One attempt of a fetch, after `n` others. -/
theorem obeys_sendOnce (hadmits : Admits engine rule spec names)
    (hspec : spec ∈ engine.registry.specs) (hnew : spec.name ∉ names)
    {request : CollectionRequest} (hname : request.entityName = spec.name)
    (hn : n < engine.settings.attempts)
    (hnames : fetchedNames past = List.replicate n spec.name ++ names)
    (hquota : engine.Quota 0 past) :
    (engine.tally.sendOnce request).Heeds (engine.Both rule)
      (fun r past' => fetchedNames past' = List.replicate (n + 1) spec.name ++ names ∧
        engine.Quota 0 past' ∧ ∀ content, r = .ok content →
          ∀ records, parseCollectionResponse engine.ext.fromstring content spec = .ok records →
            engine.Quota (records.length * (2 * engine.settings.attempts)) past') past := by
  have hcount : (fetchedNames past).count request.entityName = n := by
    rw [hname, hnames, List.count_append, List.count_replicate_self, List.count_eq_zero.mpr hnew,
      Nat.add_zero]
  refine ⟨⟨?_, hadmits.fetch past request n hname hnames⟩, fun outcome => .ofExcept ?_⟩
  · change (fetchedNames past).count request.entityName < engine.settings.attempts
    rwa [hcount]
  · have hwork := SyncEngine.Quota.work ⟨.tally request, outcome⟩ rfl hquota
    refine ⟨?_, Nat.le_trans (Nat.add_le_add_left (Nat.zero_le _) _) hwork,
      fun content hcontent records hrecords => ?_⟩
    · change request.entityName :: fetchedNames past = _
      rw [hname, hnames, List.replicate_succ, List.cons_append]
    · rw [← listed_of_parse hspec hname hcontent hrecords]
      exact hwork

/-- The attempts of a fetch, `n` of which have failed. -/
theorem obeys_attempts (hadmits : Admits engine rule spec names)
    (hspec : spec ∈ engine.registry.specs) (hnew : spec.name ∉ names)
    {request : CollectionRequest} (hname : request.entityName = spec.name)
    {retryable : Exn → Bool} {extra : Nat} (hn : n + extra < engine.settings.attempts)
    (hnames : fetchedNames past = List.replicate n spec.name ++ names)
    (hquota : engine.Quota 0 past) :
    (retrying retryable extra (engine.tally.sendOnce request)).Heeds (engine.Both rule)
      (fun r past' => Fetched engine spec names 0 past' ∧ ∀ content, r = .ok content →
        ∀ records, parseCollectionResponse engine.ext.fromstring content spec = .ok records →
          engine.Quota (records.length * (2 * engine.settings.attempts)) past') past := by
  induction extra generalizing n past with
  | zero =>
    refine (obeys_sendOnce hadmits hspec hnew hname hn hnames hquota).mono ?_
    rintro r past' ⟨hnames', hquota', hrecords⟩
    exact ⟨⟨⟨n, hnames'⟩, hquota'⟩, hrecords⟩
  | succ extra ih =>
    refine .tryCatch ((obeys_sendOnce hadmits hspec hnew hname (by omega) hnames hquota).mono ?_)
    rintro r past' ⟨hnames', hquota', hrecords⟩
    cases r with
    | ok content => exact ⟨⟨⟨n, hnames'⟩, hquota'⟩, hrecords⟩
    | error exc =>
      dsimp only
      split
      · exact ih (by omega) hnames' hquota'
      · exact ⟨⟨⟨n, hnames'⟩, hquota'⟩, fun content hcontent => by cases hcontent⟩

theorem obeys_fetchRecords (hadmits : Admits engine rule spec names)
    (hspec : spec ∈ engine.registry.specs) (hnew : spec.name ∉ names)
    {request : CollectionRequest} (hname : request.entityName = spec.name)
    (hnames : fetchedNames past = names) (hquota : engine.Quota 0 past) :
    (engine.fetchRecords spec request).Heeds (engine.Both rule)
      (fun r past' => Fetched engine spec names 0 past' ∧ ∀ records, r = .ok (.ok records) →
        engine.Quota (records.length * (2 * engine.settings.attempts)) past') past := by
  refine .tryCatch (.bind ((obeys_attempts (n := 0) hadmits hspec hnew hname ?_ hnames
    hquota).mono ?_))
  · rw [Nat.zero_add]
    exact Nat.lt_succ_self _
  rintro r past' ⟨hfetched, hrecords⟩
  -- an exception is returned or raised: nothing was fetched
  have hcaught : ∀ exc : Exn, (if exc.isTallyConnectorError then pure (.error exc) else throw exc :
      Py δ (Except Exn (List Record))).Heeds (engine.Both rule)
        (fun r past' => Fetched engine spec names 0 past' ∧ ∀ records, r = .ok (.ok records) →
          engine.Quota (records.length * (2 * engine.settings.attempts)) past') past' := by
    intro exc
    split
    · exact ⟨hfetched, fun records h => by cases h⟩
    · exact ⟨hfetched, fun records h => by cases h⟩
  cases r with
  | error exc => exact hcaught exc
  | ok content =>
    refine .bind (.ofExcept ?_)
    cases hparse : parseCollectionResponse engine.ext.fromstring content spec with
    | error exc => exact hcaught exc
    | ok records =>
      refine ⟨hfetched, fun records' h => ?_⟩
      cases h
      exact hrecords content rfl records hparse

variable [DecidableEq δ]

/-- A sync of an entity, after those of `names`. -/
theorem obeys_syncEntity (hadmits : Admits engine rule spec names)
    (hspec : spec ∈ engine.registry.specs) (hnew : spec.name ∉ names) {since : Option Int}
    {dateFrom dateTo : Option Date} (hnames : fetchedNames past = names)
    (hquota : engine.Quota 0 past) :
    (engine.syncEntity spec since dateFrom dateTo).Heeds (engine.Both rule)
      (fun _ past' => Fetched engine spec names 0 past') past := by
  have hstays : ∀ {past : List (Answered δ)} {e : Call δ}, e.Local →
      engine.Both rule past e := fun hlocal =>
    ⟨SyncEngine.sparing_local hlocal, hadmits.stay _ _ hlocal⟩
  refine .bind ⟨hstays (e := .result (.new spec.name)) trivial, fun result => ?_⟩
  have hnames₀ : fetchedNames (⟨.result (.new spec.name), result⟩ :: past) = names := hnames
  refine .bind ((obeys_fetchRecords hadmits hspec hnew rfl hnames₀
    (hquota.local (e := .result (.new spec.name)) trivial result)).mono ?_)
  rintro r past' ⟨⟨⟨n, hnames'⟩, hquota'⟩, hrecords⟩
  -- what comes after the fetch, from a past that allows it `k` requests
  have hrest : ∀ {k : Nat} {p : Py δ EntitySyncResult},
      Requests (fun doctype => ∃ me, engine.mapping.entry spec.name = some me ∧
        doctype = me.frappeDoctype) k p → engine.Quota k past' →
          p.Heeds (engine.Both rule) (fun _ past' => Fetched engine spec names 0 past') past' := by
    intro k p hp hk
    refine (hp.obeys (hadmits.meter n) (m := 0) ⟨by rwa [Nat.zero_add], hnames'⟩).mono ?_
    rintro r past'' ⟨hquota'', hnames''⟩
    exact ⟨⟨n, hnames''⟩, hquota''⟩
  have hcheckpoint : ∀ lastAlterId status, (engine.store.updateLastSync spec.name lastAlterId
      status).All Call.Local := fun lastAlterId status =>
    (all_now _ (P := Call.Local) trivial).bind fun _ =>
      (all_now _ (P := Call.Local) trivial).bind fun _ => local_sql _
  cases r with
  | error exc => exact ⟨⟨n, hnames'⟩, hquota'⟩
  | ok fetched =>
    cases fetched with
    | error exc =>
      exact hrest (.of_all ((hcheckpoint _ _).bind fun _ => local_resultOp _)) hquota'
    | ok records =>
      refine hrest ?_ (hrecords records rfl)
      refine .after (local_resultOp _) fun _ => .before (requests_syncRecords ?_ records since)
        fun maxAlterId => (hcheckpoint _ _).bind fun _ => local_resultOp _
      exact fun me hme => ⟨me, hme, rfl⟩

/-! ## Cycles -/

omit [DecidableEq δ] in
/-- A cycle may sync an entity that is new, once all its dependencies are
fetched. -/
theorem admits_orderly (hspec : spec ∈ engine.registry.specs) (hnew : spec.name ∉ names)
    (hdeps : ∀ dep ∈ spec.dependsOn, dep ∈ names) :
    Admits engine engine.Orderly spec names where
  stay past e h := by
    cases e with
    | tally request => exact h.elim
    | frappe request => exact h.elim
    | _ => trivial
  fetch past request n hname hnames := by
    refine ⟨⟨spec, hspec, hname.symm, fun dep hdep => ?_⟩, fun hmem => ?_⟩
    · rw [hnames]
      exact List.mem_append_right _ (hdeps dep hdep)
    · rw [hnames, hname] at hmem ⊢
      cases n with
      | zero => exact absurd hmem hnew
      | succ n => rfl
  send past request n me hnames hme hdoctype :=
    ⟨spec.name, me, by rw [hnames]; rfl, hme, hdoctype⟩

theorem obeys_syncEntities {incremental : Bool} (done : List EntitySpec) {specs : List EntitySpec}
    (hspecs : ∀ spec ∈ done ++ specs, spec ∈ engine.registry.specs)
    (hnodup : ((done ++ specs).map (·.name)).Nodup) (horder : Registry.DepsFirst (done ++ specs))
    (hnames : ∀ name, name ∈ fetchedNames past ↔ name ∈ done.map (·.name))
    (hquota : engine.Quota 0 past) :
    (engine.syncEntities incremental specs).Heeds (engine.Both engine.Orderly)
      (fun _ past' => engine.Quota 0 past') past := by
  induction specs generalizing done past with
  | nil => exact hquota
  | cons spec specs ih =>
    have hspec : spec ∈ engine.registry.specs := hspecs spec (by simp)
    -- the entity has not been asked for before
    have hnew : ∀ {past : List (Answered δ)},
        (∀ name, name ∈ fetchedNames past ↔ name ∈ done.map (·.name)) →
          spec.name ∉ fetchedNames past := by
      intro past hnames hmem
      rw [List.map_append, List.nodup_append] at hnodup
      exact hnodup.2.2 _ ((hnames _).mp hmem) spec.name (by simp) rfl
    -- where to start from is read out of the store alone
    have hsince : (engine.sinceAlterId incremental spec).Heeds (engine.Both engine.Orderly)
        (fun _ past' => fetchedNames past' = fetchedNames past ∧ engine.Quota 0 past') past := by
      cases incremental with
      | false => exact ⟨rfl, hquota⟩
      | true =>
        refine .bind (.bind ⟨⟨trivial, trivial⟩, fun row => .ofExcept ?_⟩)
        have hstays : fetchedNames (⟨.sql (.selectSyncState spec.name), row⟩ :: past) =
            fetchedNames past ∧
              engine.Quota 0 (⟨.sql (.selectSyncState spec.name), row⟩ :: past) :=
          ⟨rfl, hquota.local (e := .sql (.selectSyncState spec.name)) trivial row⟩
        cases row with
        | ok row => exact hstays
        | error exc => exact hstays
    refine .bind (hsince.mono ?_)
    rintro r past₁ ⟨heq, hquota₁⟩
    cases r with
    | error exc => exact hquota₁
    | ok since =>
      have hnames₁ : ∀ name, name ∈ fetchedNames past₁ ↔ name ∈ done.map (·.name) := by
        rwa [heq]
      -- what the entity depends on comes earlier in the order
      have hdeps : ∀ dep ∈ spec.dependsOn, dep ∈ fetchedNames past₁ := fun dep hdep =>
        (hnames₁ dep).mpr (horder done spec specs rfl dep hdep)
      refine .bind ((obeys_syncEntity (admits_orderly hspec (hnew hnames₁) hdeps) hspec
        (hnew hnames₁) rfl hquota₁).mono ?_)
      rintro r past₂ ⟨⟨n, hnames₂⟩, hquota₂⟩
      cases r with
      | error exc => exact hquota₂
      | ok result =>
        -- the entity joins those that are done
        have hassoc : done ++ spec :: specs = (done ++ [spec]) ++ specs := by simp
        rw [hassoc] at hspecs hnodup horder
        refine .bind ((ih _ hspecs hnodup horder (fun name => ?_) hquota₂).mono ?_)
        · rw [hnames₂, List.mem_append, List.mem_replicate, hnames₁, List.map_append,
            List.mem_append, List.map_singleton, List.mem_singleton]
          simp only [ne_eq, Nat.succ_ne_zero, not_false_eq_true, true_and]
          exact Or.comm
        · intro r past₃ hquota₃
          cases r <;> exact hquota₃

omit [DecidableEq δ] in
theorem quota_nil : engine.Quota 0 ([] : List (Answered δ)) := Nat.zero_le _

theorem obeys_runCycle (incremental : Bool) :
    (engine.runCycle incremental).Heeds (engine.Both engine.Orderly)
      (fun _ past' => engine.Quota 0 past') [] := by
  refine .bind (.ofExcept ?_)
  cases horder : engine.registry.resolveSyncOrder with
  | error exc => exact quota_nil
  | ok order =>
    have hrounds := ((Registry.Rounds.init engine.registry).of_loops
      engine.registry.loops_resolveSyncOrder).1 order horder
    have hperm : order.Perm engine.registry.specs := by simpa using hrounds.perm
    refine obeys_syncEntities [] (fun spec hspec => hperm.subset hspec) ?_
      hrounds.depsFirst (fun name => Iff.rfl) quota_nil
    exact (hperm.map _).nodup_iff.mpr engine.registry.nodup

/-- However the calls of a cycle are answered and wherever it is cut short:
each call comes in order. -/
theorem cycle_in_order {incremental : Bool} {t : List (Answered δ)}
    (ht : (engine.runCycle incremental).Traces t) (n : Nat) (hn : n < t.length) :
    engine.Orderly (t.take n).reverse (t.get ⟨n, hn⟩).1 := by
  have hobeys := (obeys_runCycle incremental).traced ht n hn
  rw [List.append_nil] at hobeys
  exact hobeys.2

/-- Ledgers depend on groups and are fetched after them, though declared
before. -/
theorem cycle_in_order_groups :
    let ledger :=
    groupPydantic.master "ledger" "Ledger" ["Name", "Parent", "GUID", "AlterID"] ["group"]
    let engine : SyncEngine Dict :=
      { groupEngine 1 [[assets]] with
        registry := { specs := [ledger, group], nodup := by decide } }
    ∃ t : List (Answered Dict), (engine.runCycle false).Traces t ∧
      fetchedNames t = ["group", "ledger"] ∧ t.countP isFrappe = 2 ∧
        ∀ (n : Nat) (hn : n < t.length), engine.Orderly (t.take n).reverse (t.get ⟨n, hn⟩).1 := by
  intro ledger engine
  let answers : List Choice := [.inMemory, groupResponse [assets], .inMemory] ++
    [.commit, .serve "" [], .commit, .serve "GRP-1" [], .inMemory, .clock 0, .commit] ++
    [.clock 0, .clock 0, .commit, .inMemory] ++ [.inMemory, .tally .timeout]
  let t := (engine.runCycle false).record engine.exec answers
    (groupWorld (groupCompany [assets] 1))
  have ht : (engine.runCycle false).Traces t := traces_record _ _ _ _
  exact ⟨t, ht, by decide +kernel, by decide +kernel, cycle_in_order ht⟩

/-! ## How many requests an operation makes -/

/-- A drain, whose due rows are its work. -/
theorem obeys_processRetryQueue (limit : Int) :
    (engine.processRetryQueue limit).Heeds engine.Sparing (fun _ _ => True) [] := by
  have hdrain : ∀ (items : List RetryRow) {past : List (Answered δ)},
      engine.Quota (items.length * (2 * engine.settings.attempts)) past →
        (engine.drainItems items 0).Heeds engine.Sparing (fun _ _ => True) past := by
    intro items past hquota
    have hmeter : Meter engine.Sparing (fun past e r => ⟨e, r⟩ :: past)
        (Call.Sends fun _ => True) Call.Local engine.Quota :=
      { less := Nat.le_of_succ_le
        cost := by
          intro k past e hsends hquota
          cases e with
          | frappe request =>
            refine ⟨?_, fun outcome => hquota.frappe outcome⟩
            exact Nat.lt_of_lt_of_le (Nat.lt_add_of_pos_right (Nat.succ_pos k)) hquota
          | _ => exact hsends.elim
        free := fun hlocal hquota => ⟨SyncEngine.sparing_local hlocal, hquota.local hlocal⟩ }
    refine ((requests_drainItems items 0).obeys hmeter (m := 0) ?_).mono fun _ _ _ => trivial
    rwa [Nat.zero_add]
  refine .bind (.bind (.bind ⟨trivial, fun now => ?_⟩))
  refine ⟨trivial, fun due => .ofExcept ?_⟩
  cases due with
  | error exc => trivial
  | ok due =>
    refine hdrain due ?_
    exact SyncEngine.Quota.work ⟨.sql (.selectDue _ limit), .ok due⟩ rfl
      (quota_nil.local (e := .clock) trivial now)

theorem obeys_prog (op : Operation) :
    (engine.prog op).Heeds engine.Sparing (fun _ _ => True) [] := by
  have hdropped : ∀ {α : Type} {p : Py δ α} {Q : Except Exn α → List (Answered δ) → Prop},
      p.Heeds engine.Sparing Q [] →
        (do
          let _ ← p
          pure () : Py δ Unit).Heeds engine.Sparing (fun _ _ => True) [] := by
    intro α p Q h
    refine .bind (h.mono fun r past _ => ?_)
    cases r <;> trivial
  have hcycle : ∀ incremental, (engine.runCycle incremental).Heeds engine.Sparing
      (fun _ past' => engine.Quota 0 past') [] := fun incremental =>
    (obeys_runCycle incremental).weaken fun _ _ h => h.1
  cases op with
  | fullSync => exact hdropped (hcycle false)
  | incrementalSync => exact hdropped (hcycle true)
  | resyncEntity entityName dateFrom dateTo =>
    refine hdropped (Q := fun _ _ => True) (.bind (.ofExcept ?_))
    cases hget : engine.registry.getEntity entityName with
    | error exc => trivial
    | ok spec =>
      have hadmits : Admits engine (fun _ _ => True) spec [] :=
        ⟨fun _ _ _ => trivial, fun _ _ _ _ _ => trivial, fun _ _ _ _ _ _ _ => trivial⟩
      refine ((obeys_syncEntity hadmits (engine.registry.getEntity_ok hget).1
        List.not_mem_nil rfl quota_nil).weaken fun _ _ h => h.1).mono fun _ _ _ => trivial
  | processRetryQueue limit => exact hdropped (obeys_processRetryQueue limit)

omit [DecidableEq δ] in
theorem sparing_reverse {past : List (Answered δ)} {e : Call δ} :
    engine.Sparing past.reverse e ↔ engine.Sparing past e := by
  cases e with
  | tally request =>
    simp only [SyncEngine.Sparing, fetchedNames, List.filterMap_reverse, List.count_reverse]
  | frappe request =>
    simp only [SyncEngine.Sparing, SyncEngine.work, List.countP_reverse, List.map_reverse,
      List.sum_reverse]
  | _ => exact Iff.rfl

omit [DecidableEq δ] in
/-- What every call spares, the whole trace does not go beyond. -/
theorem bounded_of_sparing {t : List (Answered δ)}
    (h : ∀ (n : Nat) (hn : n < t.length), engine.Sparing (t.take n) (t.get ⟨n, hn⟩).1) :
    (∀ name, (fetchedNames t).count name ≤ engine.settings.attempts) ∧
      t.countP isFrappe ≤ 2 * engine.settings.attempts * engine.work t := by
  induction t using List.reverseRecOn with
  | nil => exact ⟨fun name => Nat.zero_le _, Nat.zero_le _⟩
  | append_singleton t call ih =>
    -- all calls but the last one
    obtain ⟨htally, hfrappe⟩ := ih fun n hn => by
      have hstep := h n (by simp only [List.length_append]; omega)
      rw [List.take_append_of_le_length (Nat.le_of_lt hn)] at hstep
      simpa [List.getElem_append_left hn] using hstep
    have hlast := h t.length (by simp)
    rw [List.take_left] at hlast
    simp only [List.get_eq_getElem, List.getElem_concat_length] at hlast
    have hwork : engine.work (t ++ [call]) = engine.work t + engine.pushable call := by
      simp [SyncEngine.work]
    have hnames : fetchedNames (t ++ [call]) = fetchedNames t ++ fetchedNames [call] :=
      List.filterMap_append
    rw [hwork, List.countP_append, Nat.mul_add, hnames]
    rcases call with ⟨e, r⟩
    cases e with
    | tally request =>
      -- a request to Tally counts for its own entity
      refine ⟨fun name => ?_, hfrappe.trans (Nat.le_add_right _ _)⟩
      rw [List.count_append]
      change _ + [request.entityName].count name ≤ _
      rw [List.count_singleton]
      split
      · next heq =>
        rw [beq_iff_eq] at heq
        exact heq ▸ hlast
      · exact htally name
    | frappe request =>
      -- the quota leaves room for one more request to Frappe
      refine ⟨fun name => ?_, Nat.le_trans ?_ (Nat.le_add_right _ _)⟩
      · exact (List.count_append ..).trans_le (htally name)
      · exact hlast
    | clock | sql stmt | result op =>
      -- no other call is counted
      exact ⟨fun name => (List.count_append ..).trans_le (htally name),
        hfrappe.trans (Nat.le_add_right _ _)⟩

/-- However the calls of an operation are answered and wherever it is cut
short: an entity is requested at most as often as there are attempts, and the
requests to Frappe are at most twice as many for each record to push. -/
theorem requests_bounded {op : Operation} {t : List (Answered δ)}
    (ht : (engine.prog op).Traces t) :
    (∀ name, (fetchedNames t).count name ≤ engine.settings.attempts) ∧
      t.countP isFrappe ≤ 2 * engine.settings.attempts * engine.work t := by
  refine bounded_of_sparing fun n hn => ?_
  have hobeys := (obeys_prog op).traced ht n hn
  rw [List.append_nil] at hobeys
  exact sparing_reverse.mp hobeys

/-- One group, with every first attempt lost: the bounds are reached. -/
theorem requests_bounded_groups :
    let engine := groupEngine 2 [[assets]]
    ∃ t : List (Answered Dict), (engine.prog .fullSync).Traces t ∧
      (∀ name, (fetchedNames t).count name ≤ 2) ∧ (fetchedNames t).count "group" = 2 ∧
        engine.work t = 1 ∧ t.countP isFrappe ≤ 4 ∧ t.countP isFrappe = 4 := by
  intro engine
  let lost : Choice := .refuse (.timeout "Read timed out.")
  let answers : List Choice := [.inMemory, .tally .timeout, groupResponse [assets], .inMemory] ++
    [.commit, lost, .serve "" [], .commit, lost, .serve "GRP-1" [], .inMemory, .clock 0, .commit]
  let t := (engine.prog .fullSync).record engine.exec answers
    (groupWorld (groupCompany [assets] 1))
  have ht : (engine.prog .fullSync).Traces t := traces_record _ _ _ _
  have hwork : engine.work t = 1 := by decide +kernel
  obtain ⟨hfetches, hrequests⟩ := requests_bounded ht
  rw [hwork] at hrequests
  exact ⟨t, ht, hfetches, by decide +kernel, hwork, hrequests, by decide +kernel⟩

end TallyConnector
