import TallyConnector.Properties.Uninterrupted

/-! # A second pass

What the first pass pushed is cached with its name and its hash, and the
records between leave that row alone, so that the second pass over the same
response sends nothing for it.
-/

namespace TallyConnector

open Effects Prog

variable {δ : Type} {engine : SyncEngine δ} {outside : Outside δ} {spec : EntitySpec}
variable {s s' s₁ s₂ : Session δ} {new : List (Exchange δ)}

/-! ## Documents have names -/

/-- If the answer is a document, its name is not empty. -/
def HttpOutcome.named : HttpOutcome → Bool
  | .response r =>
      match r.body with
      | .json (.obj body) =>
          match body.lookup "data" with
          | some (.obj doc) => (doc.lookup "name").all Json.truthy
          | _ => true
      | _ => true
  | _ => true

namespace Outside

/-- Frappe names its documents, and the database works. -/
def naming : Outside δ := { reliableStore with frappe := fun _ outcome => outcome.named = true }

def namingExec (e : Call δ) (reply : Reply) (s : Session δ) : Option (Call.Resp e × Session δ) :=
  match reply with
  | .fault _ => none
  | .frappe outcome => if outcome.named then Session.exec e (.frappe outcome) s else none
  | reply => Session.exec e reply s

theorem step_of_namingExec (e : Call δ) (reply : Reply) (s : Session δ) (r : Call.Resp e)
    (s' : Session δ) (h : namingExec e reply s = some (r, s')) : naming.step e s r s' := by
  cases reply with
  | fault exc => cases h
  | clock now => exact ⟨_, by cases e <;> trivial, h⟩
  | tally outcome => exact ⟨_, by cases e <;> trivial, h⟩
  | frappe outcome =>
      simp only [namingExec] at h
      split at h
      · next hnamed =>
        refine ⟨_, ?_, h⟩
        cases e <;> first | exact hnamed | trivial
      · cases h
  | done => exact ⟨_, by cases e <;> trivial, h⟩

end Outside

theorem pyGet_ok {value default result : Json} {key : String}
    (h : pyGet value key default = .ok result) :
    ∃ kvs, value = .obj kvs ∧ result = (kvs.lookup key).getD default := by
  cases value <;> cases h
  exact ⟨_, rfl, rfl⟩

theorem readOutcome_ok {client : FrappeClient δ} {outcome : HttpOutcome} {value : Json}
    (h : client.readOutcome outcome = .ok value) :
    ∃ r, outcome = .response r ∧ (r.body = .json value ∨ value = .obj []) := by
  cases outcome with
  | timeout text => cases h
  | connectionError text => cases h
  | requestException text => cases h
  | response r =>
      simp only [FrappeClient.readOutcome, FrappeClient.readResponse] at h
      split at h
      · cases h
      · split at h
        · cases h
        · split at h
          · exact absurd h FrappeClient.raise_text_ne_ok
          · split at h
            · cases h
              exact ⟨r, rfl, .inr rfl⟩
            · cases h
              exact ⟨r, rfl, .inl ‹_›⟩
            · cases h
            · exact absurd h FrappeClient.raise_text_ne_ok

theorem Item.key_ne_empty (item : Item engine) : item.key ≠ "" :=
  (Model.usableKey_eq_some.mp item.hkey).2

/-- Then the name a push caches is truthy. -/
theorem Item.Names.truthy {item : Item engine} {name : Json}
    (h : item.Names Outside.naming name) : name.truthy = true := by
  rcases h with h | ⟨value, created, ⟨outcome, hnamed, hread⟩, hdata, hname⟩
  · exact h
  · obtain ⟨body, rfl, rfl⟩ := pyGet_ok hdata
    obtain ⟨doc, hdoc, rfl⟩ := pyGet_ok hname
    cases hlookup : doc.lookup "name" with
    -- an answer without name: the key stands for it
    | none => exact Json.truthy_str.mpr item.key_ne_empty
    | some name =>
        -- the name is what Frappe answered
        obtain ⟨r, rfl, hbody | hempty⟩ := readOutcome_ok hread
        · have hdata' : body.lookup "data" = some (.obj doc) := by
            cases hdata' : body.lookup "data" with
            | none =>
                rw [hdata'] at hdoc
                cases hdoc
                cases hlookup
            | some data =>
                rw [hdata'] at hdoc
                cases hdoc
                rfl
          have hall : (HttpOutcome.response r).named = true := hnamed
          simpa [HttpOutcome.named, hbody, hdata', hlookup] using hall
        · -- an empty body has no name
          cases hempty
          cases hdoc
          cases hlookup

/-! ## One push -/

theorem Item.Pushed.cached {item : Item engine}
    (h : item.Pushed Outside.naming s new (.ok ()) s') : item.Cached s' := by
  cases h with
  | unchanged row hrow hname hhash => exact ⟨row, hrow, hname, hhash⟩
  | saved looks s₁ op name bound lastPushedAt hlooks _ hname hbound _ =>
      exact ⟨_, Function.update_self .., bound_ne_empty hname.truthy hbound, rfl⟩

/-- A cached payload is counted as unchanged, and nothing else happens. -/
theorem Item.Pushed.of_cached {item : Item engine} {r : Except Exn Unit}
    (h : item.Pushed Outside.naming s new r s') (hcached : item.Cached s) :
    ∃ name, r = .ok () ∧ s'.db = s.db ∧
      new = [.counted (.unchanged (item.push (.str name))),
        .executed (.selectCache item.cacheKey), .executed (.selectCache item.cacheKey)] := by
  cases h with
  | unchanged row _ _ _ => exact ⟨row.frappeName, rfl, rfl, rfl⟩
  | saved _ _ _ _ _ _ _ _ _ _ hnot => exact absurd hcached hnot
  | failed _ _ _ _ _ hfault =>
      obtain ⟨_, _, hfault⟩ := hfault hcached
      exact hfault.elim
  | lost _ _ _ _ _ _ _ _ _ hnot => exact absurd hcached hnot

/-! ## Cached records -/

theorem Item.cached_congr {item : Item engine}
    (h : engine.cachedRow item.spec s' item.key = engine.cachedRow item.spec s item.key) :
    item.Cached s' ↔ item.Cached s := by
  have hrow : s'.db.syncCache item.cacheKey = s.db.syncCache item.cacheKey := h
  unfold Item.Cached
  rw [hrow]

/-! ## What a record came to -/

/-- A bump of a push counter. -/
def Exchange.isPushed : Exchange δ → Bool
  | .counted (.created _) => true
  | .counted (.updated _) => true
  | .counted (.unchanged _) => true
  | _ => false

def Exchange.isFailed : Exchange δ → Bool
  | .counted .failed => true
  | _ => false

/-- The record was counted as pushed, and not as failed. -/
def SucceededIn (new : List (Exchange δ)) : Prop :=
  (∃ exchange ∈ new, exchange.isPushed = true) ∧
    ∀ exchange ∈ new, exchange.isFailed = false

def FailedIn (new : List (Exchange δ)) : Prop := ∃ exchange ∈ new, exchange.isFailed = true

/-- Frappe was asked something for the record. -/
def ContactsIn (new : List (Exchange δ)) : Prop :=
  ∃ exchange ∈ new, exchange.isRequest = true

section treated

variable {raw : Record}

/-- A record that succeeded was pushed. -/
theorem SyncEngine.Treated.of_succeeded
    (h : engine.Treated outside spec raw s new (.ok ()) s') (hsucceeded : SucceededIn new) :
    ∃ item : Item engine, item.spec = spec ∧ item.raw = raw ∧
      item.Pushed outside s new (.ok ()) s' := by
  obtain ⟨⟨exchange, hmem, hpushed⟩, hnone⟩ := hsucceeded
  cases h with
  | dropped _ => cases hnone _ List.mem_cons_self
  | unmapped _ _ _ => cases hmem
  | pushed item hspec hraw h => exact ⟨item, hspec, hraw, h⟩
  | queued item _ _ _ guid _ nextAttemptAt createdAt =>
      cases hnone _ (List.mem_cons_of_mem _ List.mem_cons_self)

/-- Frappe is only asked for a record that can be pushed. -/
theorem SyncEngine.Treated.of_contacts {r : Except Exn Unit}
    (h : engine.Treated outside spec raw s new r s') (hcontacts : ContactsIn new) :
    ∃ item : Item engine, item.spec = spec ∧ item.raw = raw := by
  obtain ⟨exchange, hmem, hrequest⟩ := hcontacts
  cases h with
  | dropped _ =>
      obtain rfl := List.mem_singleton.mp hmem
      cases hrequest
  | unmapped _ _ _ => cases hmem
  | pushed item hspec hraw _ => exact ⟨item, hspec, hraw⟩
  | queued item hspec hraw _ guid _ nextAttemptAt createdAt => exact ⟨item, hspec, hraw⟩
  | aborted item hspec hraw _ stmt exc' _ => exact ⟨item, hspec, hraw⟩

/-- A record that can be pushed fails, or is cached afterwards. -/
theorem SyncEngine.Treated.failed_or_cached {item : Item engine}
    (h : engine.Treated Outside.naming item.spec item.raw s new (.ok ()) s') :
    FailedIn new ∨ item.Cached s' := by
  cases h with
  | dropped _ => exact .inl ⟨_, List.mem_cons_self, rfl⟩
  | unmapped _ _ hme =>
      rw [item.hme] at hme
      cases hme
  | pushed item' hspec hraw h =>
      obtain rfl := Item.eq_of_raw hspec hraw
      exact .inr h.cached
  | queued _ _ _ _ guid _ nextAttemptAt createdAt =>
      exact .inl ⟨_, List.mem_cons_of_mem _ List.mem_cons_self, rfl⟩

/-- The treatment of a cached record is a single count as unchanged. -/
theorem SyncEngine.Treated.of_cached {item : Item engine} {r : Except Exn Unit}
    (h : engine.Treated Outside.naming item.spec item.raw s new r s') (hcached : item.Cached s) :
    ∃ name, s'.db = s.db ∧ new = [.counted (.unchanged (item.push (.str name))),
      .executed (.selectCache item.cacheKey), .executed (.selectCache item.cacheKey)] := by
  cases h with
  | dropped hdrops => exact absurd hdrops item.not_drops
  | unmapped _ _ hme =>
      rw [item.hme] at hme
      cases hme
  | pushed item' hspec hraw h =>
      obtain rfl := Item.eq_of_raw hspec hraw
      obtain ⟨name, -, hdb, hnew⟩ := h.of_cached hcached
      exact ⟨name, hdb, hnew⟩
  | queued item' hspec hraw h guid _ nextAttemptAt createdAt =>
      obtain rfl := Item.eq_of_raw hspec hraw
      obtain ⟨name, hr, -⟩ := h.of_cached hcached
      cases hr
  | aborted item' hspec hraw h stmt exc' _ =>
      obtain rfl := Item.eq_of_raw hspec hraw
      obtain ⟨name, hr, -⟩ := h.of_cached hcached
      cases hr

end treated

/-! ## One pass -/

variable [DecidableEq δ]

/-- The records of a sync, each with its part of the exchanges. Frappe is asked
nothing outside of these parts. -/
structure SyncEngine.Treats (engine : SyncEngine δ) (outside : Outside δ) (spec : EntitySpec)
    (records : List Record) (s : Session δ) (new : List (Exchange δ)) (s' : Session δ)
    (parts : List (Part δ)) : Prop where
  raws : parts.map (·.raw) = records
  passes : ∃ start stop, engine.Passes outside spec start parts stop ∧ start.db = s.db ∧
    stop.db.syncCache = s'.db.syncCache
  new : ∃ before after, new = after ++ (exchanges parts ++ before) ∧
    ∀ exchange ∈ after ++ before, exchange.isRequest = false

section pass

variable {since : Option Int} {request request' : CollectionRequest} {outcome : TallyOutcome}
variable {records : List Record} {r : Except Exn EntitySyncResult}

theorem SyncEngine.Synced.treats (h : engine.Synced outside spec since request s r s')
    (hworks : ∀ stmt exc, ¬ outside.fault stmt exc) (hkey : spec.TextKey)
    (hnew : s.After new s') (hmem : Exchange.fetched request' outcome ∈ new)
    (hrecords : engine.recordsOf spec outcome = .ok records) :
    ∃ parts, engine.Treats outside spec records s new s' parts := by
  obtain ⟨before, parts, after, hraws, hsplit, hquiet, hpasses, hstart, hstop⟩ :=
    h.passes hworks hkey hnew hmem hrecords
  exact ⟨parts, hraws, ⟨_, _, hpasses, hstart, hstop⟩, ⟨before, after, hsplit,
    fun exchange hmem => Exchange.isRequest_of_not_handles (hquiet exchange hmem)⟩⟩

end pass

/-! ## Two passes -/

/-- What the second pass does for a record, beside what the first one did. -/
structure SyncEngine.Rerun (engine : SyncEngine δ) (spec : EntitySpec) (s₁ s₂ : Session δ)
    (first second : Part δ) : Prop where
  raw : second.raw = first.raw
  /-- A record that succeeded is counted as unchanged, and Frappe is left alone. -/
  unchanged : SucceededIn first.new → ¬ ContactsIn second.new ∧
    ∃ push, second.new.filter (fun exchange => exchange.isPushed || exchange.isFailed) =
      [.counted (.unchanged push)]
  cachedRow : SucceededIn first.new → ∀ key, spec.keyOf first.raw = some key →
    engine.cachedRow spec s₂ key = engine.cachedRow spec s₁ key
  contacts : ContactsIn second.new → FailedIn first.new

omit [DecidableEq δ] in
theorem raw_eq_of_zip {parts parts' : List (Part δ)}
    (h : parts.map (·.raw) = parts'.map (·.raw)) {first second : Part δ}
    (hmem : (first, second) ∈ parts.zip parts') :
    first ∈ parts ∧ second ∈ parts' ∧ second.raw = first.raw := by
  refine ⟨(List.of_mem_zip hmem).1, (List.of_mem_zip hmem).2, ?_⟩
  induction parts generalizing parts' with
  | nil => cases hmem
  | cons head parts ih =>
      cases parts' with
      | nil => cases hmem
      | cons head' parts' =>
          obtain ⟨hhead, hrest⟩ := List.cons.inj h
          rcases List.mem_cons.mp hmem with heq | hmem
          · cases heq
            exact hhead.symm
          · exact ih hrest hmem

/-- The second pass over two aligned parts. -/
theorem SyncEngine.Treats.rerun {records : List Record} {parts parts' : List (Part δ)}
    {new' : List (Exchange δ)}
    (hfirst : engine.Treats Outside.naming spec records s new s₁ parts)
    (hsecond : engine.Treats Outside.naming spec records s₁ new' s₂ parts')
    (hdistinct : (records.filterMap spec.keyOf).Nodup) {first second : Part δ}
    (hmem : (first, second) ∈ parts.zip parts') : engine.Rerun spec s₁ s₂ first second := by
  obtain ⟨hmem₁, hmem₂, hraw⟩ := raw_eq_of_zip (hfirst.raws.trans hsecond.raws.symm) hmem
  obtain ⟨start, stop, hpasses, -, hstop⟩ := hfirst.passes
  obtain ⟨start', stop', hpasses', hstart', hstop'⟩ := hsecond.passes
  have htreated := hpasses.treated first hmem₁
  have htreated' := hpasses'.treated second hmem₂
  -- the row of the record from the first part to the second one, and to the end
  have hrows : ∀ key, spec.keyOf first.raw = some key →
      engine.cachedRow spec second.before key = engine.cachedRow spec first.after key ∧
      engine.cachedRow spec second.before key = engine.cachedRow spec s₁ key ∧
      engine.cachedRow spec s₂ key = engine.cachedRow spec second.after key := by
    intro key hkey
    obtain ⟨-, hend⟩ := hpasses.cachedRow_part (hfirst.raws ▸ hdistinct) first hmem₁ key hkey
    obtain ⟨hbegin, hend'⟩ := hpasses'.cachedRow_part (hsecond.raws ▸ hdistinct) second hmem₂ key
      (hraw ▸ hkey)
    have hbetween : engine.cachedRow spec start' key = engine.cachedRow spec s₁ key := by
      unfold SyncEngine.cachedRow
      rw [hstart']
    have hstop₁ : engine.cachedRow spec stop key = engine.cachedRow spec s₁ key := by
      unfold SyncEngine.cachedRow
      rw [hstop]
    have hstop₂ : engine.cachedRow spec stop' key = engine.cachedRow spec s₂ key := by
      unfold SyncEngine.cachedRow
      rw [hstop']
    refine ⟨?_, hbegin.trans hbetween, hstop₂.symm.trans hend'⟩
    rw [hbegin, hbetween, ← hstop₁, hend]
  -- what is cached after the first part is all the second part looks at
  have hquiet : ∀ item : Item engine, item.spec = spec → item.raw = first.raw →
      item.Cached first.after → ∃ name, second.after.db = second.before.db ∧
        second.new = [.counted (.unchanged (item.push (.str name))),
          .executed (.selectCache item.cacheKey), .executed (.selectCache item.cacheKey)] := by
    rintro item rfl hitem hcached
    rw [hraw, ← hitem] at htreated'
    have hrow := (hrows item.key (hitem ▸ item.keyOf_raw)).1
    exact htreated'.of_cached ((Item.cached_congr hrow).mpr hcached)
  have hcachedOf : SucceededIn first.new → ∃ item : Item engine, item.spec = spec ∧
      item.raw = first.raw ∧ item.Cached first.after := by
    intro hsucceeded
    obtain ⟨item, hspec, hitem, hpushed⟩ := htreated.of_succeeded hsucceeded
    exact ⟨item, hspec, hitem, hpushed.cached⟩
  -- a record that is found unchanged makes no request
  have hnoRequest : ∀ (item : Item engine) (name : String), second.new =
      [.counted (.unchanged (item.push (.str name))), .executed (.selectCache item.cacheKey),
        .executed (.selectCache item.cacheKey)] → ¬ ContactsIn second.new := by
    rintro item name hnew ⟨exchange, hmem, hrequest⟩
    rw [hnew] at hmem
    simp only [List.mem_cons, List.not_mem_nil, or_false] at hmem
    rcases hmem with rfl | rfl | rfl <;> cases hrequest
  refine ⟨hraw, fun hsucceeded => ?_, fun hsucceeded key hkey => ?_, fun hcontacts => ?_⟩
  · -- pushed in the first pass, so unchanged in the second
    obtain ⟨item, hspec, hitem, hcached⟩ := hcachedOf hsucceeded
    obtain ⟨name, -, hnew⟩ := hquiet item hspec hitem hcached
    exact ⟨hnoRequest item name hnew, item.push (.str name), by rw [hnew]; rfl⟩
  · -- and its row stays
    obtain ⟨item, hspec, hitem, hcached⟩ := hcachedOf hsucceeded
    obtain ⟨name, hdb, -⟩ := hquiet item hspec hitem hcached
    obtain ⟨-, hbegin, hend⟩ := hrows key hkey
    rw [hend, ← hbegin]
    unfold SyncEngine.cachedRow
    rw [hdb]
  · -- asked for in the second pass: then it failed in the first
    obtain ⟨item, rfl, hitem⟩ := htreated'.of_contacts hcontacts
    rw [hraw] at hitem
    have htreated₁ := htreated
    rw [← hitem] at htreated₁
    rcases htreated₁.failed_or_cached with hfailed | hcached
    · exact hfailed
    · obtain ⟨name, -, hnew⟩ := hquiet item rfl hitem hcached
      exact absurd hcontacts (hnoRequest item name hnew)

/-- A second pass over a response with distinct keys counts what the first pass
has pushed as unchanged, without asking Frappe and leaving its cache rows as
they are, and it asks Frappe only for records that failed. -/
theorem rerun_noop (hspec : spec ∈ engine.registry.specs) (hkey : spec.TextKey)
    {since since' : Option Int} {dateFrom dateTo dateFrom' dateTo' : Option Date}
    {r r' : Except Exn EntitySyncResult} {new' : List (Exchange δ)}
    (hfirst : (engine.syncEntity spec since dateFrom dateTo).Runs Outside.naming.step s r s₁)
    (hnew : s.After new s₁)
    (hsecond : (engine.syncEntity spec since' dateFrom' dateTo').Runs Outside.naming.step
      s₁ r' s₂)
    (hnew' : s₁.After new' s₂) {request request' : CollectionRequest} {outcome : TallyOutcome}
    (hfetched : Exchange.fetched request outcome ∈ new)
    (hfetched' : Exchange.fetched request' outcome ∈ new') {records : List Record}
    (hrecords : engine.recordsOf spec outcome = .ok records)
    (hdistinct : (records.filterMap spec.keyOf).Nodup) :
    ∃ parts parts', engine.Treats Outside.naming spec records s new s₁ parts ∧
      engine.Treats Outside.naming spec records s₁ new' s₂ parts' ∧
      ∀ first second, (first, second) ∈ parts.zip parts' →
        engine.Rerun spec s₁ s₂ first second := by
  obtain ⟨parts, hparts⟩ := SyncEngine.Synced.treats
    ((open_syncEntity hspec dateFrom dateTo).of_runs hfirst) (fun _ _ => id) hkey hnew hfetched
    hrecords
  obtain ⟨parts', hparts'⟩ := SyncEngine.Synced.treats
    ((open_syncEntity hspec dateFrom' dateTo').of_runs hsecond) (fun _ _ => id) hkey hnew'
    hfetched' hrecords
  exact ⟨parts, parts', hparts, hparts', fun first second hmem =>
    hparts.rerun hparts' hdistinct hmem⟩

/-! ## Two groups -/

/-- The group list was fetched. -/
def isGroupPage (groups : List Group) : Exchange Dict → Bool
  | .fetched _ outcome => outcome == .response 200 (groupPage groups)
  | _ => false

/-- The first pass creates one group, and Frappe refuses the other; the second
pass finds the first one unchanged and creates the other. -/
theorem rerun_noop_groups :
    let engine := groupEngine 1 [[assets, liabilities]]
    ∃ r r' s₁ s₂, (engine.syncEntity group none none none).Runs Outside.naming.step
        Session.fresh r s₁ ∧
      (engine.syncEntity group none none none).Runs Outside.naming.step s₁ r' s₂ ∧
      s₁.result.failed = 1 ∧ s₂.result.unchanged = 1 ∧ s₂.result.created = 1 ∧
      ∃ new' parts parts', engine.Treats Outside.naming group [assets.raw, liabilities.raw]
          Session.fresh s₁.history s₁ parts ∧
        engine.Treats Outside.naming group [assets.raw, liabilities.raw] s₁ new' s₂ parts' ∧
        ∀ first second, (first, second) ∈ parts.zip parts' →
          engine.Rerun group s₁ s₂ first second := by
  intro engine
  let prog := engine.syncEntity group none none none
  have hplay : ((play Outside.namingExec
      [.done, .tally (.response 200 (groupPage [assets, liabilities])), .done,
        .done, .frappe (okOutcome (foundBody [])), .done, .frappe (okOutcome (savedBody "GRP-1")),
        .done, .clock 0, .done,
        .done, .frappe (.response { status := 403, body := .empty }), .done, .clock 0, .clock 0,
        .done, .clock 0, .clock 0, .done, .done] prog Session.fresh).any fun first =>
      first.2.result.failed = 1 ∧ first.2.history.countP (isGroupPage [assets, liabilities]) = 1 ∧
      (play Outside.namingExec
        [.done, .tally (.response 200 (groupPage [assets, liabilities])), .done,
          .done, .done, .done,
          .done, .frappe (okOutcome (foundBody [])), .done,
          .frappe (okOutcome (savedBody "GRP-2")), .done, .clock 0, .done, .clock 0, .clock 0,
          .done, .done] prog first.2).any fun second =>
        second.2.result.unchanged = 1 ∧ second.2.result.created = 1 ∧
        second.2.history.countP (isGroupPage [assets, liabilities]) = 2) = true := by
    decide +kernel
  obtain ⟨⟨r, s₁⟩, hrun, hfirst⟩ := (Option.any_eq_true _ _).mp hplay
  obtain ⟨hfailed, hpage, hplay'⟩ := of_decide_eq_true hfirst
  obtain ⟨⟨r', s₂⟩, hrun', hsecond⟩ := (Option.any_eq_true _ _).mp hplay'
  obtain ⟨hunchanged, hcreated, hpage'⟩ := of_decide_eq_true hsecond
  have hruns := runs_of_play Outside.step_of_namingExec hrun
  have hruns' := runs_of_play Outside.step_of_namingExec hrun'
  have hfetched : ∀ l : List (Exchange Dict), 0 < l.countP (isGroupPage [assets, liabilities]) →
      ∃ request, .fetched request (.response 200 (groupPage [assets, liabilities])) ∈ l := by
    intro l hpos
    obtain ⟨exchange, hmem, hexchange⟩ := List.countP_pos_iff.mp hpos
    unfold isGroupPage at hexchange
    split at hexchange
    · next request outcome =>
      obtain rfl := eq_of_beq hexchange
      exact ⟨request, hmem⟩
    · cases hexchange
  obtain ⟨new', hnew'⟩ := SyncEngine.Synced.after
    ((open_syncEntity List.mem_cons_self none none).of_runs hruns')
  have hcount : 0 < new'.countP (isGroupPage [assets, liabilities]) := by
    have hsum : s₂.history.countP (isGroupPage [assets, liabilities]) =
        new'.countP (isGroupPage [assets, liabilities]) +
          s₁.history.countP (isGroupPage [assets, liabilities]) := by
      rw [← List.countP_append]
      exact congrArg _ hnew'
    have hone : s₁.history.countP (isGroupPage [assets, liabilities]) = 1 := hpage
    have htwo : s₂.history.countP (isGroupPage [assets, liabilities]) = 2 := hpage'
    omega
  obtain ⟨request, hmem⟩ := hfetched s₁.history (by rw [hpage]; decide)
  obtain ⟨request', hmem'⟩ := hfetched new' hcount
  have hrecords : engine.recordsOf group (.response 200 (groupPage [assets, liabilities])) =
      .ok [assets.raw, liabilities.raw] := by decide +kernel
  obtain ⟨parts, parts', hparts⟩ := rerun_noop List.mem_cons_self (by decide) hruns
    (List.append_nil _).symm hruns' hnew' hmem hmem' hrecords (by decide +kernel)
  exact ⟨r, r', s₁, s₂, hruns, hruns', hfailed, hunchanged, hcreated, new', parts, parts', hparts⟩

end TallyConnector
