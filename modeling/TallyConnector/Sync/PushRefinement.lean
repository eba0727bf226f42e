import TallyConnector.Sync.Rules

/-! # A push refines the protocol

From `find_existing` up to `_push_record`: every call the code makes, whatever
the answer, is a step of `SyncEngine.Step`, and what a function establishes
for its caller is in its postcondition. `PushFrame` says what a push leaves
alone.
-/

namespace TallyConnector

open Effects Relation

variable {δ : Type} {engine : SyncEngine δ}
variable {ops : Operation → Prop} {allow : Assumed δ}

/-! ## find_existing -/

/-- What `find_existing` says about an item: the name in its cache row, or
nothing usable, and then no document is known to carry its key. -/
def Item.Looked (item : Item engine) (existing : Json) (w : World δ) : Prop :=
  (∃ row, w.db.syncCache item.cacheKey = some row ∧ existing = .str row.frappeName ∧
    existing.truthy = true) ∨
  (existing.truthy = false ∧ item.Unposted w)

theorem stable_source (item : Item engine) : Stable item.Source := fun _ _ h => h

theorem foundBody_data (docs : List Doc) :
    pyGet (foundBody docs) "data" (.list []) =
      .ok (.list (docs.map fun doc => .obj [("name", .str doc.name)])) := rfl

/-- What the GET of `find_existing` finds. -/
def Item.Answered (item : Item engine) (found : Json) (w : World δ) : Prop :=
  (found = .list [] ∧ item.Unposted w) ∨
    ∃ doc ∈ item.carriers w.docs, found.truthy = true ∧ firstName found = .ok (.str doc.name)

theorem Item.answered_of_order (item : Item engine) {w : World δ} {order : List Doc}
    (log : List Event) (horder : order.Perm (item.carriers w.docs)) :
    item.Answered (.list (order.map fun doc => .obj [("name", .str doc.name)]))
      { w with log := .polled item.doctype [(item.keyField, .str item.key)] :: log } := by
  cases order with
  | nil => exact .inl ⟨rfl, fun _ _ => horder.nil_eq.symm⟩
  | cons doc docs =>
      exact .inr ⟨doc, horder.mem_iff.mp List.mem_cons_self, rfl, rfl⟩

variable [DecidableEq δ]

theorem conforms_findExisting (item : Item engine) {w : World δ} (hw : item.Source w) :
    engine.Conforms ops allow
      (fun r w' => match r with
        | .ok existing => item.Source w' ∧ item.Looked existing w'
        | .error exc => exc.Transient)
      (findExisting engine.store engine.frappe item.me item.spec.naturalKeyField item.key)
      w := by
  have hkey : (⟨item.me.entityName, item.key, engine.frappe.baseUrl⟩ : CacheKey) =
      item.cacheKey := by
    rw [item.entityName_me]
    rfl
  unfold findExisting
  simp only [hkey]
  refine .bind (.bind (conforms_selectCache (stable_source item) hw (fun w hw => ?_)
    fun w exc _ hexc => hexc))
  simp only [Prog.pure_eq, Machine.safe_ret]
  split
  · next name hname =>
    -- a usable cached name
    obtain ⟨hcached, hne⟩ := Option.filter_eq_some_iff.mp hname
    obtain ⟨row, hrow, rfl⟩ := Option.map_eq_some_iff.mp hcached
    refine ⟨hw, .inl ⟨row, hrow, rfl, ?_⟩⟩
    simpa [Json.truthy] using hne
  · -- the GET
    refine .bind (.bind (conforms_request (stable_source item) hw
      (fun w c outcome w' hw _ he => ?_) fun w exc _ hexc => hexc))
    rcases exec_get he with ⟨hfails, rfl⟩ | ⟨order, horder, rfl, rfl⟩
    · obtain ⟨exc, hexc⟩ := readOutcome_of_fails hfails
      rw [hexc]
      exact ⟨.refl, hw⟩
    rw [readOutcome_okOutcome]
    refine ⟨.single (.poll _ _), ?_⟩
    simp only [foundBody_data, Prog.ofExcept_ok, Machine.safe_ret]
    rcases item.answered_of_order w.log horder with
      ⟨hfound, hunposted⟩ | ⟨doc, hdoc, htruthy, hfirst⟩
    · rw [hfound]
      exact ⟨hw, .inr ⟨rfl, hunposted⟩⟩
    · -- the first match is remembered
      rw [if_pos htruthy, hfirst]
      simp only [Prog.ofExcept_ok, Prog.ret_bind]
      refine .bind (conforms_upsertCache
        (P := fun w => item.Source w ∧ doc ∈ item.carriers w.docs)
        (fun _ _ h => h) ⟨hw, hdoc⟩ (fun w at' hw => ?_) fun w exc _ hexc => hexc)
      refine ⟨.remember item doc.name at' ⟨doc, hw.2, rfl⟩, hw.1, ?_⟩
      by_cases hname : doc.name = ""
      · refine .inr ⟨by simp [Json.truthy, hname], fun _ hnames => ?_⟩
        exact absurd hname (hnames doc (mem_carriers.mp hw.2).1)
      · refine .inl ⟨_, Function.update_self .., rfl, ?_⟩
        simpa [Json.truthy] using hname

/-! ## The create or update -/

theorem conforms_update (item : Item engine) {row : CacheRow δ} {w : World δ}
    (hname : (Json.str row.frappeName).truthy = true) (hw : item.Source w)
    (hrow : w.db.syncCache item.cacheKey = some row) :
    engine.Conforms ops allow
      (fun r w' => match r with
        | .ok _ => item.Source w' ∧ item.Stored row.frappeName w' ∧
            (item.push (.str row.frappeName)).Served w'
        | .error exc => exc.Transient)
      (engine.frappe.update item.me.frappeDoctype (.str row.frappeName) item.payload) w := by
  unfold FrappeClient.update
  rw [if_pos hname]
  refine .bind (conforms_request
    (P := fun w => item.Source w ∧ w.db.syncCache item.cacheKey = some row)
    (fun _ _ h => h) ⟨hw, hrow⟩ (fun w c outcome w' hw _ he => ?_) fun w exc _ hexc => hexc)
  rcases exec_put he with ⟨hfails, rfl⟩ | ⟨hdoc, rfl, hanswer⟩
  · -- not applied
    obtain ⟨exc, hexc⟩ := readOutcome_of_fails hfails
    rw [hexc]
    exact ⟨.refl, hw⟩
  refine ⟨.single (.put item row hw.1 hw.2 hdoc), ?_⟩
  rcases hanswer with hfails | rfl
  · -- applied, the answer lost
    obtain ⟨exc, hexc⟩ := readOutcome_of_fails hfails
    rw [hexc]
    exact hw
  · exact ⟨hw.1, exists_putDoc item.payload hdoc, _, rfl, .inr List.mem_cons_self⟩

theorem conforms_create (item : Item engine) {w : World δ} (hw : item.Source w)
    (hunposted : item.Unposted w) :
    engine.Conforms ops allow
      (fun r w' => match r with
        | .ok created => item.Source w' ∧ ∃ name, created = .obj [("name", .str name)] ∧
            item.Stored name w' ∧ (item.push (.str name)).Served w'
        | .error exc => exc.Transient)
      (engine.frappe.create item.me.frappeDoctype item.payload) w := by
  refine .bind (conforms_request (P := fun w => item.Source w ∧ item.Unposted w)
    (fun _ _ h => h) ⟨hw, hunposted⟩ (fun w c outcome w' hw ha he => ?_)
    fun w exc _ hexc => hexc)
  rcases exec_post he with ⟨hfails, rfl⟩ | ⟨name, hfresh, rfl, hanswer⟩
  · -- not applied
    obtain ⟨exc, hexc⟩ := readOutcome_of_fails hfails
    rw [hexc]
    exact ⟨.refl, hw⟩
  rcases hanswer with ⟨hfails, hchoice⟩ | ⟨rfl, hchoice⟩
  · -- applied, the answer lost: from here on nothing was polled since a POST
    refine ⟨.single (.post item name c hw.1 hfresh hw.2 (.inl hchoice) ha), ?_⟩
    obtain ⟨exc, hexc⟩ := readOutcome_of_fails hfails
    rw [hexc]
    exact ⟨hw.1, fun hpolled => by cases hpolled⟩
  · refine ⟨.single (.post item name c hw.1 hfresh hw.2 (.inr hchoice) ha), ?_⟩
    exact ⟨hw.1, name, rfl, ⟨_, List.mem_cons_self, rfl, rfl, Doc.holds_self _ _ _⟩,
      _, rfl, .inl List.mem_cons_self⟩

omit [DecidableEq δ] in
/-- The history records an acknowledged push. -/
theorem steps_ack (item : Item engine) {name : String} {op : ResultOp} {w : World δ}
    (hw : item.Source w) (hserved : (item.push (.str name)).Served w)
    (hop : op = .created (item.push (.str name)) ∨ op = .updated (item.push (.str name)))
    (ha : allow (.result op) .inMemory w) :
    ReflTransGen (engine.Step ops allow) w (w.applyResult op) := by
  have hack : ReflTransGen (engine.Step ops allow) w
      { w with pushes := item.push (.str name) :: w.pushes } :=
    .single (.ack item (.str name) op hw hop hserved ha)
  rcases hop with rfl | rfl
  · exact hack.tail (.count _)
  · exact hack.tail (.count _)

theorem conforms_sendRecord (item : Item engine) {existing : Json} {w : World δ}
    (hw : item.Source w) (hlooked : item.Looked existing w) :
    engine.Conforms ops allow
      (fun r w' => match r with
        | .ok frappeName => ∃ name, frappeName = .str name ∧
            item.push (.str name) ∈ w'.pushes ∧ item.Stored name w'
        | .error exc => exc.Transient)
      (engine.sendRecord item.me item.key item.push item.payload existing) w := by
  unfold SyncEngine.sendRecord
  rcases hlooked with ⟨row, hrow, rfl, htruthy⟩ | ⟨hfalsy, hunposted⟩
  · -- the row names the document: it is updated
    rw [if_pos htruthy]
    refine .bind ((conforms_update item htruthy hw hrow).mono fun r w' hr => ?_)
    cases r with
    | error exc => exact hr
    | ok _ =>
        refine .bind (conforms_resultOp
          (P := fun w => item.Source w ∧ item.Stored row.frappeName w ∧
            (item.push (.str row.frappeName)).Served w)
          (fun _ _ h => h) hr fun w hw ha => ?_)
        exact ⟨steps_ack item hw.1 hw.2.2 (.inr rfl) ha,
          row.frappeName, rfl, List.mem_cons_self, hw.2.1⟩
  · -- none was found: one is created
    rw [if_neg (by simp [hfalsy])]
    refine .bind ((conforms_create item hw hunposted).mono fun r w' hr => ?_)
    cases r with
    | error exc => exact hr
    | ok created =>
        obtain ⟨hsource, name, rfl, hstored, hserved⟩ := hr
        refine .bind (.ofExcept (.bind (conforms_resultOp
          (P := fun w => item.Source w ∧ item.Stored name w ∧ (item.push (.str name)).Served w)
          (fun _ _ h => h) ⟨hsource, hstored, hserved⟩ fun w hw ha => ?_)))
        exact ⟨steps_ack item hw.1 hw.2.2 (.inl rfl) ha, name, rfl, List.mem_cons_self, hw.2.1⟩

/-! ## _push_record -/

theorem conforms_pushRecord (item : Item engine) {w : World δ} (hw : item.Source w) :
    engine.Conforms ops allow
      (fun r w' => match r with
        | .ok _ => item.Delivered w'
        | .error exc => exc.Transient)
      (engine.pushRecord item.spec item.me item.model) w := by
  unfold SyncEngine.pushRecord
  rw [item.hkey]
  refine .bind ((conforms_findExisting item hw).mono fun r w' hr => ?_)
  cases r with
  | error exc => exact hr
  | ok existing =>
      refine .bind (conforms_selectCache
        (P := fun w => item.Source w ∧ item.Looked existing w) (fun _ _ h => h) hr
        (fun w hw => ?_) fun w exc _ hexc => hexc)
      dsimp only
      split
      · next hskip =>
        -- the cached hash matches
        rw [Bool.and_eq_true] at hskip
        obtain ⟨htruthy, hany⟩ := hskip
        rcases hw.2 with ⟨row, hrow, rfl, -⟩ | ⟨hfalsy, -⟩
        · have hhash : row.contentHash = some item.contentHash := by
            change Option.any _ (w.db.syncCache item.cacheKey) = true at hany
            simpa [hrow, Item.contentHash, Item.payload] using hany
          refine .bind (conforms_resultOp (P := fun w => w.db.syncCache item.cacheKey = some row)
            (fun _ _ h => h) hrow fun w hrow ha => ?_)
          refine ⟨(ReflTransGen.single (.skip item row hrow hhash ha)).tail (.count _), ?_⟩
          exact .inr ⟨_, w.docs, List.mem_cons_self⟩
        · rw [hfalsy] at htruthy
          cases htruthy
      · refine .bind ((conforms_sendRecord item hw.1 hw.2).mono fun r w' hr => ?_)
        cases r with
        | error exc => exact hr
        | ok frappeName =>
            obtain ⟨name, rfl, hack, hstored⟩ := hr
            refine conforms_upsertCache
              (P := fun w => item.push (.str name) ∈ w.pushes ∧ item.Stored name w)
              (fun _ _ h => h) ⟨hack, hstored⟩ (fun w at' hw => ?_) fun w exc _ hexc => hexc
            exact ⟨.save item name at' hw.1 hw.2, .inl ⟨_, hw.1⟩⟩

/-- A record without a usable key is refused before any call. -/
theorem SyncEngine.pushRecord_of_none (engine : SyncEngine δ) {spec : EntitySpec}
    (me : MappingEntry) {model : Model}
    (h : model.usableKey spec = none) :
    ∃ text, engine.pushRecord spec me model = raise .tallyDataError text := by
  unfold SyncEngine.pushRecord
  rw [h]
  exact ⟨_, rfl⟩

/-! ## What a push leaves alone -/

/-- The queue, the checkpoints and the fetch stay; the history only grows. -/
structure PushFrame (w w' : World δ) : Prop where
  retryQueue : w'.db.retryQueue = w.db.retryQueue
  syncState : w'.db.syncState = w.db.syncState
  fetched : w'.fetched = w.fetched
  pushes : w.pushes ⊆ w'.pushes
  log : w.log ⊆ w'.log

omit [DecidableEq δ] in
theorem PushFrame.refl (w : World δ) : PushFrame w w :=
  ⟨rfl, rfl, rfl, fun _ h => h, fun _ h => h⟩

omit [DecidableEq δ] in
theorem PushFrame.trans {w w' w'' : World δ} (h : PushFrame w w') (h' : PushFrame w' w'') :
    PushFrame w w'' where
  retryQueue := h'.retryQueue.trans h.retryQueue
  syncState := h'.syncState.trans h.syncState
  fetched := h'.fetched.trans h.fetched
  pushes := fun _ hp => h'.pushes (h.pushes hp)
  log := fun _ he => h'.log (h.log he)

omit [DecidableEq δ] in
theorem pushFrame_applyResult (w : World δ) (op : ResultOp) : PushFrame w (w.applyResult op) := by
  cases op <;>
    exact ⟨rfl, rfl, rfl, by simp [World.applyResult], by simp [World.applyResult]⟩

omit [DecidableEq δ] in
theorem pushFrame_serve {w w' : World δ} {request : FrappeRequest} {name : String}
    {order : List Doc} {outcome : HttpOutcome}
    (h : w.serve name order request = some (outcome, w')) : PushFrame w w' := by
  unfold World.serve at h
  split at h
  · split at h <;> cases h
    exact ⟨rfl, rfl, rfl, by simp, by simp⟩
  · split at h <;> cases h
    exact ⟨rfl, rfl, rfl, by simp [World.post], by simp [World.post]⟩
  · split at h <;> cases h
    · exact ⟨rfl, rfl, rfl, by simp [World.put], by simp [World.put]⟩
    · exact .refl w
  · cases h
    exact .refl w

omit [DecidableEq δ] in
theorem pushFrame_lose {w w' : World δ} {request : FrappeRequest} {name : String}
    (h : w.lose name request = some w') : PushFrame w w' := by
  unfold World.lose at h
  split at h
  · cases h
  · split at h <;> cases h
    exact ⟨rfl, rfl, rfl, by simp [World.post], by simp [World.post]⟩
  · split at h <;> cases h
    exact ⟨rfl, rfl, rfl, by simp [World.put], by simp [World.put]⟩
  · cases h

omit [DecidableEq δ] in
theorem pushFrame_exec {baseUrl : String} {e : Call δ} {c : Choice} {w w' : World δ}
    {r : Call.Resp e} (he : e.IsPush baseUrl) (h : engine.exec e c w = some (r, w')) :
    PushFrame w w' := by
  cases e with
  | clock =>
      cases c <;> cases h
      exact .refl w
  | tally request => exact he.elim
  | frappe request =>
      change engine.execFrappe request w c = some (r, w') at h
      unfold SyncEngine.execFrappe at h
      split at h
      · -- no request reached the site
        split at h <;> cases h
        exact .refl w
      · split at h
        · -- the request was served, and the answer lost
          obtain ⟨w₁, hlose, heq⟩ := Option.map_eq_some_iff.mp h
          cases heq
          exact pushFrame_lose hlose
        · cases h
      · exact pushFrame_serve h
      · cases h
  | sql stmt =>
      rcases exec_sql h with ⟨result, db, hexec, rfl, rfl⟩ | ⟨exc, _, rfl, rfl⟩
      · -- a push writes to the cache alone
        cases stmt with
        | selectCache key =>
            cases hexec
            exact .refl w
        | upsertCache key frappeName frappeDoctype contentHash lastPushedAt =>
            simp only [DB.exec] at hexec
            split at hexec <;> cases hexec
            exact ⟨rfl, rfl, rfl, by simp [World.commit], by simp [World.commit]⟩
        | _ => exact he.elim
      · exact .refl w'
  | result op =>
      cases c <;> cases h
      exact pushFrame_applyResult w op

/-- The push of an item, with its frame. -/
theorem conforms_pushRecord_frame (item : Item engine) {w : World δ} (hw : item.Source w) :
    engine.Conforms ops allow
      (fun r w' => (match r with
        | .ok _ => item.Delivered w'
        | .error exc => exc.Transient) ∧ PushFrame w w')
      (engine.pushRecord item.spec item.me item.model) w := by
  refine (conforms_pushRecord item hw).frame (F := PushFrame) ?_
    (fun _ _ _ _ _ he h hF => hF.trans (pushFrame_exec he h))
    (engine.all_pushRecord _ _ _) (.refl w)
  rintro w₁ w₂ hedit hF
  obtain ⟨company, rfl⟩ := edits_setTally (.single hedit)
  exact ⟨hF.retryQueue, hF.syncState, hF.fetched, hF.pushes, hF.log⟩

end TallyConnector
