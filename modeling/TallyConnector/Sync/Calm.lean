import TallyConnector.Effects.Always
import TallyConnector.Sync.Rules

/-! # Runs in which nothing fails

Frappe answers every request, every statement is committed, no process
crashes, and Tally's company stays as it is while an operation runs; only a
fetch may fail. Under these conditions the code can be read off call by call,
up to what a push and the sync of an entity do to the world.
-/

namespace TallyConnector

open Effects Prog

variable {δ : Type} {α : Type}

namespace SyncEngine

variable (engine : SyncEngine δ)

/-- Frappe and the database did what they were asked. -/
def Succeeds : (e : Call δ) → Call.Resp e → Prop
  | .frappe _, outcome => engine.fails outcome = false
  | .sql _, r => ∃ result, r = .ok result
  | _, _ => True

/-- The calls of a run in which nothing fails, as far as `allow` allows them. -/
def calm (allow : Assumed δ) : Answering (@Call.Resp δ) (World δ) :=
  fun e w r w' => (∃ c, allow e c w ∧ engine.exec e c w = some (r, w')) ∧ engine.Succeeds e r

/-- `Succeeds`, decided. -/
def checkSucceeds : (e : Call δ) → Call.Resp e → Bool
  | .frappe _, outcome => !engine.fails outcome
  | .sql _, r => r.toOption.isSome
  | _, _ => true

theorem succeeds_of_check {e : Call δ} {r : Call.Resp e} (h : engine.checkSucceeds e r = true) :
    engine.Succeeds e r := by
  cases e with
  | frappe request => simpa [checkSucceeds, Succeeds] using h
  | sql stmt =>
      change Except.toOption r |>.isSome at h
      cases r with
      | ok result => exact ⟨result, rfl⟩
      | error exc => simp [Except.toOption] at h
  | _ => trivial

/-- A call answered as the choice says, if the check passes and nothing fails. -/
def calmIf (check : Call δ → Choice → World δ → Bool) (e : Call δ) (c : Choice) (w : World δ) :
    Option (Call.Resp e × World δ) :=
  if check e c w then
    (engine.exec e c w).filter fun answer => engine.checkSucceeds e answer.1
  else none

theorem calm_of_calmIf {allow : Assumed δ} {check : Call δ → Choice → World δ → Bool}
    (hallow : ∀ e c w, check e c w = true → allow e c w) (e : Call δ) (c : Choice) (w : World δ)
    (r : Call.Resp e) (w' : World δ) (h : engine.calmIf check e c w = some (r, w')) :
    engine.calm allow e w r w' := by
  unfold calmIf at h
  split at h
  · next hcheck =>
    obtain ⟨hexec, hsucceeds⟩ := Option.filter_eq_some_iff.mp h
    exact ⟨⟨c, hallow e c w hcheck, hexec⟩, engine.succeeds_of_check hsucceeds⟩
  · cases h

/-- A call answered as the choice says, if Tally's answer is a snapshot and
nothing fails. -/
def calmExec (e : Call δ) (c : Choice) (w : World δ) : Option (Call.Resp e × World δ) :=
  if engine.checkSnapshots e c w then
    (engine.exec e c w).filter fun answer => engine.checkSucceeds e answer.1
  else none

theorem calm_of_calmExec (e : Call δ) (c : Choice) (w : World δ) (r : Call.Resp e)
    (w' : World δ) (h : engine.calmExec e c w = some (r, w')) :
    engine.calm engine.snapshots e w r w' :=
  engine.calm_of_calmIf engine.snapshots_of_check e c w r w' h

end SyncEngine

namespace World

/-- A GET was answered. -/
def poll (w : World δ) (doctype : String) (filters : List (String × Json)) : World δ :=
  { w with log := .polled doctype filters :: w.log }

/-- A collection request was answered. -/
def fetch (w : World δ) (request : CollectionRequest) (outcome : TallyOutcome) : World δ :=
  { w with fetched := some { request, outcome, company := w.tally } }

/-- The result object is another one. -/
def setResult (w : World δ) (result : EntitySyncResult) : World δ := { w with result := result }

end World

variable {engine : SyncEngine δ} {allow : Assumed δ} {w : World δ}

/-! ## Calls -/

theorem calm_clock {Q : Except Exn Int → World δ → Prop} (h : ∀ now, Q (.ok now) w) :
    (clock : Py δ Int).Always (engine.calm allow) Q w := by
  rintro now w' ⟨⟨c, -, he⟩, -⟩
  cases c <;> cases he
  exact h _

theorem calm_now {store : StateStore δ} {Q : Except Exn String → World δ → Prop}
    (h : ∀ now, Q (.ok now) w) : store.now.Always (engine.calm allow) Q w :=
  .bind (calm_clock fun _ => h _)

theorem calm_resultOp {op : ResultOp} {Q : Except Exn EntitySyncResult → World δ → Prop}
    (h : Q (.ok (w.applyResult op).result) (w.applyResult op)) :
    (resultOp op : Py δ _).Always (engine.calm allow) Q w := by
  rintro result w' ⟨⟨c, -, he⟩, -⟩
  cases c <;> cases he
  exact h

/-- A committed statement. -/
theorem calm_sql {stmt : Stmt δ} {Q : Except Exn stmt.Result → World δ → Prop}
    (h : ∀ result db, allow (.sql stmt) .commit w → w.db.exec stmt = .ok (result, db) →
      Q (.ok result) (w.commit stmt db)) :
    (sql stmt).Always (engine.calm allow) Q w := by
  refine .bind ?_
  rintro r w' ⟨⟨c, ha, he⟩, result, rfl⟩
  change SyncEngine.execSql stmt w c = some (_, w') at he
  cases c with
  | commit =>
      simp only [SyncEngine.execSql] at he
      split at he
      · next hexec =>
        cases he
        exact h _ _ ha hexec
      · cases he
  | abort text => cases he
  | _ => cases he

theorem calm_selectCache {key : CacheKey} {Q : Except Exn (Option (CacheRow δ)) → World δ → Prop}
    (h : allow (.sql (.selectCache key)) .commit w → Q (.ok (w.db.syncCache key)) w) :
    (sql (.selectCache key)).Always (engine.calm allow) Q w := by
  refine calm_sql fun result db ha hexec => ?_
  cases hexec
  exact h ha

theorem calm_upsertCache {store : StateStore δ} {key : CacheKey} {name doctype : String}
    {hash : Option δ} {Q : Except Exn Unit → World δ → Prop}
    (h : ∀ lastPushedAt, Q (.ok ()) (w.setCache key ⟨name, doctype, hash, lastPushedAt⟩)) :
    (store.upsertCache key (.str name) doctype hash).Always (engine.calm allow) Q w := by
  refine .bind (calm_now fun lastPushedAt => calm_sql fun result db _ hexec => ?_)
  cases hexec
  exact h _

theorem calm_updateLastSync {store : StateStore δ} {entityName status : String}
    {lastAlterId : Option Int} {Q : Except Exn Unit → World δ → Prop}
    (h : ∀ row : SyncStateRow, row.lastAlterId = lastAlterId → row.status = status →
      Q (.ok ()) (w.checkpoint entityName row)) :
    (store.updateLastSync entityName lastAlterId status).Always (engine.calm allow) Q w := by
  refine .bind (calm_now fun lastSyncedAt => .bind (calm_now fun updatedAt => ?_))
  refine calm_sql fun result db _ hexec => ?_
  simp only [DB.exec] at hexec
  split at hexec <;> cases hexec
  exact h _ rfl rfl

/-! ## Requests -/

theorem calm_retrying {Q : Except Exn α → World δ → Prop} {retryable : Exn → Bool} {extra : Nat}
    {p : Py δ α} (h : p.Always (engine.calm allow) (fun r w' => (∃ a, r = .ok a) ∧ Q r w') w) :
    (retrying retryable extra p).Always (engine.calm allow) Q w := by
  cases extra with
  | zero => exact h.mono fun _ _ hr => hr.2
  | succ extra =>
      refine .tryCatch (h.mono fun r w' hr => ?_)
      obtain ⟨⟨a, rfl⟩, hQ⟩ := hr
      exact hQ

/-- A request is answered at the first attempt. -/
theorem calm_request {request : FrappeRequest} {Q : Except Exn Json → World δ → Prop}
    (h : ∀ c outcome value w', engine.exec (.frappe request) c w = some (outcome, w') →
      engine.frappe.readOutcome outcome = .ok value → Q (.ok value) w') :
    (engine.frappe.request request).Always (engine.calm allow) Q w := by
  refine .tryCatch (calm_retrying (.bind ?_))
  rintro outcome w' ⟨⟨c, -, he⟩, hsucceeds⟩
  change engine.fails outcome = false at hsucceeds
  unfold SyncEngine.fails at hsucceeds
  cases hread : engine.frappe.readOutcome outcome with
  | error exc => simp [hread, Except.toOption] at hsucceeds
  | ok value =>
      change ((Prog.ofExcept (engine.frappe.readOutcome outcome)).Always _ _ w')
      rw [hread]
      exact ⟨⟨value, rfl⟩, h c outcome value w' he hread⟩

theorem not_fails_of_read {outcome : HttpOutcome} {value : Json}
    (h : engine.frappe.readOutcome outcome = .ok value) : ¬ engine.fails outcome = true := by
  simp [SyncEngine.fails, h, Except.toOption]

/-- A GET is answered with the matches in some order. -/
theorem calm_get {doctype : String} {filters : List (String × Json)} {fields : List String}
    {Q : Except Exn Json → World δ → Prop}
    (h : ∀ order : List Doc, order.Perm (matching w.docs doctype filters) →
      Q (.ok (.list (order.map fun doc => .obj [("name", .str doc.name)])))
        (w.poll doctype filters)) :
    (engine.frappe.get doctype filters fields).Always (engine.calm allow) Q w := by
  refine .bind (calm_request fun c outcome value w' he hread => ?_)
  rcases exec_get he with ⟨hfails, -⟩ | ⟨order, horder, rfl, rfl⟩
  · exact absurd hfails (not_fails_of_read hread)
  · cases hread
    exact h order horder

theorem calm_create {doctype : String} {payload : Dict} {Q : Except Exn Json → World δ → Prop}
    (h : ∀ name, FreshName w.docs doctype name →
      Q (.ok (.obj [("name", .str name)])) (w.post doctype name payload)) :
    (engine.frappe.create doctype payload).Always (engine.calm allow) Q w := by
  refine .bind (calm_request fun c outcome value w' he hread => ?_)
  rcases exec_post he with ⟨hfails, -⟩ | ⟨name, hfresh, rfl, ⟨hfails, -⟩ | ⟨rfl, -⟩⟩
  · exact absurd hfails (not_fails_of_read hread)
  · exact absurd hfails (not_fails_of_read hread)
  · cases hread
    exact h name hfresh

theorem calm_update {doctype name : String} {payload : Dict}
    {Q : Except Exn Json → World δ → Prop} (hname : name ≠ "")
    (h : hasDoc w.docs doctype name = true →
      Q (.ok (.obj [("name", .str name)])) (w.put doctype name payload)) :
    (engine.frappe.update doctype (.str name) payload).Always (engine.calm allow) Q w := by
  unfold FrappeClient.update
  rw [if_pos (Json.truthy_str.mpr hname)]
  refine .bind (calm_request fun c outcome value w' he hread => ?_)
  rcases exec_put he with ⟨hfails, -⟩ | ⟨hdoc, rfl, hfails | rfl⟩
  · exact absurd hfails (not_fails_of_read hread)
  · exact absurd hfails (not_fails_of_read hread)
  · cases hread
    exact h hdoc

/-! ## A push -/

/-- A cache row without a usable name is as good as none. -/
def Unusable (row : Option (CacheRow δ)) : Prop := ∀ r, row = some r → r.frappeName = ""

namespace Item

variable (item : Item engine)

/-- The payload was sent and acknowledged under a name, and cached. -/
structure Saved (name : String) (w w' : World δ) : Prop where
  db : ∃ lastPushedAt, w'.db = (w.setCache item.cacheKey
    ⟨name, item.doctype, some item.contentHash, lastPushedAt⟩).db
  tally : w'.tally = w.tally
  fetched : w'.fetched = w.fetched
  pushes : w'.pushes = item.push (.str name) :: w.pushes
  skips : ∀ push docs, Event.skipped push docs ∈ w'.log ↔ Event.skipped push docs ∈ w.log

/-- What a push does to the world when nothing fails. -/
inductive Effect (allow : Assumed δ) (item : Item engine) (w : World δ) : World δ → Prop
  /-- The cached hash is the payload's. -/
  | skip (row : CacheRow δ) (hallow : allow (.sql (.selectCache item.cacheKey)) .commit w)
      (hrow : w.db.syncCache item.cacheKey = some row) (hname : row.frappeName ≠ "")
      (hhash : row.contentHash = some item.contentHash) :
      Effect allow item w (w.applyResult (.unchanged (item.push (.str row.frappeName))))
  /-- A known document is overwritten. -/
  | update (name : String) (w' : World δ) (hsaved : item.Saved name w w')
      (hname : name ≠ "")
      (hknown : (∃ row, w.db.syncCache item.cacheKey = some row ∧ row.frappeName = name) ∨
        Unusable (w.db.syncCache item.cacheKey) ∧ ∃ doc ∈ item.carriers w.docs, doc.name = name)
      (hdoc : hasDoc w.docs item.doctype name = true)
      (hdocs : w'.docs = putDoc w.docs item.doctype name item.payload) :
      Effect allow item w w'
  /-- A new document is created. -/
  | create (name : String) (w' : World δ) (hsaved : item.Saved name w w')
      (hunknown : Unusable (w.db.syncCache item.cacheKey))
      (hfresh : FreshName w.docs item.doctype name)
      (hdocs : w'.docs = postDoc w.docs item.doctype name item.payload) :
      Effect allow item w w'

end Item

theorem Item.Effect.tally {item : Item engine} {w' : World δ}
    (h : item.Effect allow w w') :
    w'.tally = w.tally := by
  cases h with
  | skip row _ _ _ _ => rfl
  | update name _ hsaved _ _ _ _ => exact hsaved.tally
  | create name _ hsaved _ _ _ => exact hsaved.tally

theorem Item.Effect.syncState {item : Item engine} {w' : World δ}
    (h : item.Effect allow w w') :
    w'.db.syncState = w.db.syncState := by
  have hsaved : ∀ {name : String}, item.Saved name w w' → w'.db.syncState = w.db.syncState := by
    intro name hsaved
    obtain ⟨lastPushedAt, hdb⟩ := hsaved.db
    rw [hdb]
    rfl
  cases h with
  | skip row _ _ _ _ => rfl
  | update name _ h _ _ _ _ => exact hsaved h
  | create name _ h _ _ _ => exact hsaved h

theorem Item.Effect.retryQueue {item : Item engine} {w' : World δ}
    (h : item.Effect allow w w') : w'.db.retryQueue = w.db.retryQueue := by
  have hsaved : ∀ {name : String}, item.Saved name w w' → w'.db.retryQueue = w.db.retryQueue := by
    intro name hsaved
    obtain ⟨lastPushedAt, hdb⟩ := hsaved.db
    rw [hdb]
    rfl
  cases h with
  | skip row _ _ _ _ => rfl
  | update name _ h _ _ _ _ => exact hsaved h
  | create name _ h _ _ _ => exact hsaved h

/-- A push that nothing fails in delivers its record. -/
theorem Item.Effect.delivered {item : Item engine} {w' : World δ}
    (h : item.Effect allow w w') : item.Delivered w' := by
  cases h with
  | skip row _ _ _ _ => exact .inr ⟨_, w.docs, List.mem_cons_self⟩
  | update name _ h _ _ _ _ => exact .inl ⟨_, h.pushes ▸ List.mem_cons_self⟩
  | create name _ h _ _ _ => exact .inl ⟨_, h.pushes ▸ List.mem_cons_self⟩

/-- Records with other keys are not delivered by it. -/
theorem Item.Effect.delivered_iff {item item' : Item engine} {w' : World δ}
    (h : item.Effect allow w w')
    (hother : item'.spec.name = item.spec.name → item'.key ≠ item.key) :
    item'.Delivered w' ↔ item'.Delivered w := by
  have hne : ∀ name name', item'.push name ≠ item.push name' := by
    intro name name' heq
    have hfields := (Push.mk.injEq ..).mp heq
    exact hother hfields.1 hfields.2.1
  have hsaved : ∀ {name : String}, item.Saved name w w' →
      (item'.Delivered w' ↔ item'.Delivered w) := by
    intro name hsaved
    simp [Item.Delivered, hsaved.pushes, hsaved.skips, hne]
  cases h with
  | skip row _ _ _ _ => simp [Item.Delivered, World.applyResult, hne]
  | update name _ h _ _ _ _ => exact hsaved h
  | create name _ h _ _ _ => exact hsaved h

/-- What `find_existing` does to the world when nothing fails. -/
theorem calm_findExisting (item : Item engine) {Q : Except Exn Json → World δ → Prop}
    (hcached : ∀ row, w.db.syncCache item.cacheKey = some row → row.frappeName ≠ "" →
      allow (.sql (.selectCache item.cacheKey)) .commit w → Q (.ok (.str row.frappeName)) w)
    (hnone : Unusable (w.db.syncCache item.cacheKey) → item.carriers w.docs = [] →
      Q (.ok .null) (w.poll item.doctype [(item.keyField, .str item.key)]))
    (hfound : Unusable (w.db.syncCache item.cacheKey) → ∀ doc ∈ item.carriers w.docs,
      ∀ lastPushedAt, Q (.ok (.str doc.name))
        ((w.poll item.doctype [(item.keyField, .str item.key)]).setCache item.cacheKey
          ⟨doc.name, item.doctype, none, lastPushedAt⟩)) :
    (findExisting engine.store engine.frappe item.me item.spec.naturalKeyField
      item.key).Always (engine.calm allow) Q w := by
  unfold findExisting
  simp only [item.cacheKey_me]
  refine .bind (.bind (calm_selectCache fun ha => ?_))
  simp only [Prog.pure_eq, always_ret]
  split
  · next name hname =>
    -- the row has a name
    obtain ⟨hmap, hne⟩ := Option.filter_eq_some_iff.mp hname
    obtain ⟨row, hrow, rfl⟩ := Option.map_eq_some_iff.mp hmap
    exact hcached row hrow (by simpa using hne) ha
  · next hempty =>
    -- no row, or one without name: Frappe is asked
    have hunusable : Unusable (w.db.syncCache item.cacheKey) := by
      intro row hrow
      by_contra hne
      rw [hrow] at hempty
      simp [nonEmpty, Option.filter, hne] at hempty
    refine .bind (calm_get fun order horder => ?_)
    have horder' : order.Perm (item.carriers w.docs) := horder
    cases order with
    | nil => exact hnone hunusable horder'.nil_eq.symm
    | cons doc docs =>
        refine .bind (.ofExcept (.bind (calm_upsertCache fun lastPushedAt => ?_)))
        exact hfound hunusable doc (horder'.mem_iff.mp List.mem_cons_self) lastPushedAt

section push

variable (item : Item engine)

theorem calm_sendRecord_create {Q : Except Exn Json → World δ → Prop} {existing : Json}
    (hexisting : existing.truthy = false)
    (h : ∀ name, FreshName w.docs item.doctype name → Q (.ok (.str name))
      ((w.post item.doctype name item.payload).applyResult (.created (item.push (.str name))))) :
    (engine.sendRecord item.me item.key item.push item.payload existing).Always
      (engine.calm allow) Q w := by
  unfold SyncEngine.sendRecord
  rw [if_neg (by simp [hexisting])]
  refine .bind (calm_create fun name hfresh => ?_)
  exact .bind (.ofExcept (.bind (calm_resultOp (h name hfresh))))

theorem calm_sendRecord_update {Q : Except Exn Json → World δ → Prop} {name : String}
    (hname : name ≠ "")
    (h : hasDoc w.docs item.doctype name = true → Q (.ok (.str name))
      ((w.put item.doctype name item.payload).applyResult (.updated (item.push (.str name))))) :
    (engine.sendRecord item.me item.key item.push item.payload (.str name)).Always
      (engine.calm allow) Q w := by
  unfold SyncEngine.sendRecord
  rw [if_pos (Json.truthy_str.mpr hname)]
  exact .bind (calm_update hname fun hdoc => .bind (calm_resultOp (h hdoc)))

/-- Looking a record up touches at most its cache row. -/
structure Item.Peeked (w w₁ : World δ) : Prop where
  db : w₁.db = w.db ∨ ∃ row, w₁.db = (w.setCache item.cacheKey row).db
  docs : w₁.docs = w.docs
  tally : w₁.tally = w.tally
  fetched : w₁.fetched = w.fetched
  pushes : w₁.pushes = w.pushes
  skips : ∀ push docs, Event.skipped push docs ∈ w₁.log ↔ Event.skipped push docs ∈ w.log

variable {item} {w₁ w₂ : World δ} {name lastPushedAt : String}

/-- What was sent is then counted and cached. -/
theorem Item.Peeked.saved (h : item.Peeked w w₁) {op : ResultOp}
    (hop : op = .created (item.push (.str name)) ∨ op = .updated (item.push (.str name)))
    (hsent : w₂ = w₁.post item.doctype name item.payload ∨
      w₂ = w₁.put item.doctype name item.payload) :
    item.Saved name w ((w₂.applyResult op).setCache item.cacheKey
      ⟨name, item.doctype, some item.contentHash, lastPushedAt⟩) where
  db := by
    have hdb : w₂.db = w₁.db := by
      rcases hsent with rfl | rfl <;> rfl
    refine ⟨lastPushedAt, ?_⟩
    have happly : (w₂.applyResult op).db = w₁.db := by
      rcases hop with rfl | rfl <;> exact hdb
    simp only [World.setCache, happly]
    rcases h.db with heq | ⟨row, heq⟩
    · rw [heq]
    · simp only [heq, World.setCache, Function.update_idem]
  tally := by
    rcases hop with rfl | rfl <;> rcases hsent with rfl | rfl <;> exact h.tally
  fetched := by
    rcases hop with rfl | rfl <;> rcases hsent with rfl | rfl <;> exact h.fetched
  pushes := by
    rcases hop with rfl | rfl <;> rcases hsent with rfl | rfl <;>
      exact congrArg (List.cons _) h.pushes
  skips := by
    intro push docs
    rw [← h.skips]
    rcases hop with rfl | rfl <;> rcases hsent with rfl | rfl <;>
      simp [World.setCache, World.applyResult, World.post, World.put]

theorem Item.Peeked.refl (w : World δ) : item.Peeked w w :=
  ⟨.inl rfl, rfl, rfl, rfl, rfl, fun _ _ => Iff.rfl⟩

theorem Item.Peeked.poll (w : World δ) (doctype : String) (filters : List (String × Json)) :
    item.Peeked w (w.poll doctype filters) :=
  ⟨.inl rfl, rfl, rfl, rfl, rfl, by simp [World.poll]⟩

theorem Item.Peeked.remember (w : World δ) (doctype : String) (filters : List (String × Json))
    (row : CacheRow δ) :
    item.Peeked w ((w.poll doctype filters).setCache item.cacheKey row) :=
  ⟨.inr ⟨row, rfl⟩, rfl, rfl, rfl, rfl, by simp [World.poll, World.setCache]⟩

/-- A record that is not known in Frappe is created. -/
theorem calm_create_effect (h : item.Peeked w w₁) {existing : Json}
    (hexisting : existing.truthy = false) (hunknown : Unusable (w.db.syncCache item.cacheKey)) :
    (do
      let frappeName ←
        engine.sendRecord item.me item.key item.push item.payload existing
      engine.store.upsertCache item.cacheKey frappeName item.me.frappeDoctype
        (some item.contentHash) : Py δ Unit).Always (engine.calm allow)
      (fun r w' => r = .ok () ∧ item.Effect allow w w') w₁ := by
  refine .bind (calm_sendRecord_create item hexisting fun name hfresh => ?_)
  refine calm_upsertCache fun lastPushedAt => ⟨rfl, ?_⟩
  rw [h.docs] at hfresh
  refine .create name _ (h.saved (.inl rfl) (.inl rfl)) hunknown hfresh ?_
  exact congrArg (postDoc · item.doctype name item.payload) h.docs

/-- A record that is known in Frappe is overwritten. -/
theorem calm_update_effect (h : item.Peeked w w₁) (hname : name ≠ "")
    (hknown : (∃ row, w.db.syncCache item.cacheKey = some row ∧ row.frappeName = name) ∨
      Unusable (w.db.syncCache item.cacheKey) ∧ ∃ doc ∈ item.carriers w.docs, doc.name = name) :
    (do
      let frappeName ←
        engine.sendRecord item.me item.key item.push item.payload (.str name)
      engine.store.upsertCache item.cacheKey frappeName item.me.frappeDoctype
        (some item.contentHash) : Py δ Unit).Always (engine.calm allow)
      (fun r w' => r = .ok () ∧ item.Effect allow w w') w₁ := by
  refine .bind (calm_sendRecord_update item hname fun hdoc => ?_)
  refine calm_upsertCache fun lastPushedAt => ⟨rfl, ?_⟩
  rw [h.docs] at hdoc
  refine .update name _ (h.saved (.inr rfl) (.inr rfl)) hname hknown hdoc ?_
  exact congrArg (putDoc · item.doctype name item.payload) h.docs

variable [DecidableEq δ] (item)

/-- A push that nothing fails in. -/
theorem calm_pushRecord :
    (engine.pushRecord item.spec item.me item.model).Always (engine.calm allow)
      (fun r w' => r = .ok () ∧ item.Effect allow w w') w := by
  unfold SyncEngine.pushRecord
  rw [item.hkey]
  refine .bind (calm_findExisting item (fun row hrow hname ha => ?_) (fun hunusable hnone => ?_)
    fun hunusable doc hdoc lastPushedAt => ?_)
  · -- a usable cached name
    refine .bind (calm_selectCache fun _ => ?_)
    dsimp only
    split
    · next hskip =>
      rw [Bool.and_eq_true] at hskip
      have hany := hskip.2
      change Option.any _ (w.db.syncCache item.cacheKey) = true at hany
      have hhash : row.contentHash = some item.contentHash := by
        simpa [hrow, Item.contentHash, Item.payload] using hany
      exact .bind (calm_resultOp ⟨rfl, .skip row ha hrow hname hhash⟩)
    · exact calm_update_effect (.refl w) hname (.inl ⟨row, hrow, rfl⟩)
  · -- nothing found
    refine .bind (calm_selectCache fun _ => ?_)
    dsimp only
    rw [if_neg (by simp)]
    exact calm_create_effect (.poll w _ _) Json.truthy_null hunusable
  · -- a document found
    refine .bind (calm_selectCache fun _ => ?_)
    dsimp only
    by_cases hname : doc.name = ""
    · have hfalsy : (Json.str doc.name).truthy = false := by simp [Json.truthy, hname]
      rw [if_neg (by simp [hfalsy])]
      exact calm_create_effect (.remember w _ _ _) hfalsy hunusable
    · rw [if_neg (by simp [SyncEngine.cacheKey, Item.cacheKey, World.setCache])]
      exact calm_update_effect (.remember w _ _ _) hname (.inr ⟨hunusable, doc, hdoc, rfl⟩)

end push

end TallyConnector
