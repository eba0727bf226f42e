import TallyConnector.Sync.Protocol
import TallyConnector.Sync.Rules
import TallyConnector.World.Open

/-! # A push against any answers

What `_push_record` leaves behind, whatever Frappe answers and whichever
statements fail: one lemma for each function it is made of, up to
`Item.Pushed`, which lists the ways a push can end.
-/

namespace TallyConnector

open Effects Prog

variable {δ : Type} {engine : SyncEngine δ} {outside : Outside δ} {s s' s₁ : Session δ}

/-! ## Frames -/

/-- The exchanges before a record is sent: cached names are read and
remembered, Frappe is asked. -/
def Exchange.IsLookup : Exchange δ → Prop
  | .requested _ _ => True
  | .executed (.selectCache _) => True
  | .rejected (.selectCache _) _ => True
  | .executed (.upsertCache _ _ _ none _) => True
  | .rejected (.upsertCache _ _ _ none _) _ => True
  | _ => False

/-- Nothing but the cache row of a key has changed. -/
structure DB.SameBut (key : CacheKey) (db db' : DB δ) : Prop where
  syncState : db'.syncState = db.syncState
  retryQueue : db'.retryQueue = db.retryQueue
  others : ∀ key', key' ≠ key → db'.syncCache key' = db.syncCache key'

namespace DB.SameBut

variable {key : CacheKey} {db db' db'' : DB δ}

theorem refl (db : DB δ) : SameBut key db db := ⟨rfl, rfl, fun _ _ => rfl⟩

theorem trans (h : SameBut key db db') (h' : SameBut key db' db'') : SameBut key db db'' where
  syncState := h'.syncState.trans h.syncState
  retryQueue := h'.retryQueue.trans h.retryQueue
  others := fun key' hne => (h'.others key' hne).trans (h.others key' hne)

theorem upsert (row : CacheRow δ) :
    SameBut key db { db with syncCache := Function.update db.syncCache key (some row) } :=
  ⟨rfl, rfl, fun _ hne => Function.update_of_ne hne _ _⟩

end DB.SameBut

/-- The session after lookups for a key. -/
structure Session.LookedUp (key : CacheKey) (s : Session δ) (looks : List (Exchange δ))
    (s' : Session δ) : Prop where
  after : s.After looks s'
  lookups : ∀ exchange ∈ looks, exchange.IsLookup
  result : s'.result = s.result
  db : s.db.SameBut key s'.db

namespace Session.LookedUp

variable {key : CacheKey} {looks looks' : List (Exchange δ)}

theorem refl (s : Session δ) : s.LookedUp key [] s :=
  ⟨.refl s, by simp, rfl, .refl _⟩

theorem trans (h : s.LookedUp key looks s₁) (h' : s₁.LookedUp key looks' s') :
    s.LookedUp key (looks' ++ looks) s' where
  after := h.after.trans h'.after
  lookups := by
    intro exchange hmem
    rcases List.mem_append.mp hmem with hmem | hmem
    · exact h'.lookups exchange hmem
    · exact h.lookups exchange hmem
  result := h'.result.trans h.result
  db := h.db.trans h'.db

/-- One exchange that leaves the database as it is. -/
theorem add {exchange : Exchange δ} (h : exchange.IsLookup) :
    s.LookedUp key [exchange] (s.add exchange) :=
  ⟨rfl, by simpa using h, rfl, .refl _⟩

end Session.LookedUp

/-! ## Requests -/

/-- A value the client read out of an allowed answer. -/
def Outside.Answers (outside : Outside δ) (client : FrappeClient δ) (request : FrappeRequest)
    (value : Json) : Prop :=
  ∃ outcome, outside.frappe request outcome ∧ client.readOutcome outcome = .ok value

/-- A request, over all its attempts. -/
theorem open_request {client : FrappeClient δ} {request : FrappeRequest} (key : CacheKey) :
    (client.request request).Always outside.step
      (fun r s' => (∃ looks, s.LookedUp key looks s') ∧ match r with
        | .ok value => outside.Answers client request value
        | .error exc => exc.Transient) s := by
  refine .tryCatch (always_retrying (I := fun s' => ∃ looks, s.LookedUp key looks s')
    ?_ ⟨[], .refl s⟩)
  rintro s₁ ⟨looks, hlooks⟩
  refine .bind ?_
  rintro outcome s' ⟨reply, hallows, he⟩
  cases reply <;> cases he
  have hlooked : ∃ looks, s.LookedUp key looks (s₁.add (.requested request outcome)) :=
    ⟨_, hlooks.trans (.add trivial)⟩
  refine .ofExcept ?_
  cases hread : client.readOutcome outcome with
  | ok value => exact ⟨⟨hlooked, outcome, hallows, hread⟩, fun exc h => by cases h⟩
  | error exc =>
      refine ⟨?_, fun _ _ => hlooked⟩
      dsimp only
      split
      · exact ⟨hlooked, rfl⟩
      · exact ⟨hlooked, transient_of_readOutcome hread⟩

/-! ## Cache rows -/

theorem Session.LookedUp.select {key : CacheKey} :
    s.LookedUp key [.executed (.selectCache key)] (s.execute (.selectCache key) s.db) :=
  ⟨rfl, by simp [Exchange.IsLookup], rfl, .refl _⟩

theorem open_selectCache {key : CacheKey} {Q : Except Exn (Option (CacheRow δ)) → Session δ → Prop}
    (hok : Q (.ok (s.db.syncCache key)) (s.execute (.selectCache key) s.db))
    (herror : ∀ exc, exc.Transient → outside.fault (.selectCache key) exc →
      Q (.error exc) (s.add (.rejected (.selectCache key) exc))) :
    (sql (.selectCache key)).Always outside.step Q s := by
  refine open_sql (fun result db hexec => ?_) fun exc hexc => ?_
  · cases hexec
    exact hok
  · rcases hexc with hexec | hfault
    · cases hexec
    · exact herror exc (outside.transient _ _ hfault) hfault

theorem Session.LookedUp.remember {key : CacheKey} {name : Json}
    {doctype bound lastPushedAt : String} :
    s.LookedUp key [.executed (.upsertCache key name doctype none lastPushedAt)]
      (s.execute (.upsertCache key name doctype none lastPushedAt) { s.db with
        syncCache := Function.update s.db.syncCache key
          (some ⟨bound, doctype, none, lastPushedAt⟩) }) :=
  ⟨rfl, by simp [Exchange.IsLookup], rfl, .upsert _⟩

theorem open_upsertCache {store : StateStore δ} {key : CacheKey} {name : Json} {doctype : String}
    {hash : Option δ} {Q : Except Exn Unit → Session δ → Prop}
    (hok : ∀ bound lastPushedAt, bindTextNotNull "sync_cache.frappe_name" name = .ok bound →
      Q (.ok ()) (s.execute (.upsertCache key name doctype hash lastPushedAt) { s.db with
        syncCache := Function.update s.db.syncCache key
          (some ⟨bound, doctype, hash, lastPushedAt⟩) }))
    (herror : ∀ exc lastPushedAt, exc.Transient → Q (.error exc)
      (s.add (.rejected (.upsertCache key name doctype hash lastPushedAt) exc))) :
    (store.upsertCache key name doctype hash).Always outside.step Q s := by
  refine .bind (open_now fun lastPushedAt => ?_)
  refine open_sql (fun result db hexec => ?_) fun exc hexc => herror exc _ ?_
  · simp only [DB.exec] at hexec
    split at hexec
    · cases hexec
    · next bound hbound =>
      cases hexec
      exact hok bound _ hbound
  · rcases hexc with hexec | hfault
    · exact transient_of_exec hexec
    · exact outside.transient _ _ hfault

theorem int_toString_ne_empty {n : Int} : toString n ≠ "" := by
  change Int.repr n ≠ ""
  cases n with
  | ofNat n => exact Nat.repr_ne_empty
  | negSucc n => simp [Int.repr]

/-- What was bound for a truthy value is a usable name. -/
theorem bound_ne_empty {column bound : String} {name : Json} (hname : name.truthy = true)
    (hbound : bindTextNotNull column name = .ok bound) : bound ≠ "" := by
  cases name with
  | null => cases hname
  | str s =>
      cases hbound
      exact Json.truthy_str.mp hname
  | int n =>
      cases hfits : fitsInt64 n with
      | false => simp [bindTextNotNull, bindText, hfits] at hbound
      | true =>
          obtain rfl : toString n = bound := by
            simpa [bindTextNotNull, bindText, hfits] using hbound
          exact int_toString_ne_empty
  | float text =>
      -- `nan` is bound as NULL, and the column takes none
      simp only [bindTextNotNull, bindText] at hbound
      split at hbound
      · cases hbound
      · cases hbound
      · next hnan =>
        split at hnan <;> cases hnan
        cases hbound
        rintro rfl
        cases hname
  | bool b =>
      -- a truth value is bound as a digit
      cases b <;> cases hbound <;> decide
  | list xs => cases hbound
  | obj kvs => cases hbound

/-! ## find_existing -/

/-- The cache has a name for the record. -/
def Item.Named (item : Item engine) (s : Session δ) : Prop :=
  ∃ row, s.db.syncCache item.cacheKey = some row ∧ row.frappeName ≠ ""

/-- The name comes from the cache, or there was none and it is remembered
without a hash. -/
theorem open_findExisting (item : Item engine) :
    (findExisting engine.store engine.frappe item.me item.spec.naturalKeyField item.key).Always
      outside.step (fun r s' => match r with
        | .ok existing =>
            (∃ row, s.db.syncCache item.cacheKey = some row ∧ row.frappeName ≠ "" ∧
              existing = .str row.frappeName ∧
              s' = s.execute (.selectCache item.cacheKey) s.db) ∨
            (¬ item.Named s ∧ (∃ looks, s.LookedUp item.cacheKey looks s') ∧
              (existing.truthy = true → ∃ row, s'.db.syncCache item.cacheKey = some row ∧
                row.contentHash = none))
        | .error exc => (item.Named s → ∃ stmt exc, outside.fault stmt exc) ∧ exc.Transient ∧
            ∃ looks, s.LookedUp item.cacheKey looks s') s := by
  unfold findExisting
  simp only [item.cacheKey_me]
  refine .bind (.bind (open_selectCache ?_ fun exc hexc hfault =>
    ⟨fun _ => ⟨_, exc, hfault⟩, hexc, _, .add trivial⟩))
  simp only [Prog.pure_eq, always_ret]
  split
  · next name hname =>
    obtain ⟨hmap, hne⟩ := Option.filter_eq_some_iff.mp hname
    obtain ⟨row, hrow, rfl⟩ := Option.map_eq_some_iff.mp hmap
    exact .inl ⟨row, hrow, by simpa using hne, rfl, rfl⟩
  · next hnone =>
    -- Frappe is asked
    have hnot : ¬ item.Named s := by
      rintro ⟨row, hrow, hne⟩
      simp [hrow, nonEmpty, hne] at hnone
    refine .bind (.bind ((open_request item.cacheKey).mono fun r s₁ hr => ?_))
    obtain ⟨⟨looks, hlooks⟩, hvalue⟩ := hr
    have hlooked := Session.LookedUp.select.trans hlooks
    cases r with
    | error exc => exact ⟨fun h => absurd h hnot, hvalue, _, hlooked⟩
    | ok value =>
        refine .ofExcept ?_
        cases hfound : pyGet value "data" (.list []) with
        | error exc => exact ⟨fun h => absurd h hnot, transient_of_pyGet hfound, _, hlooked⟩
        | ok found =>
            dsimp only
            split
            · refine .bind (.ofExcept ?_)
              cases hname : firstName found with
              | error exc => exact ⟨fun h => absurd h hnot, transient_of_firstName hname, _, hlooked⟩
              | ok name =>
                  refine .bind (open_upsertCache (fun bound lastPushedAt hbound => ?_)
                    fun exc lastPushedAt hexc =>
                      ⟨fun h => absurd h hnot, hexc, _, hlooked.trans (.add trivial)⟩)
                  exact .inr ⟨hnot, ⟨_, hlooked.trans .remember⟩,
                    fun _ => ⟨_, Function.update_self .., rfl⟩⟩
            · exact .inr ⟨hnot, ⟨_, hlooked⟩, fun h => by cases h⟩

/-! ## _push_record -/

namespace Item

variable (outside) (item : Item engine)

/-- Where a document name comes from: it was known and is truthy, or it is
what Frappe's answer to the POST says. -/
def Names (name : Json) : Prop :=
  name.truthy = true ∨ ∃ value created,
    outside.Answers engine.frappe (.post engine.frappe.baseUrl item.doctype item.payload) value ∧
    pyGet value "data" (.obj []) = .ok created ∧
    pyGet created "name" (.str item.key) = .ok name

/-- A counter is bumped for a payload that was sent. -/
def Counts (op : ResultOp) (name : Json) : Prop :=
  op = .created (item.push name) ∨ op = .updated (item.push name)

/-- The cache write that ends a push. -/
def save (name : Json) (lastPushedAt : String) : Stmt δ :=
  .upsertCache item.cacheKey name item.doctype (some item.contentHash) lastPushedAt

/-- The row it writes. -/
def row (bound lastPushedAt : String) : CacheRow δ :=
  ⟨bound, item.doctype, some item.contentHash, lastPushedAt⟩

/-- The payload is cached as pushed. -/
def Cached (s : Session δ) : Prop :=
  ∃ row, s.db.syncCache item.cacheKey = some row ∧ row.frappeName ≠ "" ∧
    row.contentHash = some item.contentHash

/-- How a push can end, with the exchanges it leaves behind. A payload that is
cached as pushed is not sent. -/
inductive Pushed (s : Session δ) : List (Exchange δ) → Except Exn Unit → Session δ → Prop
  /-- The cached hash is the payload's. -/
  | unchanged (row : CacheRow δ) (hrow : s.db.syncCache item.cacheKey = some row)
      (hname : row.frappeName ≠ "") (hhash : row.contentHash = some item.contentHash) :
      Pushed s [.counted (.unchanged (item.push (.str row.frappeName))),
          .executed (.selectCache item.cacheKey), .executed (.selectCache item.cacheKey)] (.ok ())
        (((s.execute (.selectCache item.cacheKey) s.db).execute
          (.selectCache item.cacheKey) s.db).count (.unchanged (item.push (.str row.frappeName))))
  /-- The payload was sent and cached. -/
  | saved (looks : List (Exchange δ)) (s₁ : Session δ) (op : ResultOp) (name : Json)
      (bound lastPushedAt : String) (hlooks : s.LookedUp item.cacheKey looks s₁)
      (hop : item.Counts op name) (hname : item.Names outside name)
      (hbound : bindTextNotNull "sync_cache.frappe_name" name = .ok bound)
      (hnot : ¬ item.Cached s) :
      Pushed s (.executed (item.save name lastPushedAt) :: .counted op :: looks) (.ok ())
        ((s₁.count op).execute (item.save name lastPushedAt) { s₁.db with
          syncCache := Function.update s₁.db.syncCache item.cacheKey
            (some (item.row bound lastPushedAt)) })
  /-- The payload was not acknowledged. -/
  | failed (looks : List (Exchange δ)) (s₁ : Session δ) (exc : Exn)
      (hlooks : s.LookedUp item.cacheKey looks s₁) (hexc : exc.Transient)
      (hfault : item.Cached s → ∃ stmt exc, outside.fault stmt exc) :
      Pushed s looks (.error exc) s₁
  /-- The payload was acknowledged, but its name could not be cached. -/
  | lost (looks : List (Exchange δ)) (s₁ : Session δ) (op : ResultOp) (name : Json)
      (lastPushedAt : String) (exc : Exn) (hlooks : s.LookedUp item.cacheKey looks s₁)
      (hop : item.Counts op name) (hexc : exc.Transient) (hnot : ¬ item.Cached s) :
      Pushed s (.rejected (item.save name lastPushedAt) exc :: .counted op :: looks) (.error exc)
        ((s₁.count op).add (.rejected (item.save name lastPushedAt) exc))

end Item

variable {item : Item engine}

theorem Item.Pushed.after {new : List (Exchange δ)} {r : Except Exn Unit}
    (h : item.Pushed outside s new r s') : s.After new s' := by
  cases h with
  | unchanged row _ _ _ => rfl
  | saved looks s₁ op name bound lastPushedAt hlooks _ _ _ =>
      exact congrArg (fun history => _ :: _ :: history) hlooks.after
  | failed looks s₁ exc hlooks _ => exact hlooks.after
  | lost looks s₁ op name lastPushedAt exc hlooks _ _ =>
      exact congrArg (fun history => _ :: _ :: history) hlooks.after

theorem open_sendRecord (item : Item engine) {existing : Json} :
    (engine.sendRecord item.me item.key item.push item.payload existing).Always outside.step
      (fun r s' => match r with
        | .ok name => ∃ looks s₁ op, s.LookedUp item.cacheKey looks s₁ ∧ item.Counts op name ∧
            item.Names outside name ∧ s' = s₁.count op
        | .error exc => exc.Transient ∧ ∃ looks, s.LookedUp item.cacheKey looks s') s := by
  unfold SyncEngine.sendRecord
  split
  · next htruthy =>
    unfold FrappeClient.update
    refine .bind (.bind ((open_request item.cacheKey).mono fun r s₁ hr => ?_))
    obtain ⟨⟨looks, hlooks⟩, hvalue⟩ := hr
    cases r with
    | error exc => exact ⟨hvalue, _, hlooks⟩
    | ok value =>
        refine .ofExcept ?_
        cases hdata : pyGet value "data" (.obj []) with
        | error exc => exact ⟨transient_of_pyGet hdata, _, hlooks⟩
        | ok updated =>
            exact .bind (open_resultOp ⟨_, _, _, hlooks, .inr rfl, .inl htruthy, rfl⟩)
  · unfold FrappeClient.create
    refine .bind (.bind ((open_request item.cacheKey).mono fun r s₁ hr => ?_))
    obtain ⟨⟨looks, hlooks⟩, hvalue⟩ := hr
    cases r with
    | error exc => exact ⟨hvalue, _, hlooks⟩
    | ok value =>
        refine .ofExcept ?_
        cases hdata : pyGet value "data" (.obj []) with
        | error exc => exact ⟨transient_of_pyGet hdata, _, hlooks⟩
        | ok created =>
            refine .bind (.ofExcept ?_)
            cases hname : pyGet created "name" (.str item.key) with
            | error exc => exact ⟨transient_of_pyGet hname, _, hlooks⟩
            | ok name =>
                exact .bind (open_resultOp ⟨_, _, _, hlooks, .inl rfl,
                  .inr ⟨value, created, hvalue, hdata, hname⟩, rfl⟩)

variable [DecidableEq δ]

theorem open_pushRecord (item : Item engine) :
    (engine.pushRecord item.spec item.me item.model).Always outside.step
      (fun r s' => ∃ new, item.Pushed outside s new r s') s := by
  unfold SyncEngine.pushRecord
  rw [item.hkey]
  refine .bind ((open_findExisting item).mono fun r s₁ hr => ?_)
  cases r with
  | error exc =>
      obtain ⟨hfault, hexc, looks, hlooks⟩ := hr
      exact ⟨_, .failed looks s₁ exc hlooks hexc
        fun ⟨row, hrow, hname, _⟩ => hfault ⟨row, hrow, hname⟩⟩
  | ok existing =>
      have hlooked : ∃ looks, s.LookedUp item.cacheKey looks s₁ := by
        rcases hr with ⟨_, _, _, _, rfl⟩ | ⟨-, hlooks, -⟩
        · exact ⟨_, .select⟩
        · exact hlooks
      obtain ⟨looks, hlooks⟩ := hlooked
      refine .bind (open_selectCache ?_ fun exc hexc hfault =>
        ⟨_, .failed _ _ exc (hlooks.trans (.add trivial)) hexc fun _ => ⟨_, exc, hfault⟩⟩)
      have hselect : s.LookedUp item.cacheKey (.executed (.selectCache item.cacheKey) :: looks)
          (s₁.execute (.selectCache item.cacheKey) s₁.db) := hlooks.trans .select
      change Always _ _ (ite _ _ _) _
      split
      · next hunchanged =>
        -- the hash is only compared under a cached name
        obtain ⟨htruthy, hcached⟩ := Bool.and_eq_true_iff.mp hunchanged
        obtain ⟨row, hrow, hhash⟩ := (Option.any_eq_true _ _).mp hcached
        have hrow' : s₁.db.syncCache item.cacheKey = some row := hrow
        have hhash' : row.contentHash = some item.contentHash := eq_of_beq hhash
        rcases hr with ⟨row', hrow₀, hname, rfl, rfl⟩ | ⟨-, -, hnone⟩
        · have heq : row' = row := Option.some.inj (hrow₀.symm.trans hrow')
          subst heq
          exact .bind (open_resultOp ⟨_, .unchanged row' hrow₀ hname hhash'⟩)
        · obtain ⟨row', hrow₁, hempty⟩ := hnone htruthy
          have heq : row' = row := Option.some.inj (hrow₁.symm.trans hrow')
          rw [heq, hhash'] at hempty
          cases hempty
      · next hchanged =>
        have hnot : ¬ item.Cached s := by
          rintro ⟨row, hrow, hname, hhash⟩
          rcases hr with ⟨row', hrow', hname', rfl, rfl⟩ | ⟨hunnamed, -, -⟩
          · refine hchanged (Bool.and_eq_true_iff.mpr ⟨Json.truthy_str.mpr hname', ?_⟩)
            exact (Option.any_eq_true _ _).mpr ⟨row, hrow, beq_iff_eq.mpr hhash⟩
          · exact hunnamed ⟨row, hrow, hname⟩
        refine .bind ((open_sendRecord item).mono fun r s₂ hr => ?_)
        cases r with
        | error exc =>
            obtain ⟨hexc, looks', hlooks'⟩ := hr
            exact ⟨_, .failed _ _ exc (hselect.trans hlooks') hexc fun h => absurd h hnot⟩
        | ok name =>
            obtain ⟨looks', s₃, op, hlooks', hop, hname, rfl⟩ := hr
            refine open_upsertCache (fun bound lastPushedAt hbound => ?_)
              fun exc lastPushedAt hexc => ?_
            · exact ⟨_, .saved _ s₃ op name bound lastPushedAt (hselect.trans hlooks') hop hname
                hbound hnot⟩
            · exact ⟨_, .lost _ s₃ op name lastPushedAt exc (hselect.trans hlooks') hop hexc hnot⟩

end TallyConnector
