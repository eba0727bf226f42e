import TallyConnector.Effects.Lockstep
import TallyConnector.Sync.Visits

/-! # The treatment of a record, twice

The body of the record loop reads one cache row and Frappe's answers, and the
clock. Two runs of it on the same record, from the same cache row and with the
same answers, exchange the same up to the readings of the clock.
-/

namespace TallyConnector

open Effects Prog

variable {δ : Type} {engine : SyncEngine δ} {spec : EntitySpec}
variable {s s' : Session δ} {new new' : List (Exchange δ)}

/-! ## Up to the clock -/

def CacheRow.untimed (row : CacheRow δ) : CacheRow δ := { row with lastPushedAt := "" }

theorem map_of_untimed {β : Type} {f : CacheRow δ → β} (hf : ∀ row, f row.untimed = f row)
    {row row' : Option (CacheRow δ)} (h : row.map CacheRow.untimed = row'.map CacheRow.untimed) :
    row.map f = row'.map f := by
  simpa [Option.map_map, Function.comp_def, hf] using congrArg (Option.map f) h

/-- A statement on the rows of a record without its timestamps. -/
def Stmt.untimed : Stmt δ → Stmt δ
  | .upsertRetry entityName recordGuid operation payloadJson _ error _ =>
      .upsertRetry entityName recordGuid operation payloadJson "" error ""
  | .upsertCache key frappeName frappeDoctype contentHash _ =>
      .upsertCache key frappeName frappeDoctype contentHash ""
  | stmt => stmt

def Exchange.untimed : Exchange δ → Exchange δ
  | .executed stmt => .executed stmt.untimed
  | .rejected stmt exc => .rejected stmt.untimed exc
  | exchange => exchange

def Exchange.outcome? : Exchange δ → Option HttpOutcome
  | .requested _ outcome => some outcome
  | _ => none

/-- What Frappe answered, in order. -/
def outcomesOf (new : List (Exchange δ)) : List HttpOutcome :=
  (new.filterMap Exchange.outcome?).reverse

/-- As far as both asked, Frappe answered the same. -/
def AnsweredAlike (new new' : List (Exchange δ)) : Prop :=
  ∃ answers, outcomesOf new <+: answers ∧ outcomesOf new' <+: answers

theorem Exchange.outcome?_untimed (exchange : Exchange δ) :
    exchange.untimed.outcome? = exchange.outcome? := by
  cases exchange <;> rfl

theorem outcomesOf_untimed : outcomesOf (new.map Exchange.untimed) = outcomesOf new := by
  simp [outcomesOf, List.filterMap_map, Exchange.outcome?_untimed]

theorem outcomesOf_append : outcomesOf (new' ++ new) = outcomesOf new ++ outcomesOf new' := by
  simp [outcomesOf]

/-! ## Linked calls -/

/-- The calls of two treatments that go together, for records of these cache
keys. They may differ in what was read from the clock. -/
inductive Linked (keys : CacheKey → Prop) : Linking (@Call.Resp δ)
  | clock : Linked keys .clock .clock fun _ _ => True
  | frappe (request : FrappeRequest) : Linked keys (.frappe request) (.frappe request) Eq
  | selectCache (key : CacheKey) (hkey : keys key) :
      Linked keys (.sql (.selectCache key)) (.sql (.selectCache key)) fun row row' =>
        Except.map (Option.map CacheRow.untimed) row = Except.map (Option.map CacheRow.untimed) row'
  | upsertCache (key : CacheKey) (hkey : keys key) (name : Json) (doctype : String)
      (hash : Option δ) (now now' : String) :
      Linked keys (.sql (.upsertCache key name doctype hash now))
        (.sql (.upsertCache key name doctype hash now')) Eq
  | upsertRetry (entityName : String) (recordGuid : Json) (operation : String)
      (payloadJson : Record) (error : Option String) (now now' at' at'' : String) :
      Linked keys (.sql (.upsertRetry entityName recordGuid operation payloadJson now error at'))
        (.sql (.upsertRetry entityName recordGuid operation payloadJson now' error at'')) Eq
  | result (op : ResultOp) : Linked keys (.result op) (.result op) fun _ _ => True

section alike

variable {keys : CacheKey → Prop} {store : StateStore δ}

theorem alike_ofExcept {α : Type} (r : Except Exn α) :
    Alike (Linked (δ := δ) keys) Eq (Prog.ofExcept r) (Prog.ofExcept r) :=
  .of_all (all_ofExcept r)

theorem alike_now : Alike (Linked keys) (fun _ _ => True) store.now store.now :=
  .bind (.perform .clock) fun _ _ _ => trivial

theorem alike_resultOp (op : ResultOp) :
    Alike (Linked (δ := δ) keys) (fun _ _ => True) (resultOp op) (resultOp op) :=
  .perform (.result op)

theorem alike_selectCache {key : CacheKey} (hkey : keys key) :
    Alike (Linked (δ := δ) keys)
      (fun row row' => row.map CacheRow.untimed = row'.map CacheRow.untimed)
      (sql (.selectCache key)) (sql (.selectCache key)) := by
  refine .bind (.perform (.selectCache key hkey)) fun r r' hrows => ?_
  cases r with
  | error exc =>
      cases r' with
      | error exc' => exact Except.error.inj hrows
      | ok row' => cases hrows
  | ok row =>
      cases r' with
      | error exc' => cases hrows
      | ok row' => exact Except.ok.inj hrows

theorem alike_upsertCache {key : CacheKey} (hkey : keys key) (name : Json) (doctype : String)
    (hash : Option δ) :
    Alike (Linked keys) Eq (store.upsertCache key name doctype hash)
      (store.upsertCache key name doctype hash) := by
  refine .bind alike_now fun now now' _ => ?_
  exact .bind_eq (.perform (.upsertCache key hkey name doctype hash now now')) alike_ofExcept

theorem alike_getCachedFrappeName {key : CacheKey} (hkey : keys key) :
    Alike (Linked keys) Eq (store.getCachedFrappeName key) (store.getCachedFrappeName key) :=
  .bind (alike_selectCache hkey) fun _ _ hrows => map_of_untimed (fun _ => rfl) hrows

/-- `get`, `create` and `update`. -/
theorem alike_data {client : FrappeClient δ} (request : FrappeRequest) (default : Json) :
    Alike (Linked keys) Eq (do
        let result ← client.request request
        Prog.ofExcept (pyGet result "data" default))
      (do
        let result ← client.request request
        Prog.ofExcept (pyGet result "data" default)) :=
  .bind_eq (.of_all (FrappeClient.all_request (.frappe request))) fun _ => alike_ofExcept _

theorem alike_findExisting {client : FrappeClient δ} {me : MappingEntry}
    {keyField naturalKey : String} (hkey : keys ⟨me.entityName, naturalKey, client.baseUrl⟩) :
    Alike (Linked keys) Eq (findExisting store client me keyField naturalKey)
      (findExisting store client me keyField naturalKey) := by
  refine .bind_eq (alike_getCachedFrappeName hkey) fun cached => ?_
  split
  · exact rfl
  · refine .bind_eq (alike_data _ _) fun found => ?_
    split
    · refine .bind_eq (alike_ofExcept _) fun name => ?_
      exact .bind_eq (alike_upsertCache hkey _ _ _) fun _ => rfl
    · exact rfl

theorem alike_sendRecord {me : MappingEntry} {naturalKey : String} {push : Json → Push}
    {payload : Dict} {existing : Json} :
    Alike (Linked keys) Eq (engine.sendRecord me naturalKey push payload existing)
      (engine.sendRecord me naturalKey push payload existing) := by
  unfold SyncEngine.sendRecord
  split
  · refine .bind_eq (alike_data _ _) fun _ => ?_
    exact .bind (alike_resultOp _) fun _ _ _ => rfl
  · refine .bind_eq (alike_data _ _) fun created => ?_
    refine .bind_eq (alike_ofExcept _) fun name => ?_
    exact .bind (alike_resultOp _) fun _ _ _ => rfl

theorem alike_pushFailed (record : Record) (exc : Exn) :
    Alike (Linked keys) Eq (engine.pushFailed spec record exc)
      (engine.pushFailed spec record exc) := by
  unfold SyncEngine.pushFailed
  split
  · exact .bind (alike_resultOp _) fun _ _ _ => rfl
  · refine .bind (alike_resultOp _) fun _ _ _ => ?_
    refine .bind alike_now fun now now' _ => .bind alike_now fun at' at'' _ => ?_
    exact .bind_eq (.perform (.upsertRetry _ _ _ _ _ now now' at' at'')) alike_ofExcept

variable [DecidableEq δ]

theorem alike_pushRecord {me : MappingEntry} {model : Model} (hname : me.entityName = spec.name)
    (hkeys : ∀ key, model.usableKey spec = some key → keys (engine.cacheKey spec.name key)) :
    Alike (Linked keys) Eq (engine.pushRecord spec me model) (engine.pushRecord spec me model) := by
  unfold SyncEngine.pushRecord
  split
  · exact rfl
  · next key hkey =>
    have hkeys' : keys ⟨me.entityName, key, engine.frappe.baseUrl⟩ := hname ▸ hkeys key hkey
    refine .bind_eq (alike_findExisting hkeys') fun existing => ?_
    refine .bind (alike_selectCache (hkeys key hkey)) fun row row' hrows => ?_
    -- only the name and the hash of the row are looked at
    have hsame : ∀ hash, row.any (·.contentHash == some hash) =
        row'.any (·.contentHash == some hash) := fun hash => by
      have hhash : row.map CacheRow.contentHash = row'.map CacheRow.contentHash :=
        map_of_untimed (fun _ => rfl) hrows
      simpa [Option.any_map, Function.comp_def] using congrArg (Option.any (· == some hash)) hhash
    rw [hsame]
    split
    · exact .bind (alike_resultOp _) fun _ _ _ => rfl
    · exact .bind_eq alike_sendRecord fun name => alike_upsertCache (hkeys key hkey) _ _ _

/-- The keys under which a record is cached: its own, if it has one. -/
def SyncEngine.OwnKey (engine : SyncEngine δ) (spec : EntitySpec) (raw : Record)
    (key : CacheKey) : Prop :=
  ∃ naturalKey, spec.keyOf raw = some naturalKey ∧ key = engine.cacheKey spec.name naturalKey

/-- The body of the record loop looks at the record's own cache row only. -/
theorem alike_syncRecord (raw : Record) :
    Alike (Linked (engine.OwnKey spec raw)) Eq
      (engine.syncRecord spec (engine.mapping.entry spec.name) raw)
      (engine.syncRecord spec (engine.mapping.entry spec.name) raw) := by
  unfold SyncEngine.syncRecord
  cases hmodel : toModel raw spec with
  | error exc => exact .bind (alike_resultOp _) fun _ _ _ => rfl
  | ok model =>
      cases hme : engine.mapping.entry spec.name with
      | none => exact rfl
      | some me =>
          refine .tryCatch (alike_pushRecord (engine.mapping.named _ _ hme) fun key hkey => ?_)
            fun exc => alike_pushFailed raw exc
          exact ⟨key, (keyOf_of_ok hmodel).trans hkey, rfl⟩

end alike

/-! ## Side by side -/

/-- Two sessions in treatments that began in `b` and `b'`. -/
structure Beside (keys : CacheKey → Prop) (b b' s s' : Session δ) : Prop where
  new : ∃ new new', b.After new s ∧ b'.After new' s' ∧
    new.map Exchange.untimed = new'.map Exchange.untimed
  rows : ∀ key, keys key → (s.db.syncCache key).map CacheRow.untimed =
    (s'.db.syncCache key).map CacheRow.untimed

/-- What Frappe has answered since `b` are the first of these answers. -/
def AnsweredFrom (answers : List HttpOutcome) (b s : Session δ) : Prop :=
  ∀ new, b.After new s → outcomesOf new <+: answers

theorem AnsweredFrom.back {outside : Outside δ} {answers : List HttpOutcome} {b : Session δ}
    {e : Call δ} {r : Call.Resp e} (hstep : outside.step e s r s')
    (h : AnsweredFrom answers b s') : AnsweredFrom answers b s := by
  intro new hnew
  obtain ⟨part, rfl, -⟩ := replay_of_step hstep
  have hlater := h _ (hnew.trans (s.after_replay part))
  rw [outcomesOf_append] at hlater
  exact (List.prefix_append _ _).trans hlater

/-- While the database works, a statement does what it must. -/
theorem step_reliableStore_sql {stmt : Stmt δ} {r : Except Exn stmt.Result}
    (h : Outside.reliableStore.step (.sql stmt) s r s') : s.execSql stmt = (r, s') := by
  obtain ⟨reply, hallows, he⟩ := h
  cases reply with
  | done => exact Option.some.inj he
  | fault exc => exact hallows.elim
  | _ => cases he

namespace Beside

variable {keys : CacheKey → Prop} {b b' s₁ s₁' : Session δ} {answers : List HttpOutcome}

theorem take (h : Beside keys b b' s s') {exchange exchange' : Exchange δ}
    (h₁ : s.After [exchange] s₁) (h₁' : s'.After [exchange'] s₁')
    (hsame : exchange.untimed = exchange'.untimed)
    (hrows : ∀ key, keys key → (s₁.db.syncCache key).map CacheRow.untimed =
      (s₁'.db.syncCache key).map CacheRow.untimed) : Beside keys b b' s₁ s₁' := by
  obtain ⟨new, new', hnew, hnew', hmap⟩ := h.new
  refine ⟨⟨_, _, hnew.trans h₁, hnew'.trans h₁', ?_⟩, hrows⟩
  simp [hsame, hmap]

/-- Two answers to the same request in the same place. -/
theorem answer_unique (h : Beside keys b b' s s') {request : FrappeRequest}
    {outcome outcome' : HttpOutcome}
    (hs : AnsweredFrom answers b (s.add (.requested request outcome)))
    (hs' : AnsweredFrom answers b' (s'.add (.requested request outcome'))) :
    outcome = outcome' := by
  obtain ⟨new, new', hnew, hnew', hmap⟩ := h.new
  have hlast : ∀ (s : Session δ) outcome,
      s.After [.requested request outcome] (s.add (.requested request outcome)) := fun _ _ => rfl
  have hprefix := hs _ (hnew.trans (hlast s outcome))
  have hprefix' := hs' _ (hnew'.trans (hlast s' outcome'))
  have hbefore : outcomesOf new = outcomesOf new' := by
    rw [← outcomesOf_untimed, hmap, outcomesOf_untimed]
  rw [outcomesOf_append, hbefore] at hprefix
  rw [outcomesOf_append] at hprefix'
  have hboth := List.prefix_of_prefix_length_le hprefix hprefix' (by simp [outcomesOf, Exchange.outcome?])
  have heq := hboth.eq_of_length (by simp [outcomesOf, Exchange.outcome?])
  simpa [outcomesOf, Exchange.outcome?] using List.append_cancel_left heq

/-- Linked calls are answered the same and leave the sessions side by side. -/
theorem step {e e' : Call δ} {same : Call.Resp e → Call.Resp e' → Prop}
    (hlink : Linked keys e e' same) (h : Beside keys b b' s s') {r : Call.Resp e}
    {r' : Call.Resp e'} (hstep : Outside.reliableStore.step e s r s₁)
    (hstep' : Outside.reliableStore.step e' s' r' s₁') (hs₁ : AnsweredFrom answers b s₁)
    (hs₁' : AnsweredFrom answers b' s₁') : same r r' ∧ Beside keys b b' s₁ s₁' := by
  cases hlink with
  | clock =>
      -- the readings of the clock may differ
      obtain ⟨reply, -, he⟩ := hstep
      obtain ⟨reply', -, he'⟩ := hstep'
      cases reply <;> cases he
      cases reply' <;> cases he'
      exact ⟨trivial, h⟩
  | frappe request =>
      -- the answer to this request is the same in both
      obtain ⟨reply, -, he⟩ := hstep
      obtain ⟨reply', -, he'⟩ := hstep'
      cases reply <;> cases he
      cases reply' <;> cases he'
      obtain rfl := h.answer_unique hs₁ hs₁'
      exact ⟨rfl, h.take rfl rfl rfl h.rows⟩
  | selectCache key hkey =>
      -- the rows of the keys are alike
      have hexec := step_reliableStore_sql hstep
      have hexec' := step_reliableStore_sql hstep'
      cases hexec
      cases hexec'
      exact ⟨congrArg Except.ok (h.rows key hkey), h.take rfl rfl rfl h.rows⟩
  | upsertCache key hkey name doctype hash now now' =>
      have hexec := step_reliableStore_sql hstep
      have hexec' := step_reliableStore_sql hstep'
      -- both writes are refused, or both are made
      cases hbind : bindTextNotNull "sync_cache.frappe_name" name with
      | error exc =>
          simp only [Session.execSql, DB.exec, hbind] at hexec hexec'
          cases hexec
          cases hexec'
          exact ⟨rfl, h.take rfl rfl rfl h.rows⟩
      | ok bound =>
          simp only [Session.execSql, DB.exec, hbind] at hexec hexec'
          cases hexec
          cases hexec'
          refine ⟨rfl, h.take rfl rfl rfl fun key' hkey' => ?_⟩
          -- two times of a push are untimed alike
          by_cases heq : key' = key
          · subst heq
            simp [Session.execute, CacheRow.untimed]
          · simpa [Session.execute, Function.update_of_ne heq] using h.rows key' hkey'
  | upsertRetry entityName recordGuid operation payloadJson error now now' at' at'' =>
      -- the queue is not compared
      have hexec := step_reliableStore_sql hstep
      have hexec' := step_reliableStore_sql hstep'
      cases hbind : bindTextNotNull "retry_queue.record_guid" recordGuid with
      | error exc =>
          simp only [Session.execSql, DB.exec, hbind] at hexec hexec'
          cases hexec
          cases hexec'
          exact ⟨rfl, h.take rfl rfl rfl h.rows⟩
      | ok guid =>
          simp only [Session.execSql, DB.exec, hbind] at hexec hexec'
          cases hexec
          cases hexec'
          exact ⟨rfl, h.take rfl rfl rfl h.rows⟩
  | result op =>
      obtain ⟨reply, -, he⟩ := hstep
      obtain ⟨reply', -, he'⟩ := hstep'
      cases reply <;> cases he
      cases reply' <;> cases he'
      exact ⟨trivial, h.take rfl rfl rfl h.rows⟩

end Beside

variable [DecidableEq δ]

/-- Two treatments of a record exchange the same up to the clock, if they find
the same cache row and Frappe answers the same. -/
theorem syncRecord_untimed {raw : Record} {b b' : Session δ} {r r' : Except Exn Unit}
    (hrun : (engine.syncRecord spec (engine.mapping.entry spec.name) raw).Runs
      Outside.reliableStore.step b r s)
    (hrun' : (engine.syncRecord spec (engine.mapping.entry spec.name) raw).Runs
      Outside.reliableStore.step b' r' s')
    (hnew : b.After new s) (hnew' : b'.After new' s')
    (hrows : ∀ key, engine.OwnKey spec raw key → b.db.syncCache key = b'.db.syncCache key)
    (hanswers : AnsweredAlike new new') : new.map Exchange.untimed = new'.map Exchange.untimed := by
  obtain ⟨answers, hprefix, hprefix'⟩ := hanswers
  have hstart : Beside (engine.OwnKey spec raw) b b' b b' :=
    ⟨⟨[], [], .refl b, .refl b', rfl⟩, fun key hkey => by rw [hrows key hkey]⟩
  have hend : AnsweredFrom answers b s := fun new₁ hnew₁ => hnew.unique hnew₁ ▸ hprefix
  have hend' : AnsweredFrom answers b' s' := fun new₁ hnew₁ => hnew'.unique hnew₁ ▸ hprefix'
  have hbeside := (alike_syncRecord raw).runs (F := AnsweredFrom answers b)
    (G := AnsweredFrom answers b') (fun _ _ _ _ hstep h => h.back hstep)
    (fun _ _ _ _ hstep h => h.back hstep)
    (fun _ _ _ _ _ _ _ _ _ hlink h hstep hstep' hF hG => h.step hlink hstep hstep' hF hG)
    hstart hrun hrun' hend hend'
  obtain ⟨new₁, new₁', hnew₁, hnew₁', hmap⟩ := hbeside.new
  rw [hnew.unique hnew₁, hnew'.unique hnew₁', hmap]

end TallyConnector
