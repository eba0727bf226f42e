import TallyConnector.Sync.Rules

/-! # What a program has done when it returns

Any call may fail, and be retried as the code does; the rules here say what
holds of the world when a program returns normally. About a run that ends in
an exception they say nothing.
-/

namespace TallyConnector

open Effects Prog

variable {δ : Type} {engine : SyncEngine δ} {α β : Type}

/-- The calls of a process, answered in any way. -/
def SyncEngine.answers (engine : SyncEngine δ) : Answering (@Call.Resp δ) (World δ) :=
  fun e w r w' => ∃ c, engine.exec e c w = some (r, w')

/-- What the program returns and the world it leaves meet `I`. -/
def SyncEngine.Returns (engine : SyncEngine δ) (I : α → World δ → Prop) (p : Py δ α)
    (w : World δ) : Prop :=
  p.Always engine.answers (fun r w' => ∀ a, r = .ok a → I a w') w

variable {w : World δ} {I : α → World δ → Prop}

theorem returns_pure {a : α} (h : I a w) : engine.Returns I (pure a) w := by
  intro b hb
  cases hb
  exact h

theorem returns_ofExcept {r : Except Exn α} (h : ∀ a, r = .ok a → I a w) :
    engine.Returns I (Prog.ofExcept r) w := .ofExcept h

theorem Returns.bind {I : β → World δ → Prop} {p : Py δ α} {f : α → Py δ β}
    (h : engine.Returns (fun a w' => engine.Returns I (f a) w') p w) :
    engine.Returns I (p >>= f) w := by
  refine Always.bind (Always.mono h fun r w' hr => ?_)
  cases r with
  | ok a => exact hr a rfl
  | error exc =>
    intro b hb
    cases hb

/-! ## Calls -/

theorem returns_clock {I : Int → World δ → Prop} (h : ∀ now, I now w) :
    engine.Returns I clock w := by
  rintro now w' ⟨c, hc⟩
  cases c <;> cases hc
  exact returns_pure (h now)

theorem returns_resultOp {op : ResultOp} {I : EntitySyncResult → World δ → Prop}
    (h : I (w.applyResult op).result (w.applyResult op)) :
    engine.Returns I (resultOp op) w := by
  rintro result w' ⟨c, hc⟩
  cases c <;> cases hc
  exact returns_pure h

/-- A statement that did not raise was committed. -/
theorem returns_sql {stmt : Stmt δ} {I : stmt.Result → World δ → Prop}
    (h : ∀ result db, w.db.exec stmt = .ok (result, db) → I result (w.commit stmt db)) :
    engine.Returns I (sql stmt) w := by
  refine Returns.bind ?_
  rintro r w' ⟨c, hc⟩
  intro a ha
  cases ha
  refine returns_ofExcept fun result hresult => ?_
  rcases exec_sql hc with ⟨result', db, hexec, hr, rfl⟩ | ⟨exc, -, hr, -⟩
  · rw [hr] at hresult
    cases hresult
    exact h _ db hexec
  · rw [hr] at hresult
    cases hresult

theorem returns_selectCache {key : CacheKey} {I : Option (CacheRow δ) → World δ → Prop}
    (h : I (w.db.syncCache key) w) : engine.Returns I (sql (.selectCache key)) w := by
  refine returns_sql fun result db hexec => ?_
  cases hexec
  exact h

theorem returns_upsertCache {store : StateStore δ} {key : CacheKey} {name doctype : String}
    {hash : Option δ} {I : Unit → World δ → Prop}
    (h : ∀ lastPushedAt, I () (w.setCache key ⟨name, doctype, hash, lastPushedAt⟩)) :
    engine.Returns I (store.upsertCache key (.str name) doctype hash) w := by
  refine Returns.bind (Returns.bind (returns_clock fun now => returns_pure ?_))
  refine returns_sql fun result db hexec => ?_
  cases hexec
  exact h _

/-! ## Requests -/

/-- A request that returned: the attempts before the last one failed and kept
`J`. -/
theorem returns_request {request : FrappeRequest} {J : World δ → Prop}
    {I : Json → World δ → Prop} (hw : J w)
    (hfails : ∀ c outcome w w', J w → engine.exec (.frappe request) c w = some (outcome, w') →
      engine.fails outcome = true → J w')
    (hanswer : ∀ c outcome value w w', J w →
      engine.exec (.frappe request) c w = some (outcome, w') →
      engine.frappe.readOutcome outcome = .ok value → I value w') :
    engine.Returns I (engine.frappe.request request) w := by
  refine .tryCatch ?_
  refine always_retrying (I := J) (fun w hw => .bind ?_) hw
  rintro outcome w' ⟨c, hc⟩
  change (Prog.ofExcept (engine.frappe.readOutcome outcome)).Always _ _ w'
  cases hread : engine.frappe.readOutcome outcome with
  | ok value =>
    refine ⟨fun value' h => ?_, fun exc h => by cases h⟩
    cases h
    exact hanswer c outcome value w w' hw hc hread
  | error exc =>
    have hfailed : engine.fails outcome = true := by
      simp [SyncEngine.fails, hread, Except.toOption]
    refine ⟨?_, fun _ _ => hfails c outcome w w' hw hc hfailed⟩
    dsimp only
    split
    · -- a connection that fails is reported as such
      intro value h
      cases h
    · intro value h
      cases h

/-- A GET finds the matches, in some order. -/
theorem returns_get {doctype : String} {filters : List (String × Json)} {fields : List String}
    {I : Json → World δ → Prop}
    (h : ∀ (order : List Doc) log, order.Perm (matching w.docs doctype filters) →
      I (.list (order.map fun doc => .obj [("name", .str doc.name)])) { w with log := log }) :
    engine.Returns I (engine.frappe.get doctype filters fields) w := by
  refine Returns.bind (returns_request (J := fun w₁ => w₁ = w) rfl ?_ ?_)
  · rintro c outcome w₁ w' rfl hc hfails
    rcases exec_get hc with ⟨-, rfl⟩ | ⟨order, horder, rfl, rfl⟩
    · rfl
    · cases hfails
  · rintro c outcome value w₁ w' rfl hc hread
    rcases exec_get hc with ⟨hfails, -⟩ | ⟨order, horder, rfl, rfl⟩
    · rcases readOutcome_of_fails hfails with ⟨exc, hexc⟩
      rw [hexc] at hread
      cases hread
    · cases hread
      exact returns_ofExcept fun found hfound => by
        cases hfound
        exact h order _ horder

/-- A POST that returned made a new document; attempts before it may have made
others. -/
theorem returns_create {doctype : String} {payload : Dict} {I : Json → World δ → Prop}
    (h : ∀ name (w₁ : World δ), w₁.db = w.db → FreshName w₁.docs doctype name →
      I (.obj [("name", .str name)]) (w₁.post doctype name payload)) :
    engine.Returns I (engine.frappe.create doctype payload) w := by
  refine Returns.bind (returns_request (J := fun w₁ => w₁.db = w.db) rfl ?_ ?_)
  · intro c outcome w₁ w' hw₁ hc _
    rcases exec_post hc with ⟨-, rfl⟩ | ⟨name, -, rfl, -⟩
    · exact hw₁
    · exact hw₁
  · intro c outcome value w₁ w' hw₁ hc hread
    have hnot : ¬ engine.fails outcome = true := by
      simp [SyncEngine.fails, hread, Except.toOption]
    rcases exec_post hc with ⟨hfails, -⟩ | ⟨name, hfresh, rfl, ⟨hfails, -⟩ | ⟨rfl, -⟩⟩
    · exact absurd hfails hnot
    · exact absurd hfails hnot
    · cases hread
      exact returns_ofExcept fun created hcreated => by
        cases hcreated
        exact h name w₁ hw₁ hfresh

/-- A PUT that returned overwrote the document, however often it was sent. -/
theorem returns_update {doctype name : String} {payload : Dict} {I : Json → World δ → Prop}
    (hname : name ≠ "")
    (h : ∀ value (w' : World δ), w'.db = w.db →
      w'.docs = putDoc w.docs doctype name payload → I value w') :
    engine.Returns I (engine.frappe.update doctype (.str name) payload) w := by
  have hput : ∀ w₁ : World δ, w₁.docs = w.docs ∨ w₁.docs = putDoc w.docs doctype name payload →
      putDoc w₁.docs doctype name payload = putDoc w.docs doctype name payload := by
    rintro w₁ (hdocs | hdocs)
    · rw [hdocs]
    · rw [hdocs, putDoc_putDoc]
  unfold FrappeClient.update
  rw [if_pos (Json.truthy_str.mpr hname)]
  refine Returns.bind (returns_request (J := fun w₁ => w₁.db = w.db ∧
    (w₁.docs = w.docs ∨ w₁.docs = putDoc w.docs doctype name payload)) ⟨rfl, .inl rfl⟩ ?_ ?_)
  · intro c outcome w₁ w' hw₁ hc _
    rcases exec_put hc with ⟨-, rfl⟩ | ⟨-, rfl, -⟩
    · exact hw₁
    · exact ⟨hw₁.1, .inr (hput w₁ hw₁.2)⟩
  · intro c outcome value w₁ w' hw₁ hc hread
    have hnot : ¬ engine.fails outcome = true := by
      simp [SyncEngine.fails, hread, Except.toOption]
    rcases exec_put hc with ⟨hfails, -⟩ | ⟨-, rfl, -⟩
    · exact absurd hfails hnot
    · exact returns_ofExcept fun value _ => h value _ hw₁.1 (hput w₁ hw₁.2)

end TallyConnector
