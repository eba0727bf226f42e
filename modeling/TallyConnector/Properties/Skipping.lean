import TallyConnector.Sync.Refinement
import TallyConnector.World.Groups

/-! # Skipped pushes

A push is skipped because the cached content hash matches. The hash is written
after an acknowledged push only, so it goes stale when an update is applied
and its answer lost (`skipped_stale_groups`). Where no update of the document was
applied since the row was written, the document holds the skipped payload
(`skipped_holds`).
-/

namespace TallyConnector

open Effects

variable {δ : Type} {engine : SyncEngine δ}

/-- Frappe applied no PUT to the document since the cache row was last
written. -/
def untouched (key : CacheKey) (doctype name : String) : List Event → Bool
  | [] => true
  | .cached key' :: log => decide (key' = key) || untouched key doctype name log
  | .put doctype' name' _ :: log =>
      !(decide (doctype' = doctype ∧ name' = name)) && untouched key doctype name log
  | _ :: log => untouched key doctype name log

/-- A push is only skipped while its document is untouched since the cache row
was written. -/
def SyncEngine.skipsUntouched (engine : SyncEngine δ) : Assumed δ :=
  fun e _ w =>
    match e with
    | .result (.unchanged push) =>
        ∀ name, push.frappeName = .str name →
          untouched (engine.cacheKey push.entityName push.naturalKey) push.doctype name w.log = true
    | _ => True

/-- A document holds the payload that was skipped. -/
def Push.HeldIn (push : Push) (docs : List Doc) : Prop :=
  ∃ doc ∈ docs, doc.doctype = push.doctype ∧ push.frappeName = .str doc.name ∧
    doc.Holds push.payload

/-! ## The invariant -/

structure Coherent (engine : SyncEngine δ) (w : World δ) : Prop where
  /-- A hash whose document is untouched is the hash of what it holds. -/
  cache : ∀ (item : Item engine) (row : CacheRow δ), w.db.syncCache item.cacheKey = some row →
    row.contentHash = some item.contentHash →
      untouched item.cacheKey item.doctype row.frappeName w.log = true →
        item.Stored row.frappeName w
  skipped : ∀ push docs, Event.skipped push docs ∈ w.log → push.HeldIn docs

variable {ops : Operation → Prop} {allow : Assumed δ} {w w' : World δ}

theorem Coherent.skipped_cons (h : Coherent engine w) {event : Event}
    (hevent : ∀ push docs, event = Event.skipped push docs → push.HeldIn docs) :
    ∀ push docs, Event.skipped push docs ∈ event :: w.log → push.HeldIn docs := by
  intro push docs hmem
  rcases List.mem_cons.mp hmem with heq | hold
  · exact hevent push docs heq.symm
  · exact h.skipped push docs hold

/-- A new document holds nothing less. -/
theorem coherent_post (h : Coherent engine w) (doctype name : String) (payload : Dict) :
    Coherent engine (w.post doctype name payload) where
  cache := by
    intro item row hrow hhash huntouched
    obtain ⟨doc, hdoc, hrest⟩ := h.cache item row hrow hhash huntouched
    exact ⟨doc, List.mem_cons_of_mem _ hdoc, hrest⟩
  skipped := h.skipped_cons fun _ _ heq => by cases heq

/-- An update touches its own document only. -/
theorem coherent_put (h : Coherent engine w) (doctype name : String) (payload : Dict) :
    Coherent engine (w.put doctype name payload) where
  cache := by
    intro item row hrow hhash huntouched
    simp only [World.put, untouched, Bool.and_eq_true, Bool.not_eq_true',
      decide_eq_false_iff_not] at huntouched
    obtain ⟨doc, hdoc, hdoctype, hname, hholds⟩ := h.cache item row hrow hhash huntouched.2
    refine ⟨doc, mem_putDoc.mpr (.inr ⟨hdoc, fun htarget => ?_⟩), hdoctype, hname, hholds⟩
    exact huntouched.1 ⟨htarget.1.symm.trans hdoctype, htarget.2.symm.trans hname⟩
  skipped := h.skipped_cons fun _ _ heq => by cases heq

/-- A row may be written with the hash of what its document holds. -/
theorem coherent_setCache (h : Coherent engine w) {key : CacheKey} {row : CacheRow δ}
    (hrow : ∀ item : Item engine, item.cacheKey = key →
      row.contentHash = some item.contentHash → item.Stored row.frappeName w) :
    Coherent engine (w.setCache key row) where
  cache := by
    intro item row' hrow' hhash huntouched
    simp only [World.setCache, Function.update_apply] at hrow'
    split at hrow'
    · next hkey =>
      cases hrow'
      exact hrow item hkey hhash
    · next hkey =>
      have hold : untouched item.cacheKey item.doctype row'.frappeName w.log = true := by
        simpa [World.setCache, untouched, Ne.symm hkey] using huntouched
      exact h.cache item row' hrow' hhash hold
  skipped := h.skipped_cons fun _ _ heq => by cases heq

theorem coherent_step (hinj : Function.Injective engine.contentHash)
    (hallow : ∀ e c w, allow e c w → engine.skipsUntouched e c w)
    (hstep : engine.Step ops allow w w') (h : Coherent engine w) : Coherent engine w' := by
  cases hstep with
  | poll doctype filters => exact ⟨h.cache, h.skipped_cons fun _ _ heq => by cases heq⟩
  | post item name choice _ _ _ _ _ => exact coherent_post h _ _ _
  | put item row _ _ _ => exact coherent_put h _ _ _
  | skip item row hrow hhash ha =>
      refine ⟨h.cache, h.skipped_cons fun push docs heq => ?_⟩
      cases heq
      -- the document of the row is as the row says
      have huntouched := hallow _ _ _ ha row.frappeName rfl
      obtain ⟨doc, hdoc, hdoctype, hname, hholds⟩ := h.cache item row hrow hhash huntouched
      exact ⟨doc, hdoc, hdoctype, by rw [hname]; rfl, hholds⟩
  | remember item name at' _ => exact coherent_setCache h fun _ _ hhash => by cases hhash
  | save item name at' _ hstored =>
      refine coherent_setCache h fun item' hkey hhash => ?_
      -- a hash belongs to one payload
      have hpayload := hinj (Option.some.inj hhash)
      have hme : item'.me = item.me := item'.me_of_spec (Item.cacheKey_inj hkey).1 item.hme
      obtain ⟨doc, hdoc, hdoctype, hname, hholds⟩ := hstored
      refine ⟨doc, hdoc, ?_, hname, ?_⟩
      · rw [hdoctype, Item.doctype, Item.doctype, hme]
      · rw [← hpayload]
        exact hholds
  | _ => exact ⟨h.cache, h.skipped⟩

/-! ## Skipping is sound -/

section
variable [DecidableEq δ]

/-- In every run in which a push is only skipped while its document is
untouched since the cache row was written, the document holds the payload of
every push that is reported as unchanged. -/
theorem skipped_holds (hinj : Function.Injective engine.contentHash)
    {c : Config (@Call.Resp δ) Exn (World δ)}
    (hc : (engine.machine fun _ => True).Reach engine.skipsUntouched World.Fresh c)
    {push : Push} {docs : List Doc} (hskipped : Event.skipped push docs ∈ c.world.log) :
    push.HeldIn docs := by
  have hcoherent : Coherent engine c.world := by
    refine engine.invariant (fun w hw => ⟨?_, ?_⟩)
      (fun w w' hstep h => coherent_step hinj (fun _ _ _ ha => ha) hstep h) hc
    · simp [hw.db, DB.empty]
    · simp [hw.log]
  exact hcoherent.skipped push docs hskipped

end

/-- `skipsUntouched`, decided. -/
def SyncEngine.checkSkips (engine : SyncEngine δ) (e : Call δ) (_choice : Choice)
    (w : World δ) : Bool :=
  match e with
  | .result (.unchanged push) =>
      match push.frappeName with
      | .str name =>
          untouched (engine.cacheKey push.entityName push.naturalKey) push.doctype name w.log
      | _ => true
  | _ => true

theorem SyncEngine.skipsUntouched_of_check (engine : SyncEngine δ) (e : Call δ)
    (choice : Choice) (w : World δ) (h : engine.checkSkips e choice w = true) :
    engine.skipsUntouched e choice w := by
  cases e with
  | result op =>
      cases op with
      | unchanged push =>
          intro name hname
          simpa only [checkSkips, hname] using h
      | _ => trivial
  | _ => trivial

/-- A skipped push in the log. -/
theorem exists_skipped {log : List Event} {p : Push → List Doc → Bool}
    (h : log.any (fun event => match event with
      | .skipped push docs => p push docs
      | _ => false) = true) :
    ∃ push docs, Event.skipped push docs ∈ log ∧ p push docs = true := by
  obtain ⟨event, hmem, hp⟩ := List.any_eq_true.mp h
  cases event with
  | skipped push docs => exact ⟨push, docs, hmem, hp⟩
  | _ => cases hp

/-- A group is synced twice; the second push is skipped. -/
theorem skipped_holds_groups :
    let assets : Group := { guid := "g-1", name := "Assets", alterId := 1 }
    let engine := groupEngine 1 [[assets]]
    ∃ c, (engine.machine fun _ => True).Reach engine.skipsUntouched World.Fresh c ∧
      ∃ push docs, Event.skipped push docs ∈ c.world.log ∧ push.HeldIn docs := by
  intro assets engine
  have hinit : (groupWorld (groupCompany [assets] 1)).Fresh := ⟨rfl, rfl, rfl, rfl⟩
  obtain ⟨c, hc, hfinal⟩ := Machine.Reach.exists_of_run (M := engine.machine fun _ => True)
    engine.skipsUntouched_of_check hinit
    [.start ⟨.fullSync, trivial⟩, .call .inMemory, .call (groupResponse [assets]),
      .call .inMemory, .call .commit, .call (.serve "" []), .call .commit,
      .call (.serve "GRP-1" []), .call .inMemory, .call (.clock 0), .call .commit,
      .call (.clock 0), .call (.clock 0), .call .commit, .call .inMemory, .finish,
      -- again
      .start ⟨.fullSync, trivial⟩, .call .inMemory, .call (groupResponse [assets]),
      .call .inMemory, .call .commit, .call .commit, .call .inMemory]
    (fun c => c.world.log.any fun event => match event with
      | .skipped _ _ => true
      | _ => false)
    (by decide +kernel)
  obtain ⟨push, docs, hskipped, -⟩ := exists_skipped (p := fun _ _ => true) hfinal
  exact ⟨c, hc, push, docs, hskipped,
    skipped_holds (contentHash_groupEngine_injective _ _) hc hskipped⟩

/-- A mapping of groups without their `alter_id`. -/
def titleMapping : MappingEntry where
  entityName := "group"
  frappeDoctype := "Tally Group"
  fieldMap := [("guid", "tally_guid"), ("name", "title")]
  nodup := by decide

/-- A renaming is applied and its answer lost, then the group gets its old
name back: that push is skipped, and the document keeps the lost name. -/
theorem skipped_stale_groups :
    let assets : Group := { guid := "g-1", name := "Assets", alterId := 1 }
    let renamed : Group := { guid := "g-1", name := "Fixed Assets", alterId := 2 }
    let restored : Group := { guid := "g-1", name := "Assets", alterId := 3 }
    let engine : SyncEngine Dict :=
      { groupEngine 1 [[assets], [renamed], [restored]] with
        mapping := groupsOnly titleMapping rfl }
    Function.Injective engine.contentHash ∧
      ∃ c, (engine.machine fun _ => True).Reach engine.snapshots World.Fresh c ∧
        ∃ push docs, Event.skipped push docs ∈ c.world.log ∧ ¬ push.HeldIn docs := by
  intro assets renamed restored engine
  refine ⟨fun _ _ h => h, ?_⟩
  have hinit : (groupWorld (groupCompany [assets] 1)).Fresh := ⟨rfl, rfl, rfl, rfl⟩
  obtain ⟨c, hc, hfinal⟩ := Machine.Reach.exists_of_run (M := engine.machine fun _ => True)
    engine.snapshots_of_check hinit
    [.start ⟨.fullSync, trivial⟩, .call .inMemory, .call (groupResponse [assets]),
      .call .inMemory, .call .commit, .call (.serve "" []), .call .commit,
      .call (.serve "GRP-1" []), .call .inMemory, .call (.clock 0), .call .commit,
      .call (.clock 0), .call (.clock 0), .call .commit, .call .inMemory, .finish,
      -- the renaming, its answer lost
      .edit (groupCompany [renamed] 2), .start ⟨.incrementalSync, trivial⟩, .call .commit,
      .call .inMemory, .call (groupResponse [renamed]), .call .inMemory,
      .call .commit, .call .commit, .call (.lose "" (.timeout "Read timed out.")),
      .call .inMemory, .call (.clock 0), .call (.clock 0), .call .commit,
      .call (.clock 0), .call (.clock 0), .call .commit, .call .inMemory, .finish,
      -- the old name
      .edit (groupCompany [restored] 3), .start ⟨.incrementalSync, trivial⟩, .call .commit,
      .call .inMemory, .call (groupResponse [restored]), .call .inMemory,
      .call .commit, .call .commit, .call .inMemory]
    (fun c => c.world.log.any fun event => match event with
      | .skipped push docs =>
          decide (push.payload.lookup "title" = some (.str "Assets") ∧
            ∀ doc ∈ docs, doc.fields.lookup "title" = some (.str "Fixed Assets"))
      | _ => false)
    (by decide +kernel)
  obtain ⟨push, docs, hskipped, htitles⟩ := exists_skipped hfinal
  obtain ⟨htitle, hdocs⟩ := of_decide_eq_true htitles
  refine ⟨c, hc, push, docs, hskipped, ?_⟩
  rintro ⟨doc, hdoc, -, -, hholds⟩
  have hheld := hholds "title" _ htitle
  rw [hdocs doc hdoc] at hheld
  simp at hheld

end TallyConnector
