import TallyConnector.Properties.Convergence
import TallyConnector.Sync.Outcomes

/-! # Renamed doctypes

The mapping may be edited between operations. A cache row is found by entity,
natural key and base URL, and names a document of the doctype it was written
for; `find_existing` does not compare that doctype with the one the mapping
has now. Where the rows that are looked up were written for the doctype of
today, no name crosses over.
-/

namespace TallyConnector

open Effects Prog

variable {δ : Type} {engine : SyncEngine δ} {allow : Assumed δ} {spec : EntitySpec}
variable {w w' : World δ} {doctype name : String}

/-! ## Documents stay -/

theorem hasDoc_postDoc {docs : List Doc} (doctype' name' : String) (payload : Dict)
    (h : hasDoc docs doctype name = true) :
    hasDoc (postDoc docs doctype' name' payload) doctype name = true := by
  obtain ⟨doc, hdoc, hrest⟩ := hasDoc_iff.mp h
  exact hasDoc_iff.mpr ⟨doc, List.mem_cons_of_mem _ hdoc, hrest⟩

theorem hasDoc_putDoc {docs : List Doc} (doctype' name' : String) (payload : Dict)
    (h : hasDoc docs doctype name = true) :
    hasDoc (putDoc docs doctype' name' payload) doctype name = true := by
  obtain ⟨doc, hdoc, hrest⟩ := hasDoc_iff.mp h
  by_cases htarget : doc.doctype = doctype' ∧ doc.name = name'
  · exact hasDoc_iff.mpr ⟨doc.merge payload, mem_putDoc.mpr (.inl ⟨doc, hdoc, htarget, rfl⟩), hrest⟩
  · exact hasDoc_iff.mpr ⟨doc, mem_putDoc.mpr (.inr ⟨hdoc, htarget⟩), hrest⟩

/-! ## Rows and their doctypes -/

/-- Every usable cache row names a document of the doctype it was written for. -/
def Homed (w : World δ) : Prop :=
  ∀ key row, w.db.syncCache key = some row → row.frappeName ≠ "" →
    hasDoc w.docs row.frappeDoctype row.frappeName = true

theorem Homed.mono (h : Homed w) (hcache : w'.db.syncCache = w.db.syncCache)
    (hdocs : ∀ doctype name, hasDoc w.docs doctype name = true →
      hasDoc w'.docs doctype name = true) : Homed w' := by
  intro key row hrow hname
  rw [hcache] at hrow
  exact hdocs _ _ (h key row hrow hname)

theorem Homed.setCache (h : Homed w) (key : CacheKey) {row : CacheRow δ}
    (hrow : hasDoc w.docs row.frappeDoctype row.frappeName = true) :
    Homed (w.setCache key row) := by
  intro key' row' hrow' hname
  simp only [World.setCache, Function.update_apply] at hrow'
  split at hrow'
  · cases hrow'
    exact hrow
  · exact h key' row' hrow' hname

/-- No step of the protocol, under any mapping, makes a row lose its document. -/
theorem homed_step {ops : Operation → Prop} (hstep : engine.Step ops allow w w') (h : Homed w) :
    Homed w' := by
  cases hstep with
  | post item name choice _ _ _ _ _ => exact h.mono rfl fun _ _ => hasDoc_postDoc _ _ _
  | put item row _ _ _ => exact h.mono rfl fun _ _ => hasDoc_putDoc _ _ _
  | remember item name lastPushedAt hdoc =>
    rcases hdoc with ⟨doc, hmem, rfl⟩
    have hdoctype := mem_carriers.mp hmem
    exact h.setCache _ (hasDoc_iff.mpr ⟨doc, hdoctype.1, hdoctype.2.1, rfl⟩)
  | save item name lastPushedAt _ hstored =>
    rcases hstored with ⟨doc, hmem, hdoctype, hname, -⟩
    exact h.setCache _ (hasDoc_iff.mpr ⟨doc, hmem, hdoctype, hname⟩)
  | _ => exact h

namespace SyncEngine

/-- The engine with another mapping. -/
def remap (engine : SyncEngine δ) (mapping : Mapping) : SyncEngine δ :=
  { engine with mapping := mapping }

/-- The worlds of the runs in which the mapping is replaced any number of
times; under each mapping there are any operations, edits of the company,
failures and crashes. -/
inductive Remapped [DecidableEq δ] (engine : SyncEngine δ) : World δ → Prop
  | start {w : World δ} (hfresh : w.Fresh) : Remapped engine w
  | era (mapping : Mapping) {w : World δ} {c : Config (@Call.Resp δ) Exn (World δ)}
      (hbefore : Remapped engine w)
      (hrun : ((engine.remap mapping).machine fun _ => True).Reach (fun _ _ _ => True) (w = ·) c) :
      Remapped engine c.world

/-- What a lookup finds was written for the doctype that the mapping has now. -/
def keepsDoctype (engine : SyncEngine δ) : Assumed δ :=
  fun e _ w =>
    match e with
    | .sql (.selectCache key) =>
        ∀ row me, w.db.syncCache key = some row → row.frappeName ≠ "" →
          engine.mapping.entry key.entityName = some me → row.frappeDoctype = me.frappeDoctype
    | _ => True

/-- Tally's good answers for an entity hold these records. -/
def responds (engine : SyncEngine δ) (responses : EntitySpec → List Record) : Assumed δ :=
  fun e c _ =>
    match e, c with
    | .tally request, .tally outcome =>
        ∀ spec ∈ engine.registry.specs, spec.name = request.entityName →
          ∀ records, engine.recordsOf spec outcome = .ok records → records = responses spec
    | _, _ => True

theorem Remapped.homed [DecidableEq δ] (h : engine.Remapped w) : Homed w := by
  induction h with
  | start hfresh =>
    intro key row hrow
    simp [hfresh.db, DB.empty] at hrow
  | era mapping hbefore hrun ih =>
    refine (engine.remap mapping).invariant ?_ (fun w w' hstep => homed_step hstep) hrun
    rintro w rfl
    exact ih

end SyncEngine

/-! ## Looking a record up -/

/-- Whatever is answered, the name that `find_existing` returns is one of a
document of the entry's doctype, if the cache row it hits is of that doctype. -/
theorem returns_findExisting_doctype [DecidableEq δ] (item : Item engine) (h : Homed w)
    (hrow : ∀ row, w.db.syncCache item.cacheKey = some row → row.frappeName ≠ "" →
      row.frappeDoctype = item.doctype) :
    engine.Returns
      (fun found w' => ∀ name, found = .str name → hasDoc w'.docs item.doctype name = true)
      (findExisting engine.store engine.frappe item.me item.spec.naturalKeyField item.key) w := by
  unfold findExisting
  simp only [item.cacheKey_me]
  refine Returns.bind (Returns.bind (returns_selectCache (returns_pure ?_)))
  split
  · -- a usable cached name
    next name hname =>
    obtain ⟨hmap, hne⟩ := Option.filter_eq_some_iff.mp hname
    obtain ⟨row, hcached, rfl⟩ := Option.map_eq_some_iff.mp hmap
    have husable : row.frappeName ≠ "" := by simpa using hne
    refine returns_pure fun name hfound => ?_
    cases hfound
    rw [← hrow row hcached husable]
    exact h item.cacheKey row hcached husable
  · refine Returns.bind (returns_get fun order log horder => ?_)
    cases order with
    | nil =>
      refine returns_pure fun name hfound => ?_
      cases hfound
    | cons doc docs =>
      refine Returns.bind (returns_ofExcept fun found hfound => ?_)
      cases hfound
      refine Returns.bind (returns_upsertCache fun lastPushedAt => returns_pure fun name hname => ?_)
      cases hname
      have hdoc := mem_carriers.mp (horder.mem_iff.mp (List.mem_cons_self (a := doc)))
      exact hasDoc_iff.mpr ⟨doc, hdoc.1, hdoc.2.1, rfl⟩

/-! ## Pushing records -/

/-- The connector has a document of the item's own doctype for its record. -/
def Item.Linked (item : Item engine) (w : World δ) : Prop :=
  ∃ row, w.db.syncCache item.cacheKey = some row ∧ row.frappeName ≠ "" ∧
    row.frappeDoctype = item.doctype ∧ hasDoc w.docs item.doctype row.frappeName = true

section effects

variable {item : Item engine}

theorem Item.Effect.hasDoc (h : item.Effect allow w w') (hdoc : hasDoc w.docs doctype name = true) :
    hasDoc w'.docs doctype name = true := by
  cases h with
  | skip row _ _ _ _ => exact hdoc
  | update name _ _ _ _ _ hdocs =>
    rw [hdocs]
    exact hasDoc_putDoc _ _ _ hdoc
  | create name _ _ _ _ hdocs =>
    rw [hdocs]
    exact hasDoc_postDoc _ _ _ hdoc

/-- After a push the item's row names a document of its doctype, if the row it
may have hit did, and all other rows are as they were. -/
theorem Item.Effect.linked (h : item.Effect allow w w') (hw : Homed w)
    (hallow : ∀ e c w, allow e c w → engine.keepsDoctype e c w) :
    item.Linked w' ∧ ∀ key, key ≠ item.cacheKey → w'.db.syncCache key = w.db.syncCache key := by
  have hsaved : ∀ {name : String}, item.Saved name w w' → name ≠ "" →
      TallyConnector.hasDoc w'.docs item.doctype name = true →
        item.Linked w' ∧
          ∀ key, key ≠ item.cacheKey → w'.db.syncCache key = w.db.syncCache key := by
    intro name hsaved hname hdoc
    obtain ⟨lastPushedAt, hdb⟩ := hsaved.db
    rw [hdb]
    refine ⟨⟨⟨name, item.doctype, some item.contentHash, lastPushedAt⟩, ?_, hname, rfl, hdoc⟩,
      fun key hkey => Function.update_of_ne hkey _ _⟩
    rw [hdb]
    exact Function.update_self ..
  cases h with
  | skip row hlookup hrow hname _ =>
    -- the row that was hit is of the item's doctype
    have hdoctype : row.frappeDoctype = item.doctype :=
      hallow _ _ _ hlookup row item.me hrow hname item.hme
    have hdoc := hw item.cacheKey row hrow hname
    rw [hdoctype] at hdoc
    exact ⟨⟨row, hrow, hname, hdoctype, hdoc⟩, fun _ _ => rfl⟩
  | update name _ h hname _ hdoc hdocs =>
    refine hsaved h hname ?_
    rw [hdocs]
    exact hasDoc_putDoc _ _ _ hdoc
  | create name _ h _ hfresh hdocs =>
    refine hsaved h hfresh.1 ?_
    rw [hdocs]
    exact hasDoc_iff.mpr ⟨_, List.mem_cons_self, rfl, rfl⟩

theorem Item.Effect.homed (h : item.Effect allow w w') (hw : Homed w)
    (hallow : ∀ e c w, allow e c w → engine.keepsDoctype e c w) : Homed w' := by
  obtain ⟨⟨row', hrow', -, hdoctype, hdoc⟩, hothers⟩ := h.linked hw hallow
  intro key row hrow hname
  by_cases hkey : key = item.cacheKey
  · subst hkey
    cases hrow'.symm.trans hrow
    rw [hdoctype]
    exact hdoc
  · rw [hothers key hkey] at hrow
    exact h.hasDoc (hw key row hrow hname)

/-- A linked record stays linked, whichever record is pushed. -/
theorem Item.Linked.effect {item' : Item engine} (h : item'.Linked w)
    (heffect : item.Effect allow w w') (hw : Homed w)
    (hallow : ∀ e c w, allow e c w → engine.keepsDoctype e c w) : item'.Linked w' := by
  have hlinked := heffect.linked hw hallow
  by_cases hkey : item'.cacheKey = item.cacheKey
  · -- the same natural key of the same entity
    have hspec : item'.spec = item.spec := (Item.cacheKey_inj hkey).1
    have hdoctype : item'.doctype = item.doctype :=
      congrArg MappingEntry.frappeDoctype (item'.me_of_spec hspec item.hme)
    unfold Item.Linked
    rw [hkey, hdoctype]
    exact hlinked.1
  · obtain ⟨row, hrow, hname, hdoctype, hdoc⟩ := h
    exact ⟨row, (hlinked.2 _ hkey).trans hrow, hname, hdoctype, heffect.hasDoc hdoc⟩

end effects

/-! ## A full sync -/

/-- What the connector assumes of a full sync under one mapping. -/
def SyncEngine.conforming (engine : SyncEngine δ) (responses : EntitySpec → List Record) :
    Assumed δ :=
  fun e c w => engine.keepsDoctype e c w ∧ engine.responds responses e c w

/-- What the sync of an entity keeps of what was there before. -/
structure Carried (engine : SyncEngine δ) (specs : List EntitySpec) (w w' : World δ) : Prop where
  homed : Homed w'
  linked : ∀ item : Item engine, item.Linked w → item.Linked w'
  syncState : ∀ entityName, entityName ∉ specs.map (·.name) →
    w'.db.syncState entityName = w.db.syncState entityName

/-- Every pushable record of the entity's response is linked, if it was
fetched. -/
def SyncEngine.Filed (engine : SyncEngine δ) (responses : EntitySpec → List Record)
    (spec : EntitySpec) (w : World δ) : Prop :=
  w.FetchedOk spec → ∀ item : Item engine, item.spec = spec → item.raw ∈ responses spec →
    item.Linked w

section cycle

variable [DecidableEq δ] {responses : EntitySpec → List Record}

/-- What holds after some records of the entity, while it is synced. -/
structure Filing (engine : SyncEngine δ) (spec : EntitySpec) (w₀ : World δ) (done : List Record)
    (w : World δ) : Prop where
  homed : Homed w
  linked : ∀ item : Item engine, item.Linked w₀ → item.Linked w
  syncState : w.db.syncState = w₀.db.syncState
  filed : ∀ item : Item engine, item.spec = spec → item.raw ∈ done → item.Linked w

omit [DecidableEq δ] in
theorem Filing.setResult {w₀ : World δ} {done : List Record}
    (h : Filing engine spec w₀ done w) (result : EntitySyncResult) :
    Filing engine spec w₀ done (w.setResult result) :=
  ⟨h.homed, h.linked, h.syncState, h.filed⟩

omit [DecidableEq δ] in
theorem Filing.keyless {w₀ : World δ} {done : List Record} {raw : Record}
    (h : Filing engine spec w₀ done w) (hkey : spec.keyOf raw = none)
    (result : EntitySyncResult) : Filing engine spec w₀ (raw :: done) (w.setResult result) where
  homed := h.homed
  linked := h.linked
  syncState := h.syncState
  filed := by
    intro item hspec hmem
    rcases List.mem_cons.mp hmem with hraw | hdone
    · rw [← hraw, ← hspec, item.keyOf_raw] at hkey
      cases hkey
    · exact h.filed item hspec hdone

omit [DecidableEq δ] in
theorem Filing.push {w₀ : World δ} {done : List Record} {item : Item engine}
    (h : Filing engine item.spec w₀ done w) (heffect : item.Effect allow w w')
    (hallow : ∀ e c w, allow e c w → engine.keepsDoctype e c w) :
    Filing engine item.spec w₀ (item.raw :: done) w' where
  homed := heffect.homed h.homed hallow
  linked := fun item' hlinked => (h.linked item' hlinked).effect heffect h.homed hallow
  syncState := heffect.syncState.trans h.syncState
  filed := by
    intro item' hspec hmem
    rcases List.mem_cons.mp hmem with hraw | hdone
    · rw [Item.eq_of_raw hspec hraw]
      exact (heffect.linked h.homed hallow).1
    · exact (h.filed item' hspec hdone).effect heffect h.homed hallow

omit [DecidableEq δ] in
/-- Writing the entity's checkpoint. -/
theorem Filing.carried {w₀ : World δ} {done : List Record} (h : Filing engine spec w₀ done w)
    (row : SyncStateRow) : Carried engine [spec] w₀ (w.checkpoint spec.name row) where
  homed := h.homed
  linked := h.linked
  syncState := by
    intro entityName hnot
    have hne : entityName ≠ spec.name := by simpa using hnot
    refine (Function.update_of_ne hne _ _).trans ?_
    rw [h.syncState]

theorem calm_syncEntity_filed {since : Option Int} {dateFrom dateTo : Option Date}
    (hspec : spec ∈ engine.registry.specs) (hw : Homed w) :
    (engine.syncEntity spec since dateFrom dateTo).Always
      (engine.calm (engine.conforming responses))
      (fun r w' => Carried engine [spec] w w' ∧
        ∀ result, r = .ok result → engine.Filed responses spec w') w := by
  have hstart : ∀ w₁ result, w.SameButFetch w₁ →
      Filing engine spec w [] (w₁.setResult result) := by
    rintro w₁ result ⟨fetched, rfl⟩
    exact ⟨hw, fun _ h => h, rfl, fun _ _ h => absurd h List.not_mem_nil⟩
  refine calm_syncEntity (fun exc w₁ result hsame => ?_) (fun w₁ result row hsame hrow hstatus => ?_)
    fun outcome records result hanswered hrecords => ?_
  · have h := hstart w₁ result hsame
    exact ⟨⟨h.homed, h.linked, fun _ _ => congrFun h.syncState _⟩, fun _ hr => nomatch hr⟩
  · -- the fetch failed
    refine ⟨(hstart w₁ result hsame).carried row, fun _ _ hok => ?_⟩
    obtain ⟨row', hrow', hok⟩ := hok
    have heq : row = row' := by simpa [World.checkpoint] using hrow'
    rw [← heq, hstatus] at hok
    exact absurd hok (by decide)
  · obtain ⟨w₁, -, hallowed⟩ := hanswered
    obtain rfl : records = responses spec := hallowed.2 spec hspec rfl records hrecords
    have hfetched := hstart _ result (w.sameButFetch_fetch
      (engine.collectionRequest spec since dateFrom dateTo) outcome)
    cases hme : engine.mapping.entry spec.name with
    | none =>
      refine calm_syncRecords_unmapped.mono fun r w' hr => ?_
      obtain ⟨rfl, result', rfl⟩ := hr
      refine ⟨rfl, fun row _ _ => ⟨(hfetched.setResult result').carried row,
        fun _ _ _ item hitem _ => ?_⟩⟩
      have hmapped := item.hme
      rw [hitem, hme] at hmapped
      cases hmapped
    | some me =>
      refine (calm_syncRecords (I := Filing engine spec w) (responses spec) hspec hme
        (fun done raw w₂ result _ hkey h => h.keyless hkey result)
        (fun done item w₂ w₃ hitem _ heffect h => ?_) (List.Subset.refl _) hfetched).mono
          fun r w' hr => ?_
      · subst hitem
        exact h.push heffect fun _ _ _ ha => ha.1
      · obtain ⟨rfl, hfiling⟩ := hr
        refine ⟨rfl, fun row _ _ => ⟨hfiling.carried row, fun _ _ _ item hitem hraw => ?_⟩⟩
        have hdone : item.raw ∈ (responses spec).reverse ++ [] := by simpa using hraw
        exact hfiling.filed item hitem hdone

theorem calm_syncEntities_filed {specs : List EntitySpec}
    (hspecs : specs ⊆ engine.registry.specs) (hnodup : (specs.map (·.name)).Nodup)
    (hw : Homed w) :
    (engine.syncEntities false specs).Always (engine.calm (engine.conforming responses))
      (fun r w' => Carried engine specs w w' ∧ ∀ results, r = .ok results →
        ∀ spec ∈ specs, engine.Filed responses spec w') w := by
  induction specs generalizing w with
  | nil => exact ⟨⟨hw, fun _ h => h, fun _ _ => rfl⟩, fun _ _ _ h => absurd h List.not_mem_nil⟩
  | cons spec specs ih =>
    rw [List.map_cons, List.nodup_cons] at hnodup
    have hspec : spec ∈ engine.registry.specs := hspecs List.mem_cons_self
    have hthis : ∀ entityName, entityName ∉ (spec :: specs).map (·.name) →
        entityName ∉ [spec].map (·.name) ∧ entityName ∉ specs.map (·.name) := by
      intro entityName hnot
      rw [List.map_cons, List.mem_cons, not_or] at hnot
      exact ⟨by simpa using hnot.1, hnot.2⟩
    -- a full sync starts each entity without a checkpoint
    have hstart : (engine.sinceAlterId false spec).Always
        (engine.calm (engine.conforming responses)) (fun r w' => r = .ok none ∧ w' = w) w :=
      ⟨rfl, rfl⟩
    refine .bind (hstart.mono fun r w₀ hr => ?_)
    obtain ⟨rfl, rfl⟩ := hr
    refine .bind ((calm_syncEntity_filed hspec hw).mono fun r w₁ hr => ?_)
    obtain ⟨hfirst, hfiled⟩ := hr
    cases r with
    | error exc =>
      exact ⟨⟨hfirst.homed, hfirst.linked, fun entityName hnot =>
        hfirst.syncState entityName (hthis _ hnot).1⟩, fun _ hr => nomatch hr⟩
    | ok result =>
      refine .bind ((ih (fun _ h => hspecs (List.mem_cons_of_mem _ h)) hnodup.2
        hfirst.homed).mono fun r w₂ hr => ?_)
      obtain ⟨hrest, hrestfiled⟩ := hr
      have hall : Carried engine (spec :: specs) w₀ w₂ := by
        refine ⟨hrest.homed, fun item h => hrest.linked item (hfirst.linked item h),
          fun entityName hnot => ?_⟩
        rw [hrest.syncState entityName (hthis _ hnot).2,
          hfirst.syncState entityName (hthis _ hnot).1]
      cases r with
      | error exc => exact ⟨hall, fun _ hr => nomatch hr⟩
      | ok results =>
        refine ⟨hall, fun _ _ spec' hmem => ?_⟩
        rcases List.mem_cons.mp hmem with rfl | hmem'
        · -- the later entities leave its rows and its checkpoint alone
          rintro ⟨row, hrow, hstatus⟩ item hitem hraw
          have hok : w₁.FetchedOk spec' := by
            rw [hrest.syncState _ hnodup.1] at hrow
            exact ⟨row, hrow, hstatus⟩
          exact hrest.linked item (hfiled result rfl hok item hitem hraw)
        · exact hrestfiled results rfl spec' hmem'

/-- A full sync in which what the lookups hit is of the doctypes of today. -/
theorem calm_fullSync_filed (hw : Homed w) :
    (engine.prog .fullSync).Always (engine.calm (engine.conforming responses))
      (fun r w' => r = .ok () → ∀ spec ∈ engine.registry.specs, engine.Filed responses spec w')
      w := by
  have hcycle : (engine.runCycle false).Always (engine.calm (engine.conforming responses))
      (fun r w' => ∀ results, r = .ok results →
        ∀ spec ∈ engine.registry.specs, engine.Filed responses spec w') w := by
    refine .bind (.ofExcept ?_)
    cases horder : engine.registry.resolveSyncOrder with
    | error exc => exact fun _ hr => nomatch hr
    | ok order =>
      have hperm := engine.registry.resolveSyncOrder_perm horder
      have hnodup : (order.map (·.name)).Nodup :=
        (hperm.map (·.name)).nodup_iff.mpr engine.registry.nodup
      refine (calm_syncEntities_filed hperm.subset hnodup hw).mono fun r w' hr => ?_
      intro results hresults spec hspec
      exact hr.2 results hresults spec (hperm.mem_iff.mpr hspec)
  refine .bind (hcycle.mono fun r w' hr => ?_)
  cases r with
  | error exc => exact fun h => nomatch h
  | ok results => exact fun _ => hr results rfl

/-- In every run in which the mapping is replaced any number of times: where a
lookup hits a row of the doctype that the mapping has now, or none, the name
that `find_existing` returns is one of a document of that doctype; and after a
full sync whose lookups are all of this kind, every pushable record of a
response has a document of the doctype that the mapping has now. -/
theorem dedup_keeps_doctype (h : engine.Remapped w) (mapping : Mapping) :
    (∀ item : Item (engine.remap mapping),
      (∀ row, w.db.syncCache item.cacheKey = some row → row.frappeName ≠ "" →
        row.frappeDoctype = item.doctype) →
      (engine.remap mapping).Returns
        (fun found w' => ∀ name, found = .str name → hasDoc w'.docs item.doctype name = true)
        (findExisting (engine.remap mapping).store (engine.remap mapping).frappe item.me
          item.spec.naturalKeyField item.key) w) ∧
    ∀ responses w', ((engine.remap mapping).prog .fullSync).Runs
        ((engine.remap mapping).calm ((engine.remap mapping).conforming responses))
        w (.ok ()) w' →
      ∀ item : Item (engine.remap mapping), w'.FetchedOk item.spec →
        item.raw ∈ responses item.spec → item.Linked w' := by
  constructor
  · intro item hrow
    exact returns_findExisting_doctype item h.homed hrow
  · intro responses w' hrun item hok hraw
    exact (calm_fullSync_filed h.homed).of_runs hrun rfl item.spec item.hspec hok item rfl hraw

end cycle

/-! ## Groups under another doctype -/

/-- `responds`, decided. -/
def SyncEngine.checkResponds (engine : SyncEngine δ) (responses : EntitySpec → List Record)
    (e : Call δ) (c : Choice) (_w : World δ) : Bool :=
  match e, c with
  | .tally request, .tally outcome =>
      engine.registry.specs.all fun spec => spec.name != request.entityName ||
        (engine.recordsOf spec outcome).toOption.all (· == responses spec)
  | _, _ => true

theorem SyncEngine.responds_of_check (engine : SyncEngine δ) {responses : EntitySpec → List Record}
    (e : Call δ) (c : Choice) (w : World δ) (h : engine.checkResponds responses e c w = true) :
    engine.responds responses e c w := by
  unfold checkResponds at h
  unfold responds
  split at h
  · intro spec hspec hname records hrecords
    have hall := List.all_eq_true.mp h spec hspec
    simpa [hname, hrecords, Except.toOption] using hall
  · trivial

/-- `keepsDoctype`, decided. -/
def SyncEngine.checkDoctype (engine : SyncEngine δ) (e : Call δ) (w : World δ) : Bool :=
  match e with
  | .sql (.selectCache key) =>
      (w.db.syncCache key).all fun row => row.frappeName == "" ||
        (engine.mapping.entry key.entityName).all fun me => row.frappeDoctype == me.frappeDoctype
  | _ => true

theorem SyncEngine.keepsDoctype_of_check (engine : SyncEngine δ) (e : Call δ) (c : Choice)
    (w : World δ) (h : engine.checkDoctype e w = true) : engine.keepsDoctype e c w := by
  unfold checkDoctype at h
  unfold keepsDoctype
  split at h
  · intro row me hrow hname hme
    simpa [hrow, hname, hme] using h
  · trivial

theorem SyncEngine.conforming_of_check (engine : SyncEngine δ)
    {responses : EntitySpec → List Record} (e : Call δ) (c : Choice) (w : World δ)
    (h : (engine.checkDoctype e w && engine.checkResponds responses e c w) = true) :
    engine.conforming responses e c w := by
  rw [Bool.and_eq_true] at h
  exact ⟨engine.keepsDoctype_of_check e c w h.1, engine.responds_of_check e c w h.2⟩

/-- The groups' entry, for another doctype. -/
def accountMapping : Mapping :=
  groupsOnly { groupMapping with frappeDoctype := "Account Group" } rfl

/-- A world where the assets were synced under the shipped mapping, and a full
sync under the other doctype. -/
theorem exists_renamed (engine : SyncEngine Dict) {allow : Assumed Dict}
    (check : Call Dict → Choice → World Dict → Bool)
    (hallow : ∀ e c w, check e c w = true → allow e c w) (choices : List Choice)
    (final : World Dict → Bool)
    (hrun : (((engine.remap (groupsOnly groupMapping rfl)).machine fun _ => True).run
        (fun _ _ _ => true)
        [.start ⟨.fullSync, trivial⟩, .call .inMemory, .call (groupResponse [assets]),
          .call .inMemory, .call .commit, .call (.serve "" []), .call .commit,
          .call (.serve "GRP-1" []), .call .inMemory, .call (.clock 0), .call .commit,
          .call (.clock 0), .call (.clock 0), .call .commit, .call .inMemory, .finish]
        ⟨groupWorld (groupCompany [assets] 1), none⟩).any (fun c =>
          (play ((engine.remap accountMapping).calmIf check) choices
            ((engine.remap accountMapping).prog .fullSync) c.world).any fun x =>
              x.1.toOption.isSome && (x.2.db.syncState "group").any (·.status == "ok") &&
                final x.2) = true) :
    ∃ w w', engine.Remapped w ∧
      ((engine.remap accountMapping).prog .fullSync).Runs
        ((engine.remap accountMapping).calm allow) w (.ok ()) w' ∧
      w'.FetchedOk group ∧ final w' = true := by
  have hfresh : (groupWorld (groupCompany [assets] 1)).Fresh := ⟨rfl, rfl, rfl, rfl⟩
  have hany : ∀ (e : Call Dict) (c : Choice) (w : World Dict), true = true →
      (fun _ _ _ => True : Assumed Dict) e c w := fun _ _ _ _ => trivial
  -- the first full sync was made under the old doctype
  obtain ⟨c, hc, hsecond⟩ := Machine.Reach.exists_of_run hany rfl _ _ hrun
  obtain ⟨⟨r, w'⟩, hplay, hfinal⟩ := (Option.any_eq_true _ _).mp hsecond
  simp only [Bool.and_eq_true] at hfinal
  obtain ⟨⟨hreturned, hok⟩, hfinal⟩ := hfinal
  obtain ⟨row, hrow, hstatus⟩ := (Option.any_eq_true _ _).mp hok
  have hruns := runs_of_play ((engine.remap accountMapping).calm_of_calmIf hallow) hplay
  cases r with
  | error exc => cases hreturned
  | ok _ =>
    exact ⟨c.world, w', .era _ (.start hfresh) hc, hruns, ⟨row, hrow, by simpa using hstatus⟩,
      hfinal⟩

/-- A group of the other mapping. -/
theorem exists_accountItem (engine : SyncEngine Dict) (raw : Record)
    (hspec : group ∈ engine.registry.specs) (hkey : (group.keyOf raw).isSome) :
    ∃ item : Item (engine.remap accountMapping),
      item.spec = group ∧ item.raw = raw ∧ item.doctype = "Account Group" := by
  have hpushable : (engine.remap accountMapping).Pushable group raw :=
    (@pushable_iff Dict (engine.remap accountMapping) group raw hspec).mpr ⟨hkey, rfl⟩
  obtain ⟨item, hitem, hraw⟩ := hpushable
  refine ⟨item, hitem, hraw, ?_⟩
  exact congrArg MappingEntry.frappeDoctype (item.me_of_spec hitem rfl)

/-- Another group is synced under the new doctype, and gets a document of it. -/
theorem dedup_keeps_doctype_groups :
    let engine := groupEngine 1 [[assets], [liabilities]]
    ∃ w w', engine.Remapped w ∧
      ((engine.remap accountMapping).prog .fullSync).Runs
        ((engine.remap accountMapping).calm
          ((engine.remap accountMapping).conforming fun _ => [liabilities.raw]))
        w (.ok ()) w' ∧
      ∃ item : Item (engine.remap accountMapping),
        item.raw = liabilities.raw ∧ item.doctype = "Account Group" ∧ item.Linked w' := by
  intro engine
  obtain ⟨w, w', hremapped, hruns, hok, -⟩ := exists_renamed engine
    (fun e c w => (engine.remap accountMapping).checkDoctype e w &&
      (engine.remap accountMapping).checkResponds (fun _ => [liabilities.raw]) e c w)
    (engine.remap accountMapping).conforming_of_check
    [.inMemory, groupResponse [liabilities], .inMemory, .commit, .serve "" [], .commit,
      .serve "ACC-1" [], .inMemory, .clock 0, .commit, .clock 0, .clock 0, .commit, .inMemory]
    (fun _ => true) (by decide +kernel)
  obtain ⟨item, hitem, hraw, hdoctype⟩ :=
    exists_accountItem engine liabilities.raw List.mem_cons_self (by decide +kernel)
  refine ⟨w, w', hremapped, hruns, item, hraw, hdoctype, ?_⟩
  exact (dedup_keeps_doctype hremapped accountMapping).2 _ w' hruns item (hitem ▸ hok)
    (by rw [hraw]; exact List.mem_cons_self)

/-- The same group is reported as unchanged under the new doctype, which has
no documents. -/
theorem dedup_crosses_doctypes :
    let engine := groupEngine 1 [[assets]]
    ∃ w w', engine.Remapped w ∧
      ((engine.remap accountMapping).prog .fullSync).Runs
        ((engine.remap accountMapping).calm
          ((engine.remap accountMapping).responds fun _ => [assets.raw]))
        w (.ok ()) w' ∧
      w'.FetchedOk group ∧ w'.result.unchanged = 1 ∧
      ∃ item : Item (engine.remap accountMapping),
        item.spec = group ∧ item.raw = assets.raw ∧ item.doctype = "Account Group" ∧
          ∀ doc ∈ w'.docs, doc.doctype ≠ item.doctype := by
  intro engine
  obtain ⟨w, w', hremapped, hruns, hok, hfinal⟩ := exists_renamed engine
    ((engine.remap accountMapping).checkResponds fun _ => [assets.raw])
    (engine.remap accountMapping).responds_of_check
    [.inMemory, groupResponse [assets], .inMemory, .commit, .commit, .inMemory, .clock 0,
      .clock 0, .commit, .inMemory]
    (fun w => w.result.unchanged == 1 && w.docs.all (·.doctype == "Tally Group"))
    (by decide +kernel)
  rw [Bool.and_eq_true] at hfinal
  obtain ⟨hunchanged, hdocs⟩ := hfinal
  obtain ⟨item, hitem, hraw, hdoctype⟩ :=
    exists_accountItem engine assets.raw List.mem_cons_self (by decide +kernel)
  refine ⟨w, w', hremapped, hruns, hok, by simpa using hunchanged, item, hitem, hraw, hdoctype,
    fun doc hdoc heq => ?_⟩
  have hold := List.all_eq_true.mp hdocs doc hdoc
  rw [heq, hdoctype] at hold
  exact absurd hold (by decide)

end TallyConnector
