import TallyConnector.Properties.Convergence
import TallyConnector.Properties.Duplicates
import TallyConnector.Sync.CalmRuns

/-! # Frappe as a mirror of Tally

While nothing but a fetch fails, the documents of an entity's doctype are those
of the records that were acknowledged: one document for each natural key, and
it holds the payload acknowledged last (`Mirrored`). So after a full sync, or
after an incremental one at the end of a history of incremental ones, the
documents of the doctype are the current records of the Tally company
(`full_sync_mirrors`, `incremental_sync_mirrors`).
-/

namespace TallyConnector

open Effects Prog

variable {δ : Type} {engine : SyncEngine δ} {allow : Assumed δ}
variable {spec : EntitySpec} {me : MappingEntry} {w w' : World δ}

/-! ## The document of a record -/

/-- The document of the record with a natural key: it is the cached one, it
carries the key and it holds the payload acknowledged last. -/
structure DocOf (engine : SyncEngine δ) (spec : EntitySpec) (me : MappingEntry) (w : World δ)
    (key : String) (doc : Doc) : Prop where
  cached : ∃ row, w.db.syncCache (engine.cacheKey spec.name key) = some row ∧
    row.frappeName = doc.name
  holds : ∃ payload, w.acked spec.name key = some payload ∧ doc.Holds payload
  carries : doc.fields.lookup (me.keyField spec.naturalKeyField) = some (.str key)

theorem DocOf.key_unique {key key' : String} {doc : Doc} (h : DocOf engine spec me w key doc)
    (h' : DocOf engine spec me w key' doc) : key = key' := by
  have hlookup := h.carries.symm.trans h'.carries
  simpa using hlookup

/-- The documents of the entity's doctype are those of its acknowledged
records. -/
structure Mirrored (engine : SyncEngine δ) (spec : EntitySpec) (me : MappingEntry)
    (w : World δ) : Prop extends DocsOk w.docs where
  filed : ∀ doc ∈ w.docs, doc.doctype = me.frappeDoctype →
    ∃ key, DocOf engine spec me w key doc
  cached : ∀ key row, w.db.syncCache (engine.cacheKey spec.name key) = some row →
    row.frappeName ≠ "" → ∃ doc ∈ w.docs, doc.doctype = me.frappeDoctype ∧
      doc.name = row.frappeName ∧ DocOf engine spec me w key doc
  stored : ∀ key payload, w.acked spec.name key = some payload →
    ∃ row, w.db.syncCache (engine.cacheKey spec.name key) = some row ∧ row.frappeName ≠ ""

/-- The document of an acknowledged record is the only one with its key. -/
theorem Mirrored.exists_doc (h : Mirrored engine spec me w) {key : String} {payload : Dict}
    (hacked : w.acked spec.name key = some payload) :
    ∃ doc ∈ keyCarriers spec me w.docs key,
      doc.Holds payload ∧ ∀ other ∈ keyCarriers spec me w.docs key, other = doc := by
  rcases h.stored key payload hacked with ⟨row, hrow, hname⟩
  rcases h.cached key row hrow hname with ⟨doc, hdoc, hdoctype, hdocname, hof⟩
  refine ⟨doc, mem_carriers.mpr ⟨hdoc, hdoctype, hof.carries⟩, ?_, fun other hother => ?_⟩
  · rcases hof.holds with ⟨payload', hacked', hholds⟩
    rw [hacked] at hacked'
    cases hacked'
    exact hholds
  · -- the other document is filed under the key, so its name is the cached one
    rcases mem_carriers.mp hother with ⟨hmem, hotherDoctype, hlookup⟩
    rcases h.filed other hmem hotherDoctype with ⟨key', hof'⟩
    have hkey : key' = key := by
      have heq := hof'.carries.symm.trans hlookup
      simpa using heq
    rcases hof'.cached with ⟨row', hrow', hname'⟩
    rw [hkey, hrow] at hrow'
    cases hrow'
    exact h.unique other hmem doc hdoc (hotherDoctype.trans hdoctype.symm)
      (hname'.symm.trans hdocname.symm)

/-! ## A push -/

section push

variable {item : Item engine} {name key : String} {doc : Doc}

theorem Item.Saved.docOf_other (h : item.Saved name w w')
    (hkey : engine.cacheKey spec.name key ≠ item.cacheKey)
    (hof : DocOf engine spec me w key doc) : DocOf engine spec me w' key doc where
  cached := by
    rcases h.db with ⟨lastPushedAt, hdb⟩
    rcases hof.cached with ⟨row, hrow, hname⟩
    refine ⟨row, ?_, hname⟩
    rw [hdb]
    exact (Function.update_of_ne hkey _ _).trans hrow
  holds := by
    rcases hof.holds with ⟨payload, hacked, hholds⟩
    refine ⟨payload, ?_, hholds⟩
    rw [acked_cons h.pushes, if_neg ?_]
    · exact hacked
    · rintro ⟨hname, rfl⟩
      refine hkey ?_
      rw [← hname]
      rfl
  carries := hof.carries

theorem Item.Saved.docOf_self (h : item.Saved name w w') (hown : engine.OwnsKey spec me)
    (hspec : item.spec = spec) (hname : doc.name = name) (hholds : doc.Holds item.payload) :
    DocOf engine spec me w' item.key doc where
  cached := by
    rcases h.db with ⟨lastPushedAt, hdb⟩
    refine ⟨⟨name, item.doctype, some item.contentHash, lastPushedAt⟩, ?_, hname.symm⟩
    rw [hdb, ← hspec]
    exact Function.update_self ..
  holds := by
    refine ⟨item.payload, ?_, hholds⟩
    rw [acked_cons h.pushes, if_pos ⟨congrArg EntitySpec.name hspec, rfl⟩]
    rfl
  carries := hholds _ _ (hown.lookup_payload hspec)

/-- A push of the entity that leaves one document with the name behind and
keeps the others of the doctype. -/
theorem Mirrored.saved (hown : engine.OwnsKey spec me) (h : Mirrored engine spec me w)
    (hspec : item.spec = spec) (hsaved : item.Saved name w w') (hdocs : DocsOk w'.docs)
    (hnamed : ∃ doc ∈ w'.docs, doc.doctype = me.frappeDoctype ∧ doc.name = name)
    (hnew : ∀ doc ∈ w'.docs, doc.doctype = me.frappeDoctype →
      (doc.name = name ∧ doc.Holds item.payload) ∨ (doc ∈ w.docs ∧ doc.name ≠ name))
    (hkept : ∀ doc ∈ w.docs, doc.doctype = me.frappeDoctype → doc.name ≠ name →
      doc ∈ w'.docs)
    (hkey : ∀ doc ∈ w.docs, doc.doctype = me.frappeDoctype →
      ∀ key, DocOf engine spec me w key doc → (key = item.key ↔ doc.name = name)) :
    Mirrored engine spec me w' where
  toDocsOk := hdocs
  filed := by
    intro doc hdoc hdoctype
    -- the document is that of this push, or it was there before
    rcases hnew doc hdoc hdoctype with ⟨hname, hholds⟩ | ⟨hold, hname⟩
    · exact ⟨item.key, hsaved.docOf_self hown hspec hname hholds⟩
    · rcases h.filed doc hold hdoctype with ⟨key, hof⟩
      refine ⟨key, hsaved.docOf_other (fun heq => hname ?_) hof⟩
      refine (hkey doc hold hdoctype key hof).mp ?_
      exact (CacheKey.mk.injEq ..).mp heq |>.2.1
  cached := by
    intro key row hrow hne
    rcases hsaved.db with ⟨lastPushedAt, hdb⟩
    rw [hdb] at hrow
    simp only [World.setCache, Function.update_apply] at hrow
    split at hrow
    · next heq =>
      -- the row of this push
      cases hrow
      rcases hnamed with ⟨doc, hdoc, hdoctype, hname⟩
      obtain rfl : key = item.key := ((CacheKey.mk.injEq ..).mp heq).2.1
      rcases hnew doc hdoc hdoctype with ⟨_, hholds⟩ | ⟨_, hother⟩
      · exact ⟨doc, hdoc, hdoctype, hname, hsaved.docOf_self hown hspec hname hholds⟩
      · exact absurd hname hother
    · -- the row of another key, whose document the push left alone
      next heq =>
      rcases h.cached key row hrow hne with ⟨doc, hdoc, hdoctype, hname, hof⟩
      have hother : doc.name ≠ name := by
        intro hsame
        refine heq ?_
        rw [(hkey doc hdoc hdoctype key hof).mpr hsame, ← hspec]
        rfl
      exact ⟨doc, hkept doc hdoc hdoctype hother, hdoctype, hname, hsaved.docOf_other heq hof⟩
  stored := by
    intro key payload hacked
    rcases hsaved.db with ⟨lastPushedAt, hdb⟩
    -- the last payload of this key is the one pushed now
    rw [acked_cons hsaved.pushes] at hacked
    have hrows : w'.db.syncCache = (w.setCache item.cacheKey
        ⟨name, item.doctype, some item.contentHash, lastPushedAt⟩).db.syncCache := by rw [hdb]
    rw [hrows]
    simp only [World.setCache, Function.update_apply]
    split at hacked
    · next heq =>
      rcases hnamed with ⟨doc, hdoc, _, hname⟩
      refine ⟨_, if_pos ?_, hname ▸ hdocs.named doc hdoc⟩
      rw [← heq.1, ← heq.2]
      rfl
    · -- another key keeps its row
      next heq =>
      rcases h.stored key payload hacked with ⟨row, hrow, hne⟩
      refine ⟨row, ?_, hne⟩
      rw [if_neg fun hsame => heq ?_]
      · exact hrow
      · have hfields := (CacheKey.mk.injEq ..).mp hsame
        exact ⟨hfields.1.symm, hfields.2.1.symm⟩

/-- A push of another entity touches neither the documents of the doctype nor
the entity's rows. -/
theorem Mirrored.elsewhere (h : Mirrored engine spec me w) (hspec : item.spec.name ≠ spec.name)
    (hsaved : item.Saved name w w') (hdocs : DocsOk w'.docs)
    (hsame : ∀ doc, doc.doctype = me.frappeDoctype → (doc ∈ w'.docs ↔ doc ∈ w.docs)) :
    Mirrored engine spec me w' where
  toDocsOk := hdocs
  filed := by
    intro doc hdoc hdoctype
    rcases h.filed doc ((hsame doc hdoctype).mp hdoc) hdoctype with ⟨key, hof⟩
    exact ⟨key, hsaved.docOf_other (fun heq => hspec ((CacheKey.mk.injEq ..).mp heq).1.symm) hof⟩
  cached := by
    intro key row hrow hne
    rcases hsaved.db with ⟨lastPushedAt, hdb⟩
    have hother : engine.cacheKey spec.name key ≠ item.cacheKey :=
      fun heq => hspec ((CacheKey.mk.injEq ..).mp heq).1.symm
    rw [hdb] at hrow
    have hold : w.db.syncCache (engine.cacheKey spec.name key) = some row :=
      (Function.update_of_ne hother _ _).symm.trans hrow
    rcases h.cached key row hold hne with ⟨doc, hdoc, hdoctype, hname, hof⟩
    exact ⟨doc, (hsame doc hdoctype).mpr hdoc, hdoctype, hname, hsaved.docOf_other hother hof⟩
  stored := by
    intro key payload hacked
    rw [acked_cons hsaved.pushes, if_neg fun heq => hspec heq.1] at hacked
    rcases h.stored key payload hacked with ⟨row, hrow, hne⟩
    rcases hsaved.db with ⟨lastPushedAt, hdb⟩
    refine ⟨row, ?_, hne⟩
    rw [hdb]
    exact (Function.update_of_ne (fun heq => hspec ((CacheKey.mk.injEq ..).mp heq).1.symm) _ _).trans
      hrow

/-- What only reads the documents, the cache and the pushes. -/
theorem Mirrored.still (h : Mirrored engine spec me w) (hdocs : w'.docs = w.docs)
    (hcache : w'.db.syncCache = w.db.syncCache) (hpushes : w'.pushes = w.pushes) :
    Mirrored engine spec me w' := by
  have hacked : w'.acked = w.acked := by
    funext entityName key
    simp only [World.acked, hpushes]
  have hof : ∀ {key : String} {doc : Doc}, DocOf engine spec me w key doc →
      DocOf engine spec me w' key doc := fun hof =>
    ⟨hcache ▸ hof.cached, hacked ▸ hof.holds, hof.carries⟩
  refine ⟨hdocs ▸ h.toDocsOk, ?_, ?_, ?_⟩
  · intro doc hdoc hdoctype
    rcases h.filed doc (hdocs ▸ hdoc) hdoctype with ⟨key, hkey⟩
    exact ⟨key, hof hkey⟩
  · intro key row hrow hne
    rcases h.cached key row (hcache ▸ hrow) hne with ⟨doc, hdoc, hdoctype, hname, hkey⟩
    exact ⟨doc, hdocs ▸ hdoc, hdoctype, hname, hof hkey⟩
  · intro key payload hpayload
    rw [hcache]
    exact h.stored key payload (hacked ▸ hpayload)

/-- The document of the item's key is overwritten. -/
theorem Mirrored.update (hown : engine.OwnsKey spec me) (h : Mirrored engine spec me w)
    (hspec : item.spec = spec) (hsaved : item.Saved name w w') {doc₀ : Doc}
    (hdoc₀ : doc₀ ∈ w.docs) (hdoctype₀ : doc₀.doctype = me.frappeDoctype)
    (hname₀ : doc₀.name = name) (hof₀ : DocOf engine spec me w item.key doc₀)
    (hdocs : w'.docs = putDoc w.docs me.frappeDoctype name item.payload) :
    Mirrored engine spec me w' := by
  refine h.saved hown hspec hsaved (hdocs ▸ h.toDocsOk.put) ?_ ?_ ?_ ?_
  · -- the updated document is there
    rw [hdocs]
    exact ⟨doc₀.merge item.payload,
      mem_putDoc.mpr (.inl ⟨doc₀, hdoc₀, ⟨hdoctype₀, hname₀⟩, rfl⟩), hdoctype₀, hname₀⟩
  · -- it holds the payload, and the others stay
    intro doc hdoc hdoctype
    rw [hdocs] at hdoc
    rcases mem_putDoc.mp hdoc with ⟨old, hold, ⟨_, hname⟩, rfl⟩ | ⟨hold, hnot⟩
    · exact .inl ⟨hname, old.holds_merge item.payload⟩
    · exact .inr ⟨hold, fun hname => hnot ⟨hdoctype, hname⟩⟩
  · intro doc hold _ hname
    rw [hdocs]
    exact mem_putDoc.mpr (.inr ⟨hold, fun htarget => hname htarget.2⟩)
  · -- the row of a key names one document, and a document has one key
    intro doc hold hdoctype key hof
    constructor
    · rintro rfl
      rcases hof.cached with ⟨row, hrow, hname⟩
      rcases hof₀.cached with ⟨row₀, hrow₀, hrowName⟩
      rw [hrow] at hrow₀
      cases hrow₀
      exact hname.symm.trans (hrowName.trans hname₀)
    · intro hname
      obtain rfl : doc = doc₀ :=
        h.unique doc hold doc₀ hdoc₀ (hdoctype.trans hdoctype₀.symm) (hname.trans hname₀.symm)
      exact hof.key_unique hof₀

/-- A record that is not cached has no document, and gets one. -/
theorem Mirrored.create (hown : engine.OwnsKey spec me) (h : Mirrored engine spec me w)
    (hspec : item.spec = spec) (hsaved : item.Saved name w w')
    (hunknown : Unusable (w.db.syncCache item.cacheKey))
    (hfresh : FreshName w.docs me.frappeDoctype name)
    (hdocs : w'.docs = postDoc w.docs me.frappeDoctype name item.payload) :
    Mirrored engine spec me w' := by
  refine h.saved hown hspec hsaved (hdocs ▸ h.toDocsOk.post hfresh) ?_ ?_ ?_ ?_
  · rw [hdocs]
    exact ⟨_, List.mem_cons_self, rfl, rfl⟩
  · intro doc hdoc hdoctype
    rw [hdocs] at hdoc
    rcases List.mem_cons.mp hdoc with rfl | hold
    · exact .inl ⟨rfl, Doc.holds_self _ _ _⟩
    · exact .inr ⟨hold, hfresh.2 doc hold hdoctype⟩
  · intro doc hold _ _
    rw [hdocs]
    exact List.mem_cons_of_mem _ hold
  · intro doc hold hdoctype key hof
    constructor
    · rintro rfl
      rcases hof.cached with ⟨row, hrow, hname⟩
      rw [← hspec] at hrow
      exact absurd (hname.symm.trans (hunknown row hrow)) (h.named doc hold)
    · exact fun hname => absurd hname (hfresh.2 doc hold hdoctype)

/-- The document that the connector knows for an item is the one of its key. -/
theorem Mirrored.known (hown : engine.OwnsKey spec me) (h : Mirrored engine spec me w)
    (hspec : item.spec = spec) (hname : name ≠ "")
    (hknown : (∃ row, w.db.syncCache item.cacheKey = some row ∧ row.frappeName = name) ∨
      Unusable (w.db.syncCache item.cacheKey) ∧ ∃ doc ∈ item.carriers w.docs, doc.name = name) :
    ∃ doc ∈ w.docs, doc.doctype = me.frappeDoctype ∧ doc.name = name ∧
      DocOf engine spec me w item.key doc := by
  rcases hknown with ⟨row, hrow, rfl⟩ | ⟨-, doc, hdoc, rfl⟩
  · refine h.cached item.key row ?_ hname
    rw [← hspec]
    exact hrow
  · rw [Item.carriers, Item.doctype, Item.keyField, hown.item_me hspec, hspec] at hdoc
    rcases mem_carriers.mp hdoc with ⟨hmem, hdoctype, hlookup⟩
    rcases h.filed doc hmem hdoctype with ⟨key, hof⟩
    have hkey : key = item.key := by
      have heq := hof.carries.symm.trans hlookup
      simpa using heq
    exact ⟨doc, hmem, hdoctype, rfl, hkey ▸ hof⟩

/-- Every push in which nothing fails keeps the mirror. -/
theorem Mirrored.effect (hown : engine.OwnsKey spec me) (h : Mirrored engine spec me w)
    (heffect : item.Effect allow w w') : Mirrored engine spec me w' := by
  by_cases hspec : item.spec = spec
  · -- a push of this entity
    have hdoctype : item.doctype = me.frappeDoctype :=
      congrArg MappingEntry.frappeDoctype (hown.item_me hspec)
    cases heffect with
    | skip row _ _ _ _ => exact h.still rfl rfl rfl
    | update name _ hsaved hname hknown _ hdocs =>
      rcases h.known hown hspec hname hknown with ⟨doc, hdoc, hmine, hdocname, hof⟩
      exact h.update hown hspec hsaved hdoc hmine hdocname hof (hdoctype ▸ hdocs)
    | create name _ hsaved hunknown hfresh hdocs =>
      exact h.create hown hspec hsaved hunknown (hdoctype ▸ hfresh) (hdoctype ▸ hdocs)
  · -- a push of another entity, so to another doctype
    have hname : item.spec.name ≠ spec.name := fun heq =>
      hspec (engine.registry.eq_of_name item.hspec hown.hspec heq)
    have hdoctype : item.doctype ≠ me.frappeDoctype := fun heq => hspec (hown.item_spec heq)
    cases heffect with
    | skip row _ _ _ _ => exact h.still rfl rfl rfl
    | update name _ hsaved _ _ _ hdocs =>
      refine h.elsewhere hname hsaved (hdocs ▸ h.toDocsOk.put) fun doc hmine => ?_
      rw [hdocs, mem_putDoc]
      constructor
      · rintro (⟨old, _, ⟨htarget, _⟩, rfl⟩ | ⟨hold, _⟩)
        · exact absurd (htarget.symm.trans hmine) hdoctype
        · exact hold
      · exact fun hold => .inr ⟨hold, fun htarget => hdoctype (htarget.1.symm.trans hmine)⟩
    | create name _ hsaved _ hfresh hdocs =>
      refine h.elsewhere hname hsaved (hdocs ▸ h.toDocsOk.post hfresh) fun doc hmine => ?_
      rw [hdocs, postDoc, List.mem_cons]
      constructor
      · rintro (rfl | hold)
        · exact absurd hmine hdoctype
        · exact hold
      · exact .inr

end push

/-! ## Runs -/

section runs

theorem calmInvariant_cached (hinj : Function.Injective engine.contentHash) :
    CalmInvariant engine allow (Cached engine) where
  still h _ _ hcache hpushes :=
    ⟨by simpa only [World.acked, hpushes, hcache] using h.acked, hpushes ▸ h.pushed⟩
  push h heffect := heffect.cached hinj h

theorem calmInvariant_mirrored (hown : engine.OwnsKey spec me) :
    CalmInvariant engine allow (Mirrored engine spec me) where
  still h _ hdocs hcache hpushes := h.still hdocs hcache hpushes
  push h heffect := h.effect hown heffect

theorem calmInvariant_tally (company : Company) :
    CalmInvariant engine allow fun w => w.tally = company where
  still h htally _ _ _ := htally.trans h
  push h heffect := heffect.tally.trans h

variable [DecidableEq δ]

/-- The worlds after Tally edits and operations in which nothing but a fetch
fails; the store is fresh at first, and Frappe has no document of the
doctype. -/
inductive SyncEngine.CalmHistory (engine : SyncEngine δ) (me : MappingEntry) : World δ → Prop
  | start {w : World δ} (hfresh : w.Fresh) (hdocs : DocsOk w.docs)
      (hnone : ∀ doc ∈ w.docs, doc.doctype ≠ me.frappeDoctype)
      (hwf : w.tally.WellFormed engine.registry) : CalmHistory engine me w
  | edit {w : World δ} {company : Company} (h : CalmHistory engine me w)
      (hevolves : w.tally.Evolves company) (hwf : company.WellFormed engine.registry) :
      CalmHistory engine me (w.setTally company)
  | run {w w' : World δ} {r : Except Exn Unit} (op : Operation) (h : CalmHistory engine me w)
      (hrun : (engine.prog op).Runs (engine.calm engine.snapshots) w r w') :
      CalmHistory engine me w'

omit [DecidableEq δ] in
theorem mirrored_fresh (hfresh : w.Fresh) (hdocs : DocsOk w.docs)
    (hnone : ∀ doc ∈ w.docs, doc.doctype ≠ me.frappeDoctype) : Mirrored engine spec me w where
  toDocsOk := hdocs
  filed := fun doc hdoc hdoctype => absurd hdoctype (hnone doc hdoc)
  cached := by
    intro key row hrow
    rw [hfresh.db] at hrow
    cases hrow
  stored := by
    intro key payload hacked
    simp [World.acked, hfresh.pushes] at hacked

omit [DecidableEq δ] in
theorem cached_fresh (hfresh : w.Fresh) : Cached engine w where
  acked := by
    intro item row hrow
    rw [hfresh.db] at hrow
    cases hrow
  pushed := by
    intro push hpush
    rw [hfresh.pushes] at hpush
    cases hpush

theorem SyncEngine.CalmHistory.mirrored (hinj : Function.Injective engine.contentHash)
    (hown : engine.OwnsKey spec me) (h : engine.CalmHistory me w) :
    w.tally.WellFormed engine.registry ∧ Cached engine w ∧ Mirrored engine spec me w := by
  induction h with
  | start hfresh hdocs hnone hwf =>
    exact ⟨hwf, cached_fresh hfresh, mirrored_fresh hfresh hdocs hnone⟩
  | edit _ _ hwf ih =>
    rcases ih with ⟨_, hcached, hmirrored⟩
    exact ⟨hwf, ⟨hcached.acked, hcached.pushed⟩, hmirrored.still rfl rfl rfl⟩
  | @run w w' r op _ hrun ih =>
    rcases ih with ⟨hwf, hcached, hmirrored⟩
    have hkept : CalmInvariant engine engine.snapshots _ :=
      (calmInvariant_cached hinj).and (calmInvariant_mirrored hown)
    have htally : w'.tally = w.tally :=
      ((calmInvariant_tally w.tally).prog op rfl).of_runs hrun
    exact ⟨htally ▸ hwf, (hkept.prog op ⟨hcached, hmirrored⟩).of_runs hrun⟩

/-! ## A sync of all records -/

/-- Every current record of the entity was acknowledged with its payload of
today. -/
def World.UpToDate (w : World δ) (spec : EntitySpec) (me : MappingEntry) : Prop :=
  ∀ version ∈ w.tally.versions spec, ∀ key, spec.keyOf version.raw = some key →
    w.acked spec.name key = some (me.payloadOf spec version.raw)

/-- What the sync of an entity leaves to the other ones. -/
structure LeavesOthers (engine : SyncEngine δ) (spec : EntitySpec) (w w' : World δ) : Prop where
  cached : Cached engine w'
  tally : w'.tally = w.tally
  others : ∀ entityName, entityName ≠ spec.name →
    w'.acked entityName = w.acked entityName ∧
      w'.db.syncState entityName = w.db.syncState entityName

omit [DecidableEq δ] in
theorem Pulling.acked_of_keyOf {records done : List Record} {w₀ : World δ}
    (h : Pulling engine spec records w₀ done w) (hspec : spec ∈ engine.registry.specs)
    (hme : engine.mapping.entry spec.name = some me) {raw : Record} (hraw : raw ∈ done)
    {key : String} (hkey : spec.keyOf raw = some key) :
    w.acked spec.name key = some (me.payloadOf spec raw) := by
  rcases (pushable_iff hspec).mpr ⟨by rw [hkey]; rfl, by rw [hme]; rfl⟩ with ⟨item, hitem, rfl⟩
  have hitemKey : item.key = key := by
    have heq := item.keyOf_raw
    rw [hitem, hkey] at heq
    exact (Option.some.inj heq).symm
  rw [← hitemKey, h.taken item hitem hraw, ← item.payloadOf_raw, hitem, item.me_of_spec hitem hme]

omit [DecidableEq δ] in
/-- Writing the checkpoint after the record loop. -/
theorem Pulling.leavesOthers {records done : List Record} {w₀ : World δ}
    (h : Pulling engine spec records w₀ done w) (row : SyncStateRow) :
    LeavesOthers engine spec w₀ (w.checkpoint spec.name row) where
  cached := ⟨h.cached.acked, h.cached.pushed⟩
  tally := h.tally
  others := by
    intro entityName hne
    constructor
    · funext key
      exact h.others entityName key fun heq => absurd heq hne
    · refine (Function.update_of_ne hne _ _).trans ?_
      rw [h.syncState]

/-- The sync of an entity without a filter. -/
theorem calm_syncEntity_all (hinj : Function.Injective engine.contentHash)
    (hspec : spec ∈ engine.registry.specs) (hwf : w.tally.WellFormed engine.registry)
    (hw : Cached engine w) :
    (engine.syncEntity spec none none none).Always (engine.calm engine.snapshots)
      (fun r w' => LeavesOthers engine spec w w' ∧ ∀ result, r = .ok result →
        w'.FetchedOk spec → ∀ me, engine.mapping.entry spec.name = some me →
          w'.UpToDate spec me) w := by
  have hstart : ∀ (w₁ : World δ) result, w.SameButFetch w₁ → ∀ records,
      Pulling engine spec records w [] (w₁.setResult result) := by
    rintro w₁ result ⟨fetched, rfl⟩ records
    exact ⟨⟨hw.acked, hw.pushed⟩, rfl, rfl, fun _ _ h => absurd h List.not_mem_nil,
      fun _ _ _ => rfl, List.nil_subset _⟩
  refine calm_syncEntity (fun exc w₁ result hsame => ?_)
    (fun w₁ result row hsame _ hstatus => ?_) fun outcome records result hanswered hrecords => ?_
  · -- the sync was cut short before the checkpoint
    rcases hsame with ⟨fetched, rfl⟩
    exact ⟨⟨⟨hw.acked, hw.pushed⟩, rfl, fun _ _ => ⟨rfl, rfl⟩⟩, fun _ h => by cases h⟩
  · -- the fetch failed
    refine ⟨(hstart w₁ result hsame []).leavesOthers row, fun _ _ hok => ?_⟩
    rcases hok with ⟨row', hrow', hok⟩
    have heq : row = row' := by simpa [World.checkpoint] using hrow'
    rw [← heq, hstatus] at hok
    exact absurd hok (by decide)
  · -- without a checkpoint the answer lists all the company has
    rcases hanswered with ⟨w₁, htally, hsnapshot⟩
    have hmem : ∀ raw, raw ∈ records ↔ ∃ version ∈ w.tally.versions spec, version.raw = raw := by
      intro raw
      rw [SyncEngine.Snapshot.mem_iff hspec hsnapshot hrecords, htally]
      simp [inRange]
    have hunique : ∀ raw ∈ records, ∀ raw' ∈ records, ∀ key, spec.keyOf raw = some key →
        spec.keyOf raw' = some key → raw = raw' := by
      intro raw hraw raw' hraw' key hkey hkey'
      rcases (hmem raw).mp hraw with ⟨version, hversion, rfl⟩
      rcases (hmem raw').mp hraw' with ⟨version', hversion', rfl⟩
      exact congrArg Version.raw (hwf.eq_of_key hspec hversion hversion' hkey hkey')
    have hfetched := hstart _ result
      (w.sameButFetch_fetch (engine.collectionRequest spec none none none) outcome) records
    cases hme : engine.mapping.entry spec.name with
    | none =>
      -- an entity without mapping is only counted
      refine calm_syncRecords_unmapped.mono fun r w₂ hr => ?_
      rcases hr with ⟨rfl, result', rfl⟩
      refine ⟨rfl, fun row _ _ => ⟨?_, fun _ _ _ me hme' => by cases hme'⟩⟩
      exact (hstart _ result' (w.sameButFetch_fetch _ outcome) records).leavesOthers row
    | some me =>
      -- each record is pulled, and every current version was listed
      refine (calm_syncRecords records hspec hme
        (fun done raw w₂ result hraw hkey h => h.keyless hraw hkey result)
        (fun done item w₂ w₃ hitem hraw heffect h => h.push hinj hunique hitem hraw heffect)
        (List.Subset.refl _) hfetched).mono fun r w₂ hr => ?_
      rcases hr with ⟨rfl, hpulling⟩
      rw [List.append_nil] at hpulling
      refine ⟨rfl, fun row _ _ => ⟨hpulling.leavesOthers row, fun _ _ _ me' hme' => ?_⟩⟩
      intro version hversion key hkey
      have hcurrent : version ∈ w.tally.versions spec := hpulling.tally ▸ hversion
      have hdone : version.raw ∈ records.reverse :=
        List.mem_reverse.mpr ((hmem _).mpr ⟨version, hcurrent, rfl⟩)
      exact hpulling.acked_of_keyOf hspec (hme.trans hme') hdone hkey

omit [DecidableEq δ] in
theorem World.UpToDate.of_eq (h : w.UpToDate spec me) (htally : w'.tally = w.tally)
    (hacked : w'.acked spec.name = w.acked spec.name) : w'.UpToDate spec me := by
  intro version hversion key hkey
  rw [hacked]
  exact h version (htally ▸ hversion) key hkey

/-- The cycle of a full sync. -/
theorem calm_syncEntities_all (hinj : Function.Injective engine.contentHash)
    {specs : List EntitySpec} (hspecs : specs ⊆ engine.registry.specs)
    (hnodup : (specs.map (·.name)).Nodup) (hwf : w.tally.WellFormed engine.registry)
    (hw : Cached engine w) :
    (engine.syncEntities false specs).Always (engine.calm engine.snapshots)
      (fun r w' => w'.tally = w.tally ∧ (∀ entityName, entityName ∉ specs.map (·.name) →
        w'.acked entityName = w.acked entityName ∧
          w'.db.syncState entityName = w.db.syncState entityName) ∧
        ∀ results, r = .ok results → ∀ spec ∈ specs, w'.FetchedOk spec →
          ∀ me, engine.mapping.entry spec.name = some me → w'.UpToDate spec me) w := by
  induction specs generalizing w with
  | nil => exact ⟨rfl, fun _ _ => ⟨rfl, rfl⟩, fun _ _ _ h => absurd h List.not_mem_nil⟩
  | cons spec specs ih =>
    rw [List.map_cons, List.nodup_cons] at hnodup
    -- a full sync starts each entity without a checkpoint
    have hstart : (engine.sinceAlterId false spec).Always (engine.calm engine.snapshots)
        (fun r w' => r = .ok none ∧ w' = w) w := ⟨rfl, rfl⟩
    refine .bind (hstart.mono fun r w₀ hr => ?_)
    rcases hr with ⟨rfl, rfl⟩
    refine .bind ((calm_syncEntity_all hinj (hspecs List.mem_cons_self) hwf hw).mono
      fun r w₁ hr => ?_)
    rcases hr with ⟨hfirst, hupToDate⟩
    have hthis : ∀ entityName, entityName ∉ (spec :: specs).map (·.name) →
        entityName ≠ spec.name ∧ entityName ∉ specs.map (·.name) := by
      intro entityName hnot
      rw [List.map_cons, List.mem_cons, not_or] at hnot
      exact hnot
    cases r with
    | error exc =>
      -- the exception ends the cycle here
      exact ⟨hfirst.tally, fun entityName hnot => hfirst.others _ (hthis _ hnot).1,
        fun _ h => nomatch h⟩
    | ok result =>
      refine .bind ((ih (fun _ h => hspecs (List.mem_cons_of_mem _ h)) hnodup.2
        (hfirst.tally ▸ hwf) hfirst.cached).mono fun r w₂ hr => ?_)
      rcases hr with ⟨htally, hothers, hrest⟩
      -- entities outside of the cycle are left alone throughout
      have hall : ∀ entityName, entityName ∉ (spec :: specs).map (·.name) →
          w₂.acked entityName = w₀.acked entityName ∧
            w₂.db.syncState entityName = w₀.db.syncState entityName := by
        intro entityName hnot
        rcases hothers entityName (hthis _ hnot).2 with ⟨hacked, hstate⟩
        rcases hfirst.others entityName (hthis _ hnot).1 with ⟨hacked', hstate'⟩
        exact ⟨hacked.trans hacked', hstate.trans hstate'⟩
      cases r with
      | error exc => exact ⟨htally.trans hfirst.tally, hall, fun _ h => nomatch h⟩
      | ok results =>
        refine ⟨htally.trans hfirst.tally, hall, fun _ _ spec' hmem hok me hme => ?_⟩
        rcases List.mem_cons.mp hmem with rfl | hmem'
        · -- the later entities leave its payloads and its checkpoint alone
          rcases hothers _ hnodup.1 with ⟨hacked, hstate⟩
          rcases hok with ⟨row, hrow, hstatus⟩
          have hok₁ : w₁.FetchedOk spec' := ⟨row, hstate ▸ hrow, hstatus⟩
          exact (hupToDate result rfl hok₁ me hme).of_eq htally hacked
        · -- the entity is one of the later ones
          exact hrest results rfl spec' hmem' hok me hme

/-- A full sync, or a resync of the entity, that could fetch the entity. -/
theorem calm_sync_upToDate (hinj : Function.Injective engine.contentHash)
    (hspec : spec ∈ engine.registry.specs) (hme : engine.mapping.entry spec.name = some me)
    (hwf : w.tally.WellFormed engine.registry) (hw : Cached engine w) {op : Operation}
    (hop : op = .fullSync ∨ op = .resyncEntity spec.name none none) :
    (engine.prog op).Always (engine.calm engine.snapshots)
      (fun r w' => r = .ok () → w'.FetchedOk spec → w'.UpToDate spec me) w := by
  rcases hop with rfl | rfl
  · -- a full sync visits the entity in its turn
    refine .bind (.bind (.ofExcept ?_))
    cases horder : engine.registry.resolveSyncOrder with
    | error exc => exact fun h => nomatch h
    | ok order =>
      have hperm := engine.registry.resolveSyncOrder_perm horder
      have hnodup : (order.map (·.name)).Nodup :=
        (hperm.map (·.name)).nodup_iff.mpr engine.registry.nodup
      refine (calm_syncEntities_all hinj hperm.subset hnodup hwf hw).mono fun r w' hr => ?_
      cases r with
      | error exc => exact fun h => nomatch h
      | ok results =>
        exact fun _ hok => hr.2.2 results rfl spec (hperm.mem_iff.mpr hspec) hok me hme
  · -- a resync visits it alone
    refine .bind (.bind (.ofExcept ?_))
    rw [engine.registry.getEntity_self hspec]
    refine (calm_syncEntity_all hinj hspec hwf hw).mono fun r w' hr => ?_
    cases r with
    | error exc => exact fun h => nomatch h
    | ok result => exact fun _ hok => hr.2 result rfl hok me hme

/-! ## The mirror -/

/-- After any history in which nothing but fetches fail, a full sync, or a
resync of the entity, leaves exactly one document for the key of each current
record, and it holds the record's payload; and every document of the doctype
is that of a record that was pushed, and holds what was pushed last for it. -/
theorem full_sync_mirrors (hinj : Function.Injective engine.contentHash)
    (hown : engine.OwnsKey spec me) (h : engine.CalmHistory me w) {op : Operation}
    (hop : op = .fullSync ∨ op = .resyncEntity spec.name none none)
    (hrun : (engine.prog op).Runs (engine.calm engine.snapshots) w (.ok ()) w')
    (hok : w'.FetchedOk spec) :
    (∀ version ∈ w'.tally.versions spec, ∀ key, spec.keyOf version.raw = some key →
      ∃ doc ∈ keyCarriers spec me w'.docs key, doc.Holds (me.payloadOf spec version.raw) ∧
        ∀ other ∈ keyCarriers spec me w'.docs key, other = doc) ∧
      ∀ doc ∈ w'.docs, doc.doctype = me.frappeDoctype → ∃ key payload,
        doc ∈ keyCarriers spec me w'.docs key ∧ w'.acked spec.name key = some payload ∧
          doc.Holds payload := by
  rcases h.mirrored hinj hown with ⟨hwf, hcached, hmirrored⟩
  have hmirrored' : Mirrored engine spec me w' :=
    ((calmInvariant_mirrored hown).prog op hmirrored).of_runs hrun
  have hupToDate : w'.UpToDate spec me :=
    (calm_sync_upToDate hinj hown.hspec hown.hme hwf hcached hop).of_runs hrun rfl hok
  constructor
  · intro version hversion key hkey
    exact hmirrored'.exists_doc (hupToDate version hversion key hkey)
  · intro doc hdoc hdoctype
    rcases hmirrored'.filed doc hdoc hdoctype with ⟨key, hof⟩
    rcases hof.holds with ⟨payload, hacked, hholds⟩
    exact ⟨key, payload, mem_carriers.mpr ⟨hdoc, hdoctype, hof.carries⟩, hacked, hholds⟩

/-- A group that is renamed and a new one, after a first full sync. -/
theorem full_sync_mirrors_groups :
    let renamed : Group := { guid := "g-1", name := "Fixed Assets", alterId := 2 }
    let cash : Group := { guid := "g-2", name := "Cash", parent := some "Assets", alterId := 3 }
    ∃ w' : World Dict, w'.tally = groupCompany [renamed, cash] 3 ∧ w'.docs.length = 2 ∧
      ∀ g ∈ [renamed, cash], ∃ doc ∈ keyCarriers group groupMapping w'.docs g.guid,
        doc.Holds (groupMapping.payloadOf group g.raw) := by
  intro renamed cash
  let engine := groupEngine 1 [[assets], [renamed, cash]]
  let fetched (groups : List Group) : List Choice := [.inMemory, groupResponse groups, .inMemory]
  let created (name : String) : List Choice :=
    [.commit, .serve "" [], .commit, .serve name [], .inMemory, .clock 0, .commit]
  let checkpointed : List Choice := [.clock 0, .clock 0, .commit, .inMemory]
  let first : List Choice := fetched [assets] ++ created "GRP-1" ++ checkpointed
  let second : List Choice := fetched [renamed, cash] ++
    -- the renamed group is overwritten
    [.commit, .commit, .serve "" [], .inMemory, .clock 0, .commit] ++
    created "GRP-2" ++ checkpointed
  let company := groupCompany [renamed, cash] 3
  let w₀ : World Dict := groupWorld (groupCompany [assets] 1)
  have hplay : ((play engine.calmExec first (engine.prog .fullSync) w₀).bind fun a =>
      (play engine.calmExec second (engine.prog .fullSync) (a.2.setTally company)).map fun b =>
        (a, b)).any (fun x =>
          x.1.2.tally = groupCompany [assets] 1 ∧ x.2.2.tally = company ∧
          x.2.2.docs.length = 2 ∧ x.2.1.toOption.isSome ∧
          (x.2.2.db.syncState "group").any (·.status == "ok")) = true := by
    decide +kernel
  rcases (Option.any_eq_true _ _).mp hplay with ⟨⟨a, b⟩, hruns, hfinal⟩
  rcases Option.bind_eq_some_iff.mp hruns with ⟨a', hfirst, hruns⟩
  rcases Option.map_eq_some_iff.mp hruns with ⟨b', hsecond, hruns⟩
  cases hruns
  rcases of_decide_eq_true hfinal with ⟨htally, hcompany, hdocs, hreturned, hok⟩
  have hfetched : b.2.FetchedOk group := by
    rcases (Option.any_eq_true _ _).mp hok with ⟨row, hrow, hstatus⟩
    exact ⟨row, hrow, by simpa using hstatus⟩
  have hstart : engine.CalmHistory groupMapping w₀ :=
    .start ⟨rfl, rfl, rfl, rfl⟩ ⟨by simp [w₀, groupWorld], by simp [w₀, groupWorld]⟩
      (by simp [w₀, groupWorld]) (by decide +kernel)
  have hhistory : engine.CalmHistory groupMapping (a.2.setTally company) := by
    refine .edit (.run .fullSync hstart (runs_of_play engine.calm_of_calmExec hfirst)) ?_
      (by decide +kernel)
    rw [htally]
    decide
  have hlast := runs_of_play engine.calm_of_calmExec hsecond
  rcases b with ⟨r, w'⟩
  cases r with
  | error exc => cases hreturned
  | ok _ =>
    have hmirrors := (full_sync_mirrors (contentHash_groupEngine_injective _ _)
      (ownsKey_groupEngine _ _) hhistory (.inl rfl) hlast hfetched).1
    rw [hcompany] at hmirrors
    refine ⟨w', hcompany, hdocs, fun g hg => ?_⟩
    have hversions : g.version ∈ company.versions group ∧ group.keyOf g.raw = some g.guid := by
      rcases List.mem_cons.mp hg with rfl | hg
      · decide
      · rw [List.mem_singleton.mp hg]
        decide
    rcases hmirrors g.version hversions.1 g.guid hversions.2 with ⟨doc, hdoc, hholds, _⟩
    exact ⟨doc, hdoc, hholds⟩

/-- A history of edits and incremental cycles is one in which nothing but
fetches fail. -/
theorem SyncEngine.Incremental.calmHistory (h : engine.Incremental w) :
    engine.CalmHistory me w := by
  induction h with
  | start hblank hwf =>
    refine .start hblank.toFresh ?_ ?_ hwf
    · rw [hblank.docs]
      exact ⟨fun _ h => absurd h List.not_mem_nil, fun _ h => absurd h List.not_mem_nil⟩
    · rw [hblank.docs]
      exact fun _ h => absurd h List.not_mem_nil
  | edit _ hgrows ih => exact .edit ih hgrows.evolves hgrows.wellFormed
  | cycle _ hrun ih => exact .run _ ih hrun

/-- After such a history the documents are those of the acknowledged records,
and these are the current ones if the last cycle could fetch everything. -/
theorem SyncEngine.Incremental.mirrored (hinj : Function.Injective engine.contentHash)
    (hown : engine.OwnsKey spec me) (h : engine.Incremental w)
    (hrun : (engine.prog .incrementalSync).Runs (engine.calm engine.snapshots) w (.ok ()) w')
    (hok : ∀ spec ∈ engine.registry.specs, w'.FetchedOk spec) :
    Mirrored engine spec me w' ∧ w'.tally = w.tally ∧
      ∃ hwf : w.tally.WellFormed engine.registry, Converged engine spec hwf w' := by
  rcases h.converging hinj with ⟨hwf, hconverging⟩
  rcases (calm_prog_cycle hinj hwf .incrementalSync true rfl (by simp) hconverging).of_runs hrun
    with ⟨hconverging', hconverged⟩
  exact ⟨((SyncEngine.Incremental.cycle h hrun).calmHistory.mirrored hinj hown).2.2,
    hconverging'.tally, hwf, hconverged rfl spec hown.hspec (hok spec hown.hspec)⟩

/-- Each current record with a usable key has its document then. -/
theorem SyncEngine.Incremental.exists_doc (hinj : Function.Injective engine.contentHash)
    (hown : engine.OwnsKey spec me) (h : engine.Incremental w)
    (hrun : (engine.prog .incrementalSync).Runs (engine.calm engine.snapshots) w (.ok ()) w')
    (hok : ∀ spec ∈ engine.registry.specs, w'.FetchedOk spec) {version : Version}
    (hversion : version ∈ w'.tally.versions spec) {key : String}
    (hkey : spec.keyOf version.raw = some key) :
    ∃ doc ∈ keyCarriers spec me w'.docs key, doc.Holds (me.payloadOf spec version.raw) ∧
      ∀ other ∈ keyCarriers spec me w'.docs key, other = doc := by
  rcases h.mirrored hinj hown hrun hok with ⟨hmirrored, htally, hwf, hconverged⟩
  rw [htally] at hversion
  exact hmirrored.exists_doc (hconverged.acked hown.hspec hown.hme hversion hkey)

/-- After a history of edits and incremental cycles from an empty site, the
last of which could fetch everything, the documents of the doctype are exactly
the current records. -/
theorem incremental_sync_mirrors (hinj : Function.Injective engine.contentHash)
    (hown : engine.OwnsKey spec me) (h : engine.Incremental w)
    (hrun : (engine.prog .incrementalSync).Runs (engine.calm engine.snapshots) w (.ok ()) w')
    (hok : ∀ spec ∈ engine.registry.specs, w'.FetchedOk spec) :
    (∀ version ∈ w'.tally.versions spec, ∀ key, spec.keyOf version.raw = some key →
      ∃ doc ∈ keyCarriers spec me w'.docs key, doc.Holds (me.payloadOf spec version.raw) ∧
        ∀ other ∈ keyCarriers spec me w'.docs key, other = doc) ∧
      ∀ doc ∈ w'.docs, doc.doctype = me.frappeDoctype →
        ∃ version ∈ w'.tally.versions spec, ∃ key, spec.keyOf version.raw = some key ∧
          doc ∈ keyCarriers spec me w'.docs key ∧ doc.Holds (me.payloadOf spec version.raw) := by
  constructor
  · intro version hversion key hkey
    exact h.exists_doc hinj hown hrun hok hversion hkey
  · intro doc hdoc hdoctype
    rcases h.mirrored hinj hown hrun hok with ⟨hmirrored, htally, hwf, hconverged⟩
    rcases hmirrored.filed doc hdoc hdoctype with ⟨key, hof⟩
    rcases hof.holds with ⟨payload, hacked, hholds⟩
    rcases (hconverged hown.hspec me hown.hme key payload).mp hacked with
      ⟨e, ⟨version, hversion, hkey, _, hvalue⟩, rfl, rfl⟩
    rw [htally]
    exact ⟨version, hversion, e.key, hkey, mem_carriers.mpr ⟨hdoc, hdoctype, hof.carries⟩,
      hvalue ▸ hholds⟩

/-- A group that is renamed between two incremental cycles. -/
theorem incremental_sync_mirrors_groups :
    let renamed : Group := { guid := "g-1", name := "Fixed Assets", alterId := 2 }
    ∃ w' : World Dict, w'.tally = groupCompany [renamed] 2 ∧
      ∃ doc ∈ keyCarriers group groupMapping w'.docs "g-1",
        doc.Holds (groupMapping.payloadOf group renamed.raw) := by
  intro renamed
  let engine := groupEngine 1 [[assets], [renamed]]
  let fetched (groups : List Group) : List Choice :=
    [.commit, .inMemory, groupResponse groups, .inMemory]
  let checkpointed : List Choice := [.clock 0, .clock 0, .commit, .inMemory]
  let first : List Choice := fetched [assets] ++
    [.commit, .serve "" [], .commit, .serve "GRP-1" [], .inMemory, .clock 0, .commit] ++
    checkpointed
  let second : List Choice := fetched [renamed] ++
    [.commit, .commit, .serve "" [], .inMemory, .clock 0, .commit] ++ checkpointed
  let company := groupCompany [renamed] 2
  let w₀ : World Dict := groupWorld (groupCompany [assets] 1)
  let cycle := engine.prog .incrementalSync
  have hplay : ((play engine.calmExec first cycle w₀).bind fun a =>
      (play engine.calmExec second cycle (a.2.setTally company)).map fun b => (a, b)).any
        (fun x => x.1.2.tally = groupCompany [assets] 1 ∧ x.2.2.tally = company ∧
          x.2.1.toOption.isSome ∧
          (x.2.2.db.syncState "group").any (·.status == "ok")) = true := by
    decide +kernel
  rcases (Option.any_eq_true _ _).mp hplay with ⟨⟨a, b⟩, hruns, hfinal⟩
  rcases Option.bind_eq_some_iff.mp hruns with ⟨a', hfirst, hruns⟩
  rcases Option.map_eq_some_iff.mp hruns with ⟨b', hsecond, hruns⟩
  cases hruns
  rcases of_decide_eq_true hfinal with ⟨htally, hcompany, hreturned, hok⟩
  -- g-1 is still in the company, under its new name
  have hgrows : engine.Grows a.2.tally company := by
    rw [htally]
    refine ⟨by decide, by decide +kernel, fun spec hspec version hversion key hkey => ?_⟩
    obtain rfl : spec = group := List.mem_singleton.mp hspec
    obtain rfl : version = assets.version := List.mem_singleton.mp hversion
    refine ⟨renamed.version, by decide, ?_⟩
    rw [← hkey]
    decide
  -- both cycles are one history of the engine
  have hhistory : engine.Incremental (a.2.setTally company) :=
    .edit (.cycle (.start ⟨⟨rfl, rfl, rfl, rfl⟩, rfl⟩ (by decide +kernel))
      (runs_of_play engine.calm_of_calmExec hfirst)) hgrows
  have hlast := runs_of_play engine.calm_of_calmExec hsecond
  rcases b with ⟨r, w'⟩
  cases r with
  | error exc => cases hreturned
  | ok _ =>
    have hfetched : ∀ spec ∈ engine.registry.specs, w'.FetchedOk spec := by
      intro spec hspec
      obtain rfl : spec = group := List.mem_singleton.mp hspec
      rcases (Option.any_eq_true _ _).mp hok with ⟨row, hrow, hstatus⟩
      exact ⟨row, hrow, by simpa using hstatus⟩
    have hmirrors := (incremental_sync_mirrors (contentHash_groupEngine_injective _ _)
      (ownsKey_groupEngine _ _) hhistory hlast hfetched).1
    rw [hcompany] at hmirrors
    rcases hmirrors renamed.version (by decide) "g-1" (by decide) with ⟨doc, hdoc, hholds, _⟩
    exact ⟨w', hcompany, doc, hdoc, hholds⟩

end runs

end TallyConnector
