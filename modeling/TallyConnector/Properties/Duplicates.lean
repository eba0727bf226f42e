import TallyConnector.Sync.Refinement
import TallyConnector.World.Groups

/-! # Duplicate documents

Every create is preceded by a GET for its natural key, except the ones the
transport retry repeats: a POST that was applied and whose answer was lost is
sent again at once (`duplicate_document_groups`). Where a GET was answered since the
last applied POST, a key never gets a second document
(`documents_unique`).
-/

namespace TallyConnector

open Effects

variable {δ : Type} {engine : SyncEngine δ}

/-- Frappe's own guarantees about its documents. -/
structure DocsOk (docs : List Doc) : Prop where
  named : ∀ doc ∈ docs, doc.name ≠ ""
  unique : ∀ doc ∈ docs, ∀ doc' ∈ docs,
    doc.doctype = doc'.doctype → doc.name = doc'.name → doc = doc'

theorem DocsOk.post {docs : List Doc} (h : DocsOk docs) {doctype name : String} {payload : Dict}
    (hfresh : FreshName docs doctype name) : DocsOk (postDoc docs doctype name payload) where
  named := by
    intro doc hdoc
    rcases List.mem_cons.mp hdoc with rfl | hold
    · exact hfresh.1
    · exact h.named doc hold
  unique := by
    intro doc hdoc doc' hdoc' hdoctype hname
    rcases List.mem_cons.mp hdoc with rfl | hold
    · rcases List.mem_cons.mp hdoc' with rfl | hold'
      · rfl
      · exact absurd hname.symm (hfresh.2 doc' hold' hdoctype.symm)
    · rcases List.mem_cons.mp hdoc' with rfl | hold'
      · exact absurd hname (hfresh.2 doc hold hdoctype)
      · exact h.unique doc hold doc' hold' hdoctype hname

theorem DocsOk.put {docs : List Doc} (h : DocsOk docs) {doctype name : String}
    {payload : Dict} : DocsOk (putDoc docs doctype name payload) where
  named := by
    intro doc hdoc
    rcases mem_putDoc.mp hdoc with ⟨old, hold, _, rfl⟩ | ⟨hold, _⟩
    · exact h.named old hold
    · exact h.named doc hold
  unique := by
    intro doc hdoc doc' hdoc' hdoctype hname
    rcases mem_putDoc.mp hdoc with ⟨old, hold, htarget, rfl⟩ | ⟨hold, htarget⟩ <;>
      rcases mem_putDoc.mp hdoc' with ⟨old', hold', htarget', rfl⟩ | ⟨hold', htarget'⟩
    · rw [h.unique old hold old' hold' hdoctype hname]
    · exact absurd ⟨hdoctype ▸ htarget.1, hname ▸ htarget.2⟩ htarget'
    · exact absurd ⟨hdoctype.trans htarget'.1, hname.trans htarget'.2⟩ htarget
    · exact h.unique doc hold doc' hold' hdoctype hname

/-! ## Carriers of a key -/

section carriers

variable {docs : List Doc} {doctype field name : String} {value : Json} {payload : Dict}

/-- A new document is a carrier if its payload is. -/
theorem carriers_postDoc {doctype' : String} :
    carriers (postDoc docs doctype' name payload) doctype field value =
      if doctype' = doctype ∧ payload.lookup field = some value then
        ⟨doctype', name, payload⟩ :: carriers docs doctype field value
      else carriers docs doctype field value := by
  simp only [carriers, matching, postDoc, List.filter_cons]
  by_cases h : doctype' = doctype ∧ payload.lookup field = some value
  · simp [h.1, h.2]
  · rw [if_neg h, if_neg]
    simpa using h

/-- An update that keeps a field's value where it applies keeps the number of
its carriers. -/
theorem length_carriers_putDoc {doctype' : String}
    (h : ∀ doc ∈ docs, doc.doctype = doctype' → doc.name = name → doc.doctype = doctype →
      (doc.merge payload).fields.lookup field = doc.fields.lookup field) :
    (carriers (putDoc docs doctype' name payload) doctype field value).length =
      (carriers docs doctype field value).length := by
  simp only [carriers, matching, putDoc, List.filter_map, List.length_map]
  congr 1
  refine List.filter_congr fun doc hdoc => ?_
  simp only [Function.comp_apply]
  split
  · next htarget =>
    by_cases hdoctype : doc.doctype = doctype
    · simp [h doc hdoc htarget.1 htarget.2 hdoctype]
    · rw [Doc.merge_doctype, beq_eq_false_iff_ne.mpr hdoctype, Bool.false_and, Bool.false_and]
  · rfl

end carriers

/-! ## The invariant -/

/-- Every POST that Frappe applies comes after a GET that was answered since
the last applied POST. -/
def polledPosts : Assumed δ :=
  fun e choice w =>
    match e, choice with
    | .frappe (.post _ _ _), .lose _ _ | .frappe (.post _ _ _), .serve _ _ =>
        polledSincePost w.log = true
    | _, _ => True

/-- The entity is the only one that is mapped to its doctype, and its natural
key the only field that is mapped to the key's Frappe field. -/
structure SyncEngine.OwnsKey (engine : SyncEngine δ) (spec : EntitySpec) (me : MappingEntry) :
    Prop where
  hspec : spec ∈ engine.registry.specs
  hme : engine.mapping.entry spec.name = some me
  mapsKey : me.MapsKey spec.naturalKeyField
  owned : ∀ spec' ∈ engine.registry.specs, ∀ me', engine.mapping.entry spec'.name = some me' →
    me'.frappeDoctype = me.frappeDoctype → spec' = spec

variable {spec : EntitySpec} {me : MappingEntry}

/-- The documents of the entity's doctype that carry a natural key. -/
def keyCarriers (spec : EntitySpec) (me : MappingEntry) (docs : List Doc) (key : String) :
    List Doc :=
  carriers docs me.frappeDoctype (me.keyField spec.naturalKeyField) (.str key)

theorem SyncEngine.OwnsKey.item_spec (h : engine.OwnsKey spec me) {item : Item engine}
    (hdoctype : item.doctype = me.frappeDoctype) : item.spec = spec :=
  h.owned item.spec item.hspec item.me item.hme hdoctype

theorem SyncEngine.OwnsKey.item_me (h : engine.OwnsKey spec me) {item : Item engine}
    (hspec : item.spec = spec) : item.me = me :=
  item.me_of_spec hspec h.hme

/-- An item's payload carries its key. -/
theorem SyncEngine.OwnsKey.lookup_payload (h : engine.OwnsKey spec me) {item : Item engine}
    (hspec : item.spec = spec) :
    item.payload.lookup (me.keyField spec.naturalKeyField) = some (.str item.key) := by
  rw [Item.payload, h.item_me hspec]
  refine h.mapsKey.lookup_apply ?_
  rw [← hspec]
  exact Model.lookup_of_usableKey item.hkey

structure Deduped (engine : SyncEngine δ) (spec : EntitySpec) (me : MappingEntry)
    (w : World δ) : Prop extends DocsOk w.docs where
  single : ∀ key, (keyCarriers spec me w.docs key).length ≤ 1
  /-- A cache row names a document that carries the row's key. -/
  cached : ∀ item : Item engine, item.spec = spec → ∀ row,
    w.db.syncCache item.cacheKey = some row →
      ∃ doc ∈ keyCarriers spec me w.docs item.key, doc.name = row.frappeName

variable {ops : Operation → Prop} {allow : Assumed δ} {w w' : World δ}

theorem deduped_post (hown : engine.OwnsKey spec me) (h : Deduped engine spec me w)
    {item : Item engine} {name : String} (hfresh : FreshName w.docs item.doctype name)
    (hpolled : polledSincePost w.log = true) (hunposted : item.Unposted w) :
    Deduped engine spec me (w.post item.doctype name item.payload) where
  toDocsOk := h.toDocsOk.post hfresh
  single := by
    intro key
    change (carriers (postDoc _ _ _ _) _ _ _).length ≤ 1
    rw [carriers_postDoc]
    split
    · next hnew =>
      -- the key is the item's, and the GET found no document with it
      have hspec := hown.item_spec hnew.1
      have hkey : key = item.key := by
        have hlookup := hown.lookup_payload hspec
        rw [hnew.2] at hlookup
        simpa using hlookup
      have hnone := hunposted hpolled h.named
      have hcarriers : carriers w.docs me.frappeDoctype (me.keyField spec.naturalKeyField)
          (.str item.key) = [] := by
        rw [Item.carriers, Item.doctype, Item.keyField, hown.item_me hspec, hspec] at hnone
        exact hnone
      rw [hkey, hcarriers]
      rfl
    · exact h.single key
  cached := by
    intro item' hspec' row hrow
    obtain ⟨doc, hdoc, hname⟩ := h.cached item' hspec' row hrow
    obtain ⟨hmem, hrest⟩ := mem_carriers.mp hdoc
    exact ⟨doc, mem_carriers.mpr ⟨List.mem_cons_of_mem _ hmem, hrest⟩, hname⟩

theorem deduped_put (hown : engine.OwnsKey spec me) (h : Deduped engine spec me w)
    {item : Item engine} {row : CacheRow δ} (hrow : w.db.syncCache item.cacheKey = some row) :
    Deduped engine spec me (w.put item.doctype row.frappeName item.payload) := by
  -- where the update applies it writes the value that is there
  have hsame : ∀ doc ∈ w.docs, doc.doctype = item.doctype → doc.name = row.frappeName →
      doc.doctype = me.frappeDoctype →
        (doc.merge item.payload).fields.lookup (me.keyField spec.naturalKeyField) =
          doc.fields.lookup (me.keyField spec.naturalKeyField) := by
    intro doc hdoc hdoctype hname hmine
    have hspec := hown.item_spec (hdoctype.symm.trans hmine)
    obtain ⟨doc', hdoc', hname'⟩ := h.cached item hspec row hrow
    obtain ⟨hmem', hdoctype', hlookup'⟩ := mem_carriers.mp hdoc'
    obtain rfl : doc = doc' :=
      h.unique doc hdoc doc' hmem' (hmine.trans hdoctype'.symm) (hname.trans hname'.symm)
    rw [Doc.lookup_merge, hown.lookup_payload hspec, hlookup']
    rfl
  exact {
    toDocsOk := h.toDocsOk.put
    single := fun key => by
      change (carriers (putDoc _ _ _ _) _ _ _).length ≤ 1
      rw [length_carriers_putDoc hsame]
      exact h.single key
    cached := fun item' hspec' row' hrow' => by
      obtain ⟨doc, hdoc, hname⟩ := h.cached item' hspec' row' hrow'
      obtain ⟨hmem, hdoctype, hlookup⟩ := mem_carriers.mp hdoc
      by_cases htarget : doc.doctype = item.doctype ∧ doc.name = row.frappeName
      · refine ⟨doc.merge item.payload, mem_carriers.mpr
          ⟨mem_putDoc.mpr (.inl ⟨doc, hmem, htarget, rfl⟩), hdoctype, ?_⟩, hname⟩
        rw [hsame doc hmem htarget.1 htarget.2 hdoctype, hlookup]
      · exact ⟨doc, mem_carriers.mpr
          ⟨mem_putDoc.mpr (.inr ⟨hmem, htarget⟩), hdoctype, hlookup⟩, hname⟩ }

/-- A cache row may be written for a document that carries the key. -/
theorem deduped_setCache (h : Deduped engine spec me w)
    {item : Item engine} {row : CacheRow δ}
    (hdoc : item.spec = spec →
      ∃ doc ∈ keyCarriers spec me w.docs item.key, doc.name = row.frappeName) :
    Deduped engine spec me (w.setCache item.cacheKey row) where
  toDocsOk := h.toDocsOk
  single := h.single
  cached := by
    intro item' hspec' row' hrow'
    simp only [World.setCache, Function.update_apply] at hrow'
    split at hrow'
    · next hkey =>
      cases hrow'
      obtain ⟨hspec, hkey⟩ := Item.cacheKey_inj hkey
      rw [hkey]
      exact hdoc (hspec.symm.trans hspec')
    · exact h.cached item' hspec' row' hrow'

theorem deduped_step (hown : engine.OwnsKey spec me)
    (hallow : ∀ e c w, allow e c w → polledPosts e c w)
    (hstep : engine.Step ops allow w w') (h : Deduped engine spec me w) :
    Deduped engine spec me w' := by
  cases hstep with
  | post item name choice _ hfresh hunposted hchoice ha =>
      refine deduped_post hown h hfresh ?_ hunposted
      have hpolled := hallow _ _ _ ha
      rcases hchoice with ⟨outcome, rfl⟩ | ⟨order, rfl⟩
      · exact hpolled
      · exact hpolled
  | put item row _ hrow _ => exact deduped_put hown h hrow
  | remember item name at' hdoc =>
      refine deduped_setCache h fun hspec => ?_
      obtain ⟨doc, hmem, hname⟩ := hdoc
      rw [Item.carriers, Item.doctype, Item.keyField, hown.item_me hspec, hspec] at hmem
      exact ⟨doc, hmem, hname⟩
  | save item name at' _ hstored =>
      refine deduped_setCache h fun hspec => ?_
      obtain ⟨doc, hmem, hdoctype, hname, hholds⟩ := hstored
      rw [Item.doctype, hown.item_me hspec] at hdoctype
      exact ⟨doc, mem_carriers.mpr
        ⟨hmem, hdoctype, hholds _ _ (hown.lookup_payload hspec)⟩, hname⟩
  | _ => exact ⟨h.toDocsOk, h.single, h.cached⟩

/-! ## One document per key -/

/-- A fresh database next to a site without duplicates. -/
structure SiteOk (spec : EntitySpec) (me : MappingEntry) (w : World δ) : Prop
    extends DocsOk w.docs where
  fresh : w.Fresh
  single : ∀ key, (keyCarriers spec me w.docs key).length ≤ 1

section
variable [DecidableEq δ]

/-- In every run in which Frappe applies no POST without a GET answered since
the last one, whatever Tally sends and whatever else fails, every natural key
is carried by at most one document. -/
theorem documents_unique (hown : engine.OwnsKey spec me)
    {c : Config (@Call.Resp δ) Exn (World δ)}
    (hc : (engine.machine fun _ => True).Reach polledPosts (SiteOk spec me) c) (key : String) :
    (keyCarriers spec me c.world.docs key).length ≤ 1 := by
  have hdeduped : Deduped engine spec me c.world := by
    refine engine.invariant (fun w hw => ⟨hw.toDocsOk, hw.single, ?_⟩)
      (fun w w' hstep h => deduped_step hown (fun _ _ _ ha => ha) hstep h) hc
    simp [hw.fresh.db, DB.empty]
  exact hdeduped.single key

end

/-- `polledPosts`, decided. -/
def checkPolledPosts (e : Call δ) (choice : Choice) (w : World δ) : Bool :=
  match e, choice with
  | .frappe (.post _ _ _), .lose _ _ | .frappe (.post _ _ _), .serve _ _ =>
      polledSincePost w.log
  | _, _ => true

theorem polledPosts_of_check (e : Call δ) (choice : Choice) (w : World δ)
    (h : checkPolledPosts e choice w = true) : polledPosts e choice w := by
  unfold polledPosts
  split <;> first | exact h | trivial

theorem ownsKey_groupEngine (retryMaxAttempts : Int) (pages : List (List Group)) :
    (groupEngine retryMaxAttempts pages).OwnsKey group groupMapping where
  hspec := List.mem_cons_self
  hme := rfl
  mapsKey := ⟨by decide, by decide⟩
  owned := by
    intro spec' hspec' _ _ _
    exact List.mem_singleton.mp hspec'

theorem siteOk_groupWorld (company : Company) : SiteOk group groupMapping (groupWorld company) where
  named := by simp [groupWorld]
  unique := by simp [groupWorld]
  fresh := ⟨rfl, rfl, rfl, rfl⟩
  single := by simp [groupWorld, keyCarriers, carriers, matching]

/-- The answer to a POST is lost, the process crashes before the next attempt,
and the next sync finds the document. -/
theorem documents_unique_groups :
    let assets : Group := { guid := "g-1", name := "Assets", alterId := 1 }
    let engine := groupEngine 2 [[assets]]
    ∃ c, (engine.machine fun _ => True).Reach polledPosts (SiteOk group groupMapping) c ∧
      c.world.docs.length = 1 ∧ (keyCarriers group groupMapping c.world.docs "g-1").length ≤ 1 := by
  intro assets engine
  obtain ⟨c, hc, hfinal⟩ := Machine.Reach.exists_of_run (M := engine.machine fun _ => True)
    polledPosts_of_check (siteOk_groupWorld (groupCompany [assets] 1))
    [.start ⟨.fullSync, trivial⟩, .call .inMemory, .call (groupResponse [assets]),
      .call .inMemory, .call .commit, .call (.serve "" []), .call .commit,
      .call (.lose "GRP-1" (.timeout "Read timed out.")), .crash,
      -- the restart
      .start ⟨.fullSync, trivial⟩, .call .inMemory, .call (groupResponse [assets]),
      .call .inMemory, .call .commit,
      .call (.serve "" [⟨"Tally Group", "GRP-1",
        groupMapping.apply ((groupPydantic.tallyMaster assets.raw).toOption.map (·.dump) |>.getD ∅)⟩]),
      .call (.clock 0), .call .commit, .call .commit, .call (.serve "" []), .call .inMemory,
      .call (.clock 0), .call .commit,
      .call (.clock 0), .call (.clock 0), .call .commit, .call .inMemory, .finish]
    (fun c => c.world.docs.length = 1)
    (by decide +kernel)
  exact ⟨c, hc, of_decide_eq_true hfinal, documents_unique (ownsKey_groupEngine _ _) hc "g-1"⟩

/-- The answer to a POST is lost and the transport retry sends it again: two
documents carry the key. -/
theorem duplicate_document_groups :
    let assets : Group := { guid := "g-1", name := "Assets", alterId := 1 }
    let engine := groupEngine 2 [[assets]]
    engine.OwnsKey group groupMapping ∧
      ∃ c, (engine.machine fun _ => True).Reach engine.snapshots (SiteOk group groupMapping) c ∧
        (keyCarriers group groupMapping c.world.docs "g-1").length = 2 := by
  intro assets engine
  refine ⟨ownsKey_groupEngine _ _, ?_⟩
  obtain ⟨c, hc, hfinal⟩ := Machine.Reach.exists_of_run (M := engine.machine fun _ => True)
    engine.snapshots_of_check (siteOk_groupWorld (groupCompany [assets] 1))
    [.start ⟨.fullSync, trivial⟩, .call .inMemory, .call (groupResponse [assets]),
      .call .inMemory, .call .commit, .call (.serve "" []), .call .commit,
      .call (.lose "GRP-1" (.timeout "Read timed out.")), .call (.serve "GRP-2" [])]
    (fun c => (keyCarriers group groupMapping c.world.docs "g-1").length = 2)
    (by decide +kernel)
  exact ⟨c, hc, of_decide_eq_true hfinal⟩

end TallyConnector
