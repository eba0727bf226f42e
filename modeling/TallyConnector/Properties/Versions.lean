import TallyConnector.Sync.Calm
import TallyConnector.Sync.Outcomes
import TallyConnector.World.Groups

/-! # What a document keeps of its record's history

A PUT overwrites the fields it sends, and `MappingEntry.apply` leaves out the
fields that the model does not have. So a document shows, field by field, the
latest version of its record that had the field, and not always the latest
version.
-/

namespace TallyConnector

open Effects Prog

variable {δ : Type} {engine : SyncEngine δ} {spec : EntitySpec} {me : MappingEntry}
variable {key : String} {w w' : World δ} {payloads : List Dict}

/-! ## The document of a name -/

/-- The document is the only one of that name in its doctype. -/
structure OnlyDoc (docs : List Doc) (doctype name : String) (doc : Doc) : Prop where
  mem : doc ∈ docs
  ofDoctype : doc.doctype = doctype
  named : doc.name = name
  only : ∀ other ∈ docs, other.doctype = doctype → other.name = name → other = doc

theorem OnlyDoc.post {docs : List Doc} {doctype name : String} (payload : Dict)
    (hfresh : FreshName docs doctype name) :
    OnlyDoc (postDoc docs doctype name payload) doctype name ⟨doctype, name, payload⟩ where
  mem := List.mem_cons_self
  ofDoctype := rfl
  named := rfl
  only := by
    intro other hother hdoctype hname
    rcases List.mem_cons.mp hother with heq | hold
    · exact heq
    · exact absurd hname (hfresh.2 other hold hdoctype)

theorem OnlyDoc.put {docs : List Doc} {doctype name : String} {doc : Doc}
    (h : OnlyDoc docs doctype name doc) (payload : Dict) :
    OnlyDoc (putDoc docs doctype name payload) doctype name (doc.merge payload) where
  mem := mem_putDoc.mpr (.inl ⟨doc, h.mem, ⟨h.ofDoctype, h.named⟩, rfl⟩)
  ofDoctype := h.ofDoctype
  named := h.named
  only := by
    intro other hother hdoctype hname
    rcases mem_putDoc.mp hother with ⟨old, hold, ⟨hd, hn⟩, rfl⟩ | ⟨hold, hnot⟩
    · rw [h.only old hold hd hn]
    · exact absurd ⟨hdoctype, hname⟩ hnot

/-! ## A history of pushes -/

/-- Versions of one record, the latest first, all pushed successfully; what
happens between the pushes leaves the documents and the cache alone. -/
inductive SyncEngine.PushedAll [DecidableEq δ] (engine : SyncEngine δ) (spec : EntitySpec)
    (key : String) : List (Item engine) → World δ → World δ → Prop
  | nil (w : World δ) : PushedAll engine spec key [] w w
  | push {item : Item engine} {items : List (Item engine)} {w w₁ w' : World δ}
      (hbefore : PushedAll engine spec key items w w₁) (hspec : item.spec = spec)
      (hkey : item.key = key)
      (hrun : (engine.pushRecord item.spec item.me item.model).Runs engine.answers w₁ (.ok ()) w') :
      PushedAll engine spec key (item :: items) w w'
  | elsewhere {items : List (Item engine)} {w w₁ w' : World δ}
      (hbefore : PushedAll engine spec key items w w₁) (hdocs : w'.docs = w₁.docs)
      (hcache : w'.db.syncCache = w₁.db.syncCache) : PushedAll engine spec key items w w'

/-- The cached document has, field by field, the value in the first payload
that has the field; the cached hash is that of the first payload. -/
def SyncEngine.Latest (engine : SyncEngine δ) (spec : EntitySpec) (me : MappingEntry)
    (key : String) (payloads : List Dict) (w : World δ) : Prop :=
  ∃ row doc, w.db.syncCache (engine.cacheKey spec.name key) = some row ∧ row.frappeName ≠ "" ∧
    row.contentHash = payloads.head?.map engine.contentHash ∧
    OnlyDoc w.docs me.frappeDoctype row.frappeName doc ∧
    ∀ field, doc.fields.lookup field = payloads.findSome? (·.lookup field)

/-- A record that Frappe and the cache do not know. -/
structure SyncEngine.Unknown (engine : SyncEngine δ) (spec : EntitySpec) (me : MappingEntry)
    (key : String) (w : World δ) : Prop where
  cache : w.db.syncCache (engine.cacheKey spec.name key) = none
  docs : carriers w.docs me.frappeDoctype (me.keyField spec.naturalKeyField) (.str key) = []

variable [DecidableEq δ]

/-- The first push creates the document. -/
theorem returns_pushRecord_new (item : Item engine)
    (h : engine.Unknown item.spec item.me item.key w) :
    engine.Returns (fun _ w' => engine.Latest item.spec item.me item.key [item.payload] w')
      (engine.pushRecord item.spec item.me item.model) w := by
  unfold SyncEngine.pushRecord findExisting
  rw [item.hkey]
  simp only [item.cacheKey_me]
  refine Returns.bind (Returns.bind (Returns.bind (returns_selectCache (returns_pure ?_))))
  -- no row and no document: the lookup finds none
  have hcache : w.db.syncCache item.cacheKey = none := h.cache
  rw [hcache]
  refine Returns.bind (returns_get fun order log horder => ?_)
  have hnil : order = [] := by
    rw [show matching _ _ _ = [] from h.docs] at horder
    exact horder.eq_nil
  subst hnil
  refine returns_pure (Returns.bind (returns_selectCache ?_))
  -- so there is no hash to compare with
  dsimp only
  rw [if_neg (by simp)]
  refine Returns.bind ?_
  -- and the document is created
  unfold SyncEngine.sendRecord
  rw [if_neg (by simp)]
  refine Returns.bind (returns_create fun name w₁ hdb hfresh => ?_)
  refine Returns.bind (returns_ofExcept fun frappeName hname => ?_)
  cases hname
  refine Returns.bind (returns_resultOp (returns_pure ?_))
  refine returns_upsertCache fun lastPushedAt => ?_
  refine ⟨_, _, Function.update_self .., hfresh.1, rfl, OnlyDoc.post _ hfresh, fun field => ?_⟩
  change item.payload.lookup field = _
  rw [List.findSome?_cons]
  cases item.payload.lookup field <;> rfl

/-- Every further push puts the fields that its payload has over the document's. -/
theorem returns_pushRecord_known (hinj : Function.Injective engine.contentHash)
    (item : Item engine) (h : engine.Latest item.spec item.me item.key payloads w)
    (hne : payloads ≠ []) :
    engine.Returns
      (fun _ w' => engine.Latest item.spec item.me item.key (item.payload :: payloads) w')
      (engine.pushRecord item.spec item.me item.model) w := by
  rcases h with ⟨row, doc, hrow, hname, hhash, honly, hfields⟩
  have hcache : w.db.syncCache item.cacheKey = some row := hrow
  unfold SyncEngine.pushRecord findExisting
  rw [item.hkey]
  simp only [item.cacheKey_me]
  refine Returns.bind (Returns.bind (Returns.bind (returns_selectCache (returns_pure ?_))))
  rw [hcache]
  have husable : nonEmpty (Option.map CacheRow.frappeName (some row)) = some row.frappeName := by
    simp [nonEmpty, hname]
  simp only [husable]
  refine returns_pure (Returns.bind (returns_selectCache ?_))
  change engine.Returns _ (if _ && (w.db.syncCache item.cacheKey).any _ then _ else _) w
  rw [hcache]
  split
  · next hskip =>
    -- the cached hash is the payload's, so the payload is the last one
    have hsame : row.contentHash = some (engine.contentHash (item.me.apply item.model.dump)) := by
      simpa [Json.truthy_str.mpr hname] using hskip
    refine Returns.bind (returns_resultOp (returns_pure ?_))
    refine ⟨row, doc, hrow, hname, hsame, honly, fun field => ?_⟩
    cases payloads with
    | nil => exact absurd rfl hne
    | cons payload payloads =>
      have hpayload : payload = item.payload := by
        rw [hhash] at hsame
        exact hinj (Option.some.inj hsame)
      rw [hfields field, List.findSome?_cons, List.findSome?_cons, List.findSome?_cons, hpayload]
      cases item.payload.lookup field <;> rfl
  · refine Returns.bind ?_
    unfold SyncEngine.sendRecord
    rw [if_pos (Json.truthy_str.mpr hname)]
    refine Returns.bind (returns_update hname fun value w₁ hdb hdocs => ?_)
    refine Returns.bind (returns_resultOp (returns_pure ?_))
    refine returns_upsertCache fun lastPushedAt => ?_
    refine ⟨_, doc.merge item.payload, Function.update_self .., hname, rfl, ?_, fun field => ?_⟩
    · change OnlyDoc w₁.docs _ _ _
      rw [hdocs]
      exact honly.put item.payload
    · rw [Doc.lookup_merge, hfields field, List.findSome?_cons]
      cases item.payload.lookup field <;> rfl

/-- After pushes of a record that was unknown, its document shows the latest
values. -/
theorem SyncEngine.PushedAll.latest (hinj : Function.Injective engine.contentHash)
    (hme : engine.mapping.entry spec.name = some me) (hunknown : engine.Unknown spec me key w)
    {items : List (Item engine)} (h : engine.PushedAll spec key items w w') :
    if items = [] then engine.Unknown spec me key w'
    else engine.Latest spec me key (items.map Item.payload) w' := by
  induction h with
  | nil w => exact hunknown
  | @push item items w w₁ w' hbefore hspec hkey hrun ih =>
    have hme' : item.me = me := item.me_of_spec hspec hme
    subst hspec hkey hme'
    rw [if_neg (List.cons_ne_nil item items)]
    cases items with
    -- the first push creates the document
    | nil => exact (returns_pushRecord_new item (ih hunknown)).of_runs hrun () rfl
    | cons previous items =>
      -- a later one finds it by the row
      exact (returns_pushRecord_known hinj item (ih hunknown) (by simp)).of_runs hrun () rfl
  | elsewhere hbefore hdocs hcache ih =>
    -- what is done in between touches neither row nor documents of this key
    have ih := ih hunknown
    split at ih
    · next hnil =>
      rw [if_pos hnil]
      exact ⟨hcache ▸ ih.cache, hdocs ▸ ih.docs⟩
    · next hne =>
      rw [if_neg hne]
      unfold SyncEngine.Latest at ih ⊢
      rw [hdocs, hcache]
      exact ih

/-- The document has each field's value in the latest version that had the
field. It shows what a first create of the last version would exactly in the
fields that this version has, or that none had. -/
theorem document_shows_latest (hinj : Function.Injective engine.contentHash)
    (hme : engine.mapping.entry spec.name = some me) (hunknown : engine.Unknown spec me key w)
    {last : Item engine} {items : List (Item engine)}
    (h : engine.PushedAll spec key (last :: items) w w') :
    ∃ row doc, w'.db.syncCache (engine.cacheKey spec.name key) = some row ∧
      OnlyDoc w'.docs me.frappeDoctype row.frappeName doc ∧
      ∀ field,
        doc.fields.lookup field = (last :: items).findSome? (·.payload.lookup field) ∧
        (doc.fields.lookup field = last.payload.lookup field ↔
          (last.payload.lookup field).isSome ∨
            ∀ item ∈ items, item.payload.lookup field = none) := by
  have hlatest := h.latest hinj hme hunknown
  rw [if_neg (List.cons_ne_nil last items)] at hlatest
  rcases hlatest with ⟨row, doc, hrow, -, -, honly, hfields⟩
  refine ⟨row, doc, hrow, honly, fun field => ?_⟩
  have hvalue : doc.fields.lookup field = (last :: items).findSome? (·.payload.lookup field) := by
    rw [hfields field, List.findSome?_map]
    rfl
  constructor
  · exact hvalue
  · rw [hvalue, List.findSome?_cons]
    cases last.payload.lookup field with
    | some value => simp
    | none => simp [List.findSome?_eq_none_iff]

/-! ## A group that loses its parent -/

def underPrimary : Group :=
  { guid := "g-1", name := "Assets", parent := some "Primary", alterId := 1 }

def withoutParent : Group := { guid := "g-1", name := "Assets", alterId := 2 }

/-- The item of a valid group. -/
def Group.item (g : Group) {retryMaxAttempts : Int} {pages : List (List Group)} (model : Model)
    (key : String) (hmodel : toModel g.raw group = .ok model)
    (hkey : model.usableKey group = some key) : Item (groupEngine retryMaxAttempts pages) where
  spec := group
  me := groupMapping
  raw := g.raw
  model := model
  key := key
  hspec := group_mem_specs _ _
  hme := rfl
  hmodel := hmodel
  hkey := hkey

def underPrimaryItem : Item (groupEngine 1 []) :=
  underPrimary.item ((groupPydantic.tallyMaster underPrimary.raw).toOption.getD ⟨∅⟩) "g-1" (by rfl)
    (by decide +kernel)

def withoutParentItem : Item (groupEngine 1 []) :=
  withoutParent.item ((groupPydantic.tallyMaster withoutParent.raw).toOption.getD ⟨∅⟩) "g-1" (by rfl)
    (by decide +kernel)

theorem unknown_groupWorld :
    (groupEngine 1 []).Unknown group groupMapping "g-1" (groupWorld (groupCompany [] 0)) where
  cache := rfl
  docs := rfl

/-- Both versions are pushed, one after the other. -/
theorem exists_pushedAll_groups :
    ∃ w', (groupEngine 1 []).PushedAll group "g-1" [withoutParentItem, underPrimaryItem]
      (groupWorld (groupCompany [] 0)) w' := by
  have hplay : ((play (groupEngine 1 []).exec
      [.commit, .serve "" [], .commit, .serve "GRP-1" [], .inMemory, .clock 0, .commit]
      ((groupEngine 1 []).pushRecord group groupMapping underPrimaryItem.model)
      (groupWorld (groupCompany [] 0))).any fun first =>
        first.1.toOption.isSome ∧
          (play (groupEngine 1 []).exec
            [.commit, .commit, .serve "" [], .inMemory, .clock 0, .commit]
            ((groupEngine 1 []).pushRecord group groupMapping withoutParentItem.model)
            first.2).any fun second => second.1.toOption.isSome) = true := by
    decide +kernel
  have hstep : ∀ e c w a w', (groupEngine 1 []).exec e c w = some (a, w') →
      (groupEngine 1 []).answers e w a w' := fun e c w a w' h => ⟨c, h⟩
  have hok : ∀ r : Except Exn Unit, r.toOption.isSome → r = .ok () := by
    intro r hr
    cases r with
    | ok _ => rfl
    | error exc => cases hr
  obtain ⟨⟨r, w₁⟩, hrun, hfirst⟩ := (Option.any_eq_true _ _).mp hplay
  obtain ⟨hr, hplay'⟩ := of_decide_eq_true hfirst
  obtain ⟨⟨r', w₂⟩, hrun', hr'⟩ := (Option.any_eq_true _ _).mp hplay'
  have hruns := runs_of_play hstep hrun
  have hruns' := runs_of_play hstep hrun'
  rw [hok r hr] at hruns
  rw [hok r' hr'] at hruns'
  exact ⟨w₂, .push
    (.push (.nil _) rfl rfl hruns) rfl rfl hruns'⟩

/-- The group's document keeps the parent that its last version does not have. -/
theorem document_shows_latest_groups :
    ∃ w' row doc, (groupEngine 1 []).PushedAll group "g-1" [withoutParentItem, underPrimaryItem]
        (groupWorld (groupCompany [] 0)) w' ∧
      w'.db.syncCache ((groupEngine 1 []).cacheKey group.name "g-1") = some row ∧
      OnlyDoc w'.docs groupMapping.frappeDoctype row.frappeName doc ∧
      doc.fields.lookup "parent_group" = some (.str "Primary") := by
  obtain ⟨w', hpushed⟩ := exists_pushedAll_groups
  obtain ⟨row, doc, hrow, honly, hfields⟩ := document_shows_latest
    (contentHash_groupEngine_injective _ _) rfl unknown_groupWorld hpushed
  exact ⟨w', row, doc, hpushed, hrow, honly, (hfields "parent_group").1.trans (by decide +kernel)⟩

/-- A first create of the last version would have given the document no
parent. -/
theorem document_shows_history :
    let engine := groupEngine 1 []
    let w := groupWorld (groupCompany [] 0)
    engine.Unknown group groupMapping "g-1" w ∧ "parent_group" ∈ groupMapping.fieldMap.map Prod.snd ∧
      ∃ w' row doc, engine.PushedAll group "g-1" [withoutParentItem, underPrimaryItem] w w' ∧
        w'.db.syncCache (engine.cacheKey group.name "g-1") = some row ∧
        OnlyDoc w'.docs groupMapping.frappeDoctype row.frappeName doc ∧
        doc.fields.lookup "parent_group" ≠ withoutParentItem.payload.lookup "parent_group" := by
  refine ⟨unknown_groupWorld, by decide, ?_⟩
  obtain ⟨w', hpushed⟩ := exists_pushedAll_groups
  obtain ⟨row, doc, hrow, -, -, honly, hfields⟩ :=
    hpushed.latest (contentHash_groupEngine_injective _ _) rfl unknown_groupWorld
  refine ⟨w', row, doc, hpushed, hrow, honly, ?_⟩
  rw [hfields "parent_group"]
  decide +kernel

end TallyConnector
