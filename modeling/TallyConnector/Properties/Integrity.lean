import TallyConnector.Sync.Refinement
import TallyConnector.World.Groups

/-! # What the connector may write

Whatever fails and wherever the process crashes, no document disappears, and a
field of a document only ever changes to the value that a record sent by Tally
maps to it (`documents_kept`). In particular the documents of doctypes that no
entity is mapped to stay as they are, and so do the fields that no `field_map`
names.

The client puts doctypes and names into its URLs as they are. So they are
assumed to be plain: a document called `../Customer/C-1` would have a PUT go to
another doctype.
-/

namespace TallyConnector

open Effects Tables

variable {δ : Type} {engine : SyncEngine δ} {P : EntitySpec → Record → Prop}
variable {ops : Operation → Prop} {allow : Assumed δ} {w w' : World δ}

namespace MappingEntry

variable {me : MappingEntry} {modelDict : Dict} {field : String} {value : Json}

/-- A payload has no other fields than the mapped ones. -/
theorem mem_fieldMap_of_apply (h : (me.apply modelDict).lookup field = some value) :
    field ∈ me.fieldMap.map Prod.snd := by
  by_contra hnot
  have hnone : (me.apply modelDict).lookup field = none := by
    unfold apply
    rw [lookup_foldl_of_forall_ne]
    · rfl
    · intro pair hpair heq
      exact hnot (heq ▸ List.mem_map_of_mem hpair)
  rw [hnone] at h
  cases h

end MappingEntry

/-! ## URLs -/

/-- The text stands in a URL as it is: it is no step of a path, and no character
of it has a meaning there. -/
def UrlPlain (text : String) : Prop :=
  text ∉ ["", ".", ".."] ∧
    text.toList.all fun c => c ∉ ['/', '\\', '?', '#', '%'] ∧ 32 ≤ c.toNat

instance (text : String) : Decidable (UrlPlain text) := inferInstanceAs (Decidable (_ ∧ _))

theorem UrlPlain.no_slash {text : String} (h : UrlPlain text) : '/' ∉ text.toList := by
  intro hmem
  have hall := List.all_eq_true.mp h.2 '/' hmem
  simp at hall

theorem FrappeClient.url_of_plain (client : FrappeClient δ) {doctype name : String}
    (h : UrlPlain name) : client.url doctype (some name) =
      client.baseUrl ++ "/api/resource/" ++ doctype ++ "/" ++ name := by
  unfold FrappeClient.url
  split
  · next heq => cases heq
  · next heq =>
    cases heq
    exact absurd List.mem_cons_self h.1
  · next heq =>
    cases heq
    rfl

/-- A URL has one document. -/
theorem FrappeClient.url_inj (client : FrappeClient δ) {doctype doctype' name name' : String}
    (hdoctype : UrlPlain doctype) (hname : UrlPlain name) (hname' : UrlPlain name') :
    client.url doctype (some name) = client.url doctype' (some name') ↔
      doctype = doctype' ∧ name = name' := by
  rw [client.url_of_plain hname, client.url_of_plain hname', ← String.toList_inj]
  simp only [String.toList_append, List.append_assoc, List.append_cancel_left_eq]
  -- the first slash after the common part ends the doctype
  have hsplit : doctype.toList ++ '/' :: name.toList = doctype'.toList ++ '/' :: name'.toList ↔
      doctype.toList = doctype'.toList ∧ '/' = '/' ∧ name.toList = name'.toList :=
    List.append_cons_inj_of_notMem hdoctype.no_slash hname.no_slash
  exact hsplit.trans (by simp [String.toList_inj])

/-- The name of the document that a POST makes. -/
def Choice.newName : Choice → Option String
  | .serve name _ | .lose name _ => some name
  | _ => none

/-- All that the client puts into its URLs is plain, and so are the names of the
documents it makes. -/
def plainUrls (e : Call δ) (choice : Choice) : Bool :=
  match e with
  | .frappe (.get _ doctype _ _) => UrlPlain doctype
  | .frappe (.post _ doctype _) => UrlPlain doctype ∧ ∀ name ∈ choice.newName, UrlPlain name
  | .frappe (.put _ doctype (some (.str name)) _) => UrlPlain doctype ∧ UrlPlain name
  | .frappe (.put _ _ _ _) => false
  | _ => true

/-- A site whose documents can all be addressed. -/
def PlainDocs (docs : List Doc) : Prop := ∀ doc ∈ docs, UrlPlain doc.doctype ∧ UrlPlain doc.name

/-- There a PUT reaches the documents under its URL. -/
theorem PlainDocs.putDoc_eq (client : FrappeClient δ) {docs : List Doc} (h : PlainDocs docs)
    {name : String} (hname : UrlPlain name) (doctype : String) (payload : Dict) :
    putDoc docs doctype name payload = docs.map fun doc =>
      if client.url doc.doctype (some doc.name) = client.url doctype (some name) then
        doc.merge payload
      else doc := by
  refine List.map_congr_left fun doc hdoc => ?_
  have hiff : client.url doc.doctype (some doc.name) = client.url doctype (some name) ↔
      doc.doctype = doctype ∧ doc.name = name :=
    client.url_inj (h doc hdoc).1 (h doc hdoc).2 hname
  by_cases heq : doc.doctype = doctype ∧ doc.name = name
  · rw [if_pos heq, if_pos (hiff.mpr heq)]
  · rw [if_neg heq, if_neg fun hurl => heq (hiff.mp hurl)]

/-! ## Records from Tally -/

/-- Every record that Tally sends has the property. -/
def SyncEngine.sends (engine : SyncEngine δ) (P : EntitySpec → Record → Prop) : Assumed δ :=
  fun e choice _ =>
    match e, choice with
    | .tally request, .tally outcome =>
        ∀ spec ∈ engine.registry.specs, spec.name = request.entityName →
          ∀ records, engine.recordsOf spec outcome = .ok records → ∀ raw ∈ records, P spec raw
    | _, _ => True

/-- `sends`, decided. -/
def SyncEngine.checkSends (engine : SyncEngine δ) (p : EntitySpec → Record → Bool) (e : Call δ)
    (choice : Choice) (_w : World δ) : Bool :=
  match e, choice with
  | .tally request, .tally outcome =>
      engine.registry.specs.all fun spec =>
        spec.name != request.entityName ||
          (engine.recordsOf spec outcome).toOption.all fun records => records.all (p spec)
  | _, _ => true

theorem SyncEngine.sends_of_check {p : EntitySpec → Record → Bool} (e : Call δ)
    (choice : Choice) (w : World δ) (h : engine.checkSends p e choice w = true) :
    engine.sends (fun spec raw => p spec raw = true) e choice w := by
  unfold checkSends at h
  unfold sends
  split at h
  · intro spec hspec hname records hrecords raw hraw
    have hall := List.all_eq_true.mp h spec hspec
    simp only [hname, hrecords, bne_self_eq_false, Bool.false_or, Except.toOption,
      Option.all_some] at hall
    exact List.all_eq_true.mp hall raw hraw
  · trivial

/-- Tally sends such records, and URLs are plain. -/
def SyncEngine.sendsPlain (engine : SyncEngine δ) (P : EntitySpec → Record → Prop) : Assumed δ :=
  fun e choice w => engine.sends P e choice w ∧ plainUrls e choice = true

theorem SyncEngine.sendsPlain_of_check {p : EntitySpec → Record → Bool} (e : Call δ)
    (choice : Choice) (w : World δ)
    (h : (engine.checkSends p e choice w && plainUrls e choice) = true) :
    engine.sendsPlain (fun spec raw => p spec raw = true) e choice w := by
  obtain ⟨hsends, hurls⟩ := Bool.and_eq_true_iff.mp h
  exact ⟨engine.sends_of_check e choice w hsends, hurls⟩

/-- The fetched and the queued records have the property. -/
structure Sourced (engine : SyncEngine δ) (P : EntitySpec → Record → Prop) (w : World δ) :
    Prop where
  fetched : ∀ fetch, w.fetched = some fetch → ∀ spec ∈ engine.registry.specs,
    spec.name = fetch.request.entityName →
      ∀ records, engine.recordsOf spec fetch.outcome = .ok records → ∀ raw ∈ records, P spec raw
  queued : ∀ row ∈ w.db.retryQueue.rows, ∀ spec ∈ engine.registry.specs,
    spec.name = row.key.entityName → P spec row.val.payloadJson

theorem Sourced.of_source (h : Sourced engine P w) {item : Item engine} (hsource : item.Source w) :
    P item.spec item.raw := by
  rcases hsource with ⟨fetch, records, hfetch, hname, hrecords, hraw⟩ | ⟨row, hrow, hname, hraw⟩
  · exact h.fetched fetch hfetch item.spec item.hspec hname.symm records hrecords item.raw hraw
  · rw [← hraw]
    exact h.queued row hrow item.spec item.hspec hname.symm

/-- A fetch keeps its request and its outcome while records are queued. -/
theorem Sourced.enqueue (h : Sourced engine P w) {item : Item engine} {guid : String}
    {data : RetryData} (hfetched : item.Fetched w) (hpayload : data.payloadJson = item.raw) :
    Sourced engine P (w.enqueue ⟨item.spec.name, guid, "create"⟩ data) where
  fetched := by
    intro fetch hfetch
    rcases Option.map_eq_some_iff.mp hfetch with ⟨old, hold, rfl⟩
    exact h.fetched old hold
  queued := by
    intro row hrow spec hspec hname
    rcases World.of_mem_enqueue hrow with ⟨hkey, hraw⟩ | hold
    · rw [hkey] at hname
      rw [hraw, hpayload, engine.registry.eq_of_name hspec item.hspec hname]
      exact h.of_source (.inl hfetched)
    · exact h.queued row hold spec hspec hname

theorem Sourced.step (h : Sourced engine P w)
    (hallow : ∀ e c w, allow e c w → engine.sends P e c w)
    (hstep : engine.Step ops allow w w') : Sourced engine P w' := by
  cases hstep with
  | fetch request outcome ha =>
    refine ⟨fun fetch hfetch => ?_, h.queued⟩
    cases hfetch
    exact hallow _ _ _ ha
  | enqueue item guid data hfetched _ hpayload => exact h.enqueue hfetched hpayload
  | settle id _ =>
    exact ⟨h.fetched, fun row hrow => h.queued row (AutoTable.mem_delete.mp hrow).1⟩
  | reschedule id error nextAttemptAt =>
    refine ⟨h.fetched, fun row hrow spec hspec hname => ?_⟩
    rcases World.of_mem_reschedule hrow with ⟨old, hold, hkey, hraw⟩
    rw [hraw]
    exact h.queued old hold spec hspec (hname.trans (congrArg RetryKey.entityName hkey))
  | _ => exact ⟨h.fetched, h.queued⟩

/-! ## Documents -/

/-- The second document is the first one with some fields set to values that
records sent by Tally map to them. -/
structure SyncEngine.Descends (engine : SyncEngine δ) (P : EntitySpec → Record → Prop)
    (doc doc' : Doc) : Prop where
  doctype : doc'.doctype = doc.doctype
  name : doc'.name = doc.name
  changed : ∀ field, doc'.fields.lookup field ≠ doc.fields.lookup field →
    ∃ (item : Item engine) (value : Json), P item.spec item.raw ∧ item.doctype = doc.doctype ∧
      item.payload.lookup field = some value ∧ doc'.fields.lookup field = some value

/-- A document of a mapped doctype all of whose fields come from records sent
by Tally. -/
structure SyncEngine.Made (engine : SyncEngine δ) (P : EntitySpec → Record → Prop) (doc : Doc) :
    Prop where
  mapped : ∃ item : Item engine, P item.spec item.raw ∧ item.doctype = doc.doctype
  descends : engine.Descends P ⟨doc.doctype, doc.name, ∅⟩ doc

variable {doc doc' : Doc}

theorem SyncEngine.Descends.refl (doc : Doc) : engine.Descends P doc doc :=
  ⟨rfl, rfl, fun _ hne => absurd rfl hne⟩

theorem SyncEngine.Descends.merge (h : engine.Descends P doc doc') {item : Item engine}
    (hsent : P item.spec item.raw) (hdoctype : doc'.doctype = item.doctype) :
    engine.Descends P doc (doc'.merge item.payload) where
  doctype := h.doctype
  name := h.name
  changed := by
    intro field hne
    rw [Doc.lookup_merge] at hne ⊢
    cases hvalue : item.payload.lookup field with
    | none =>
      rw [hvalue, Option.none_or] at hne
      rw [Option.none_or]
      exact h.changed field hne
    | some value =>
      exact ⟨item, value, hsent, hdoctype.symm.trans h.doctype, hvalue, rfl⟩

/-- A document that changes had a mapped field of an entity mapped to its
doctype changed. -/
theorem SyncEngine.Descends.mapped (h : engine.Descends P doc doc') {field : String}
    (hne : doc'.fields.lookup field ≠ doc.fields.lookup field) :
    ∃ spec ∈ engine.registry.specs, ∃ me, engine.mapping.entry spec.name = some me ∧
      me.frappeDoctype = doc.doctype ∧ field ∈ me.fieldMap.map Prod.snd := by
  rcases h.changed field hne with ⟨item, value, _, hdoctype, hpayload, _⟩
  exact ⟨item.spec, item.hspec, item.me, item.hme, hdoctype,
    MappingEntry.mem_fieldMap_of_apply hpayload⟩

/-- Documents of a doctype that no entity is mapped to stay as they are. -/
theorem SyncEngine.Descends.eq_of_unmapped (h : engine.Descends P doc doc')
    (hunmapped : ∀ spec ∈ engine.registry.specs, ∀ me,
      engine.mapping.entry spec.name = some me → me.frappeDoctype ≠ doc.doctype) : doc' = doc := by
  have hfields : doc'.fields = doc.fields := by
    refine Finmap.ext_lookup fun field => ?_
    by_contra hne
    rcases h.mapped hne with ⟨spec, hspec, me, hme, hdoctype, _⟩
    exact hunmapped spec hspec me hme hdoctype
  rcases doc with ⟨doctype, name, fields⟩
  rcases doc' with ⟨doctype', name', fields'⟩
  cases h.doctype
  cases h.name
  cases hfields
  rfl

/-- What a run has made of the documents there were at first. -/
structure Preserved (engine : SyncEngine δ) (P : EntitySpec → Record → Prop) (docs : List Doc)
    (w : World δ) : Prop extends Sourced engine P w where
  plain : PlainDocs w.docs
  present : ∀ doc ∈ docs, ∃ doc' ∈ w.docs, engine.Descends P doc doc'
  origin : ∀ doc' ∈ w.docs, (∃ doc ∈ docs, engine.Descends P doc doc') ∨ engine.Made P doc'

theorem Preserved.post {docs : List Doc} (h : Preserved engine P docs w) {item : Item engine}
    (hsource : item.Source w) {name : String} (hdoctype : UrlPlain item.doctype)
    (hname : UrlPlain name) :
    Preserved engine P docs (w.post item.doctype name item.payload) where
  toSourced := ⟨h.fetched, h.queued⟩
  plain := List.forall_mem_cons.mpr ⟨⟨hdoctype, hname⟩, h.plain⟩
  present := by
    intro doc hdoc
    rcases h.present doc hdoc with ⟨doc', hdoc', hdescends⟩
    exact ⟨doc', List.mem_cons_of_mem _ hdoc', hdescends⟩
  origin := by
    intro doc' hdoc'
    rcases List.mem_cons.mp hdoc' with rfl | hold
    · right
      refine ⟨⟨item, h.of_source hsource, rfl⟩, rfl, rfl, fun field hne => ?_⟩
      rcases Option.ne_none_iff_exists'.mp hne with ⟨value, hvalue⟩
      exact ⟨item, value, h.of_source hsource, rfl, hvalue, hvalue⟩
    · exact h.origin doc' hold

theorem Preserved.put {docs : List Doc} (h : Preserved engine P docs w) {item : Item engine}
    (hsource : item.Source w) (name : String) :
    Preserved engine P docs (w.put item.doctype name item.payload) where
  toSourced := ⟨h.fetched, h.queued⟩
  plain := by
    intro doc hdoc
    rcases mem_putDoc.mp hdoc with ⟨old, hold, -, rfl⟩ | ⟨hold, -⟩
    · exact h.plain old hold
    · exact h.plain doc hold
  present := by
    intro doc hdoc
    rcases h.present doc hdoc with ⟨doc', hdoc', hdescends⟩
    -- the document may be the one that is written
    by_cases htarget : doc'.doctype = item.doctype ∧ doc'.name = name
    · exact ⟨doc'.merge item.payload, mem_putDoc.mpr (.inl ⟨doc', hdoc', htarget, rfl⟩),
        hdescends.merge (h.of_source hsource) htarget.1⟩
    · exact ⟨doc', mem_putDoc.mpr (.inr ⟨hdoc', htarget⟩), hdescends⟩
  origin := by
    intro doc' hdoc'
    rcases mem_putDoc.mp hdoc' with ⟨old, hold, htarget, rfl⟩ | ⟨hold, _⟩
    · have hsent := h.of_source hsource
      rcases h.origin old hold with ⟨doc, hdoc, hdescends⟩ | hmade
      · exact .inl ⟨doc, hdoc, hdescends.merge hsent htarget.1⟩
      · exact .inr ⟨hmade.mapped, hmade.descends.merge hsent htarget.1⟩
    · exact h.origin doc' hold

theorem Preserved.step {docs : List Doc} (h : Preserved engine P docs w)
    (hallow : ∀ e c w, allow e c w → engine.sendsPlain P e c w)
    (hstep : engine.Step ops allow w w') : Preserved engine P docs w' := by
  have hsourced := h.toSourced.step (fun e c w ha => (hallow e c w ha).1) hstep
  cases hstep with
  | post item name choice hsource _ _ hchoice ha =>
    obtain ⟨hdoctype, hname⟩ := of_decide_eq_true (hallow _ _ _ ha).2
    have hnew : choice.newName = some name := by
      rcases hchoice with ⟨outcome, rfl⟩ | ⟨order, rfl⟩ <;> rfl
    exact h.post hsource hdoctype (hname name hnew)
  | put item row hsource _ _ => exact h.put hsource row.frappeName
  | _ => exact ⟨hsourced, h.plain, h.present, h.origin⟩

variable [DecidableEq δ] {w₀ : World δ}

/-- In every run, with any failures and crashes, no document disappears, a
document changes only in the fields that an entity mapped to its doctype maps,
and only to values of records that Tally sent; what was created consists of
such values; documents of doctypes that no entity is mapped to stay as they are;
and what a PUT does is done to the documents under its URL. -/
theorem documents_kept (hplain : PlainDocs w₀.docs) (hfetched : w₀.fetched = none)
    (hqueued : ∀ row ∈ w₀.db.retryQueue.rows, ∀ spec ∈ engine.registry.specs,
      spec.name = row.key.entityName → P spec row.val.payloadJson)
    {c : Config (@Call.Resp δ) Exn (World δ)}
    (hc : (engine.machine fun _ => True).Reach (engine.sendsPlain P) (w₀ = ·) c) :
    (∀ doc ∈ w₀.docs, ∃ doc' ∈ c.world.docs, engine.Descends P doc doc') ∧
      (∀ doc' ∈ c.world.docs,
        (∃ doc ∈ w₀.docs, engine.Descends P doc doc') ∨ engine.Made P doc') ∧
      (∀ doc ∈ w₀.docs, (∀ spec ∈ engine.registry.specs, ∀ me,
        engine.mapping.entry spec.name = some me → me.frappeDoctype ≠ doc.doctype) →
          doc ∈ c.world.docs) ∧
      ∀ doctype name payload, UrlPlain name →
        (c.world.put doctype name payload).docs = c.world.docs.map fun doc =>
          if engine.frappe.url doc.doctype (some doc.name) =
              engine.frappe.url doctype (some name) then
            doc.merge payload
          else doc := by
  have hkept : Preserved engine P w₀.docs c.world := by
    refine engine.invariant (fun w hw => ?_)
      (fun w w' hstep h => h.step (fun _ _ _ ha => ha) hstep) hc
    subst hw
    refine ⟨⟨fun fetch hfetch => ?_, hqueued⟩, hplain, fun doc hdoc => ⟨doc, hdoc, .refl doc⟩,
      fun doc hdoc => .inl ⟨doc, hdoc, .refl doc⟩⟩
    rw [hfetched] at hfetch
    cases hfetch
  refine ⟨hkept.present, hkept.origin, fun doc hdoc hunmapped => ?_,
    fun doctype name payload hname =>
      hkept.plain.putDoc_eq engine.frappe hname doctype payload⟩
  rcases hkept.present doc hdoc with ⟨doc', hdoc', hdescends⟩
  exact hdescends.eq_of_unmapped hunmapped ▸ hdoc'

/-- The answer to a POST is lost and the process crashes, next to a document
of another doctype. -/
theorem documents_kept_groups :
    let customer : Doc := ⟨"Customer", "CUST-1", (∅ : Dict).insert "title" (.str "Sync Ltd")⟩
    ∃ docs : List Doc, docs.length = 2 ∧ customer ∈ docs ∧ ∀ doc ∈ docs, doc ≠ customer →
      ∃ item : Item (groupEngine 2 [[assets]]), item.raw = assets.raw ∧
        item.doctype = doc.doctype := by
  intro customer
  let engine := groupEngine 2 [[assets]]
  let w₀ : World Dict := { groupWorld (groupCompany [assets] 1) with docs := [customer] }
  obtain ⟨c, hc, hfinal⟩ := Machine.Reach.exists_of_run (M := engine.machine fun _ => True)
    (engine.sendsPlain_of_check (p := fun _ raw => decide (raw = assets.raw))) (rfl : w₀ = w₀)
    [.start ⟨.fullSync, trivial⟩, .call .inMemory, .call (groupResponse [assets]),
      .call .inMemory, .call .commit, .call (.serve "" []), .call .commit,
      .call (.lose "GRP-1" (.timeout "Read timed out.")), .crash]
    (fun c => c.world.docs.length = 2 ∧ c.world.docs.map (·.doctype) = ["Tally Group", "Customer"])
    (by decide +kernel)
  rcases of_decide_eq_true hfinal with ⟨hlength, hdoctypes⟩
  have hplain : PlainDocs w₀.docs := List.forall_mem_singleton.mpr (by decide)
  rcases documents_kept hplain rfl (fun row hrow => absurd hrow List.not_mem_nil) hc with
    ⟨-, horigin, huntouched, -⟩
  -- no entity is mapped to customers
  have hcustomer : customer ∈ c.world.docs := by
    refine huntouched customer List.mem_cons_self fun spec hspec me hme => ?_
    obtain rfl : spec = group := List.mem_singleton.mp hspec
    cases hme
    decide
  refine ⟨c.world.docs, hlength, hcustomer, fun doc hdoc hne => ?_⟩
  rcases horigin doc hdoc with ⟨old, hold, hdescends⟩ | hmade
  · obtain rfl : old = customer := List.mem_singleton.mp hold
    refine absurd (hdescends.eq_of_unmapped fun spec hspec me hme => ?_) hne
    obtain rfl : spec = group := List.mem_singleton.mp hspec
    cases hme
    decide
  · -- the other document comes of the record that was sent
    rcases hmade.mapped with ⟨item, hsent, hdoctype⟩
    exact ⟨item, of_decide_eq_true hsent, hdoctype⟩

end TallyConnector
