import Mathlib.Data.Finset.Sort
import TallyConnector.Properties.Integrity
import TallyConnector.Properties.Parsing
import TallyConnector.Python.SortKeys
import TallyConnector.Tally.Rows
import TallyConnector.World.Receipts

/-! # The texts of records and payloads

A queued record and a payload to be hashed are kept as dictionaries elsewhere;
here are their texts. The text in `payload_json` is read back as the record that
was parsed, in every run (`queued_record_read_back`), and the text that is hashed
determines the payload, up to the order of keys in nested objects
(`contentHash_eq_iff`).
-/

namespace TallyConnector

open Effects

variable {floatRepr : String → String} {spec : EntitySpec} {row : Element}

/-- The items of the dictionary, in insertion order. -/
structure Lists (items : List (String × Json)) (d : Dict) : Prop where
  nodup : (items.map Prod.fst).Nodup
  lookup : ∀ key, items.lookup key = d.lookup key

/-- The dictionary with these items. -/
def Dict.ofItems (items : List (String × Json)) : Dict :=
  items.foldl (fun d item => d.insert item.1 item.2) ∅

theorem Lists.mem {items : List (String × Json)} {d : Dict} (h : Lists items d) {key : String}
    {value : Json} : (key, value) ∈ items ↔ d.lookup key = some value := by
  rw [← h.lookup, Json.lookup_eq_some h.nodup]

/-- The items of the dictionary in some order. -/
def Dict.items (d : Dict) : List (String × Json) :=
  d.keys.sort.map fun key => (key, (d.lookup key).getD .null)

theorem lists_items (d : Dict) : Lists d.items d := by
  have hnodup : (d.items.map Prod.fst).Nodup := by
    rw [Dict.items, List.map_map]
    exact (List.map_id _).symm ▸ d.keys.sort_nodup _
  refine ⟨hnodup, fun key => ?_⟩
  ext value
  rw [Json.lookup_eq_some hnodup, Dict.items, List.mem_map]
  constructor
  · rintro ⟨key', hkey', heq⟩
    cases heq
    rcases Finmap.mem_iff.mp (Finmap.mem_keys.mp ((Finset.mem_sort _).mp hkey')) with
      ⟨value, hvalue⟩
    rw [hvalue]
    rfl
  · intro hvalue
    refine ⟨key, (Finset.mem_sort _).mpr (Finmap.mem_keys.mpr (Finmap.mem_of_lookup_eq_some hvalue)),
      ?_⟩
    rw [hvalue]
    rfl

/-! ## Queued records -/

/-- `json.loads(item["payload_json"])`, if it is a dictionary. -/
def readPayload (floatRepr : String → String) (payloadJson : String) : Option Record :=
  match Json.loads floatRepr payloadJson with
  | some (.obj items) => some (Dict.ofItems items)
  | _ => none

theorem lookup_ofItems {items : List (String × Json)} (h : (items.map Prod.fst).Nodup)
    (key : String) : (Dict.ofItems items).lookup key = items.lookup key := by
  have hfold : ∀ d : Dict, (items.foldl (fun d item => d.insert item.1 item.2) d).lookup key =
      (items.lookup key).or (d.lookup key) := by
    induction items with
    | nil => exact fun d => rfl
    | cons item items ih =>
      intro d
      rw [List.map_cons, List.nodup_cons] at h
      rw [List.foldl_cons, ih h.2, List.lookup_cons]
      by_cases hkey : key = item.1
      · have hnone : items.lookup key = none := by
          rw [List.lookup_eq_none_iff]
          intro item' hitem'
          refine bne_iff_ne.mpr fun heq => h.1 ?_
          exact hkey ▸ heq ▸ List.mem_map_of_mem hitem'
        rw [beq_iff_eq.mpr hkey, hnone, hkey, Finmap.lookup_insert]
        rfl
      · rw [beq_false_of_ne hkey, Finmap.lookup_insert_of_ne _ hkey]
  rw [Dict.ofItems, hfold]
  exact Option.or_none

/-- What `dumps` wrote for a dictionary of Python values is read back. -/
theorem readPayload_dumps {items : List (String × Json)} {record : Record}
    (hitems : Lists items record)
    (hvalues : EveryItem (fun _ => Json.WellFormed floatRepr) record) :
    readPayload floatRepr (Json.dumps (.obj items)) = some record := by
  have hwf : Json.WellFormed floatRepr (.obj items) :=
    .obj items hitems.nodup fun kv hkv => hvalues kv.1 kv.2 (hitems.mem.mp hkv)
  have hsame : Dict.ofItems items = record := by
    refine Finmap.ext_lookup fun key => ?_
    rw [lookup_ofItems hitems.nodup, hitems.lookup]
  rw [readPayload, Json.loads_dumps hwf]
  exact congrArg some hsame

/-! ## Parsed records -/

theorem nodup_setItem {items : List (String × String)} {key value : String}
    (h : (items.map Prod.fst).Nodup) : ((setItem items key value).map Prod.fst).Nodup := by
  unfold setItem
  split
  · have hkeys : (items.map fun kv => if kv.1 == key then (key, value) else kv).map Prod.fst =
        items.map Prod.fst := by
      rw [List.map_map]
      refine List.map_congr_left fun kv _ => ?_
      by_cases hkey : kv.1 = key
      · simp [hkey]
      · simp [hkey]
    rw [hkeys]
    exact h
  · next hnone =>
    rw [List.map_append, List.nodup_append]
    refine ⟨h, List.nodup_singleton _, ?_⟩
    intro key' hkey' new hnew heq
    rcases List.mem_map.mp hkey' with ⟨kv, hkv, rfl⟩
    rw [List.map_singleton, List.mem_singleton] at hnew
    exact hnone (List.any_eq_true.mpr ⟨kv, hkv, beq_iff_eq.mpr (heq.trans hnew)⟩)

theorem nodup_extractFields (row : Element) (fields : List String) :
    ((extractFields row fields).map Prod.fst).Nodup := by
  unfold extractFields
  refine List.foldlRecOn
    (motive := fun items : List (String × String) => (items.map Prod.fst).Nodup)
    fields _ List.nodup_nil fun items hitems field _ => ?_
  split
  · exact nodup_setItem hitems
  · exact hitems

theorem wellFormed_entriesJson (row : Element) (listTag : String) (fields : List String) :
    Json.WellFormed floatRepr (entriesJson (extractEntryList row listTag fields)) := by
  refine .list _ fun x hx => ?_
  rcases List.mem_map.mp hx with ⟨entry, hentry, rfl⟩
  rcases List.mem_map.mp (List.mem_filter.mp hentry).1 with ⟨elem, -, rfl⟩
  refine .obj _ ?_ fun kv hkv => ?_
  · rw [List.map_map]
    exact nodup_extractFields elem fields
  · rcases List.mem_map.mp hkv with ⟨item, -, rfl⟩
    exact .str item.2

theorem EveryItem.setSome {P : String → Json → Prop} {record : Record} {key : String}
    {value : Option Json} (h : EveryItem P record) (hvalue : ∀ v ∈ value, P key v) :
    EveryItem P (setSome key value record) := by
  cases value with
  | none => exact h
  | some v => exact h.insert (hvalue v rfl)

/-- Every record of a response holds Python values. -/
theorem wellFormed_parseRow (spec : EntitySpec) (row : Element) :
    EveryItem (fun _ => Json.WellFormed floatRepr) (parseRow spec row) := by
  have hfields : EveryItem (fun _ => Json.WellFormed floatRepr)
      (fieldRecord (extractFields row spec.fetchFields)) :=
    everyItem_foldl (fun kv _ => .str kv.2) everyItem_empty
  -- a name is taken from the attribute where no field has it
  have hnamed : EveryItem (fun _ => Json.WellFormed floatRepr)
      (withName row (fieldRecord (extractFields row spec.fetchFields))) := by
    unfold withName
    split
    · split
      · exact hfields
      · exact hfields.insert (.str _)
    · exact hfields
  have hlists : ∀ (listTag : String) (fields? : Option (List String)),
      ∀ value ∈ (nonEmptyList fields?).map fun fields =>
        entriesJson (extractEntryList row listTag fields), Json.WellFormed floatRepr value := by
    intro listTag fields? value hvalue
    rcases Option.map_eq_some_iff.mp hvalue with ⟨fields, -, rfl⟩
    exact wellFormed_entriesJson row listTag fields
  rw [parseRow_eq]
  split
  · -- the keys that a voucher adds
    refine ((hnamed.insert ?_).setSome (hlists _ _)).setSome (hlists _ _)
    unfold voucherType
    split
    · exact .str _
    · cases htype : (withName row (fieldRecord (extractFields row spec.fetchFields))).lookup
          "voucher_type_name" with
      | some value => exact hnamed _ _ htype
      | none => exact .str ""
  · -- a master adds none
    exact hnamed

/-! ## Every queued record -/

section queued

variable {δ : Type} {engine : SyncEngine δ} {allow : Assumed δ} {w w' : World δ}

/-- The record is one that the parser makes. -/
def IsParsed (spec : EntitySpec) (raw : Record) : Prop := ∃ row, raw = parseRow spec row

theorem sends_isParsed (e : Call δ) (choice : Choice) (w : World δ) :
    engine.sends IsParsed e choice w := by
  unfold SyncEngine.sends
  split
  · intro spec _ _ records hrecords raw hraw
    unfold SyncEngine.recordsOf at hrecords
    split at hrecords
    · exact exists_row_of_mem hrecords hraw
    · cases hrecords
  · trivial

variable [DecidableEq δ]

/-- In every run, with any failures and crashes, the text that the queue holds
for a record is read back as the record that was parsed from a response,
whatever the order of its keys. -/
theorem queued_record_read_back {c : Config (@Call.Resp δ) Exn (World δ)}
    (hc : (engine.machine fun _ => True).Reach allow World.Fresh c) {row : RetryRow}
    (hrow : row ∈ c.world.db.retryQueue.rows) {spec : EntitySpec}
    (hspec : spec ∈ engine.registry.specs) (hname : spec.name = row.key.entityName)
    {items : List (String × Json)} (hitems : Lists items row.val.payloadJson) :
    readPayload floatRepr (Json.dumps (.obj items)) = some row.val.payloadJson ∧
      ∃ elem, row.val.payloadJson = parseRow spec elem := by
  have hsourced : Sourced engine IsParsed c.world := by
    refine engine.invariant (fun w hw => ?_)
      (fun w w' hstep h => h.step (fun e choice w _ => sends_isParsed e choice w) hstep) hc
    refine ⟨fun fetch hfetch => ?_, fun row hrow => ?_⟩
    · rw [hw.fetched] at hfetch
      cases hfetch
    · rw [hw.db] at hrow
      cases hrow
  rcases hsourced.queued row hrow spec hspec hname with ⟨elem, helem⟩
  refine ⟨readPayload_dumps hitems ?_, elem, helem⟩
  rw [helem]
  exact wellFormed_parseRow spec elem

end queued

/-- A receipt whose push is refused. -/
theorem queued_record_read_back_receipt :
    ∃ (row : RetryRow) (elem : Element), row.key.entityName = "receipt_voucher" ∧
      row.val.payloadJson = parseRow Receipt.spec elem ∧
      readPayload id (Json.dumps (.obj row.val.payloadJson.items)) = some row.val.payloadJson := by
  let receipt : Receipt := { guid := "v-1", day := 738917, date := "20240201", alterId := 1 }
  let engine := Receipt.engine [[receipt]]
  have hinit : (groupWorld ⟨[receipt.version], 1⟩).Fresh := ⟨rfl, rfl, rfl, rfl⟩
  obtain ⟨c, hc, hfinal⟩ := Machine.Reach.exists_of_run (M := engine.machine fun _ => True)
    (fun _ _ _ _ => trivial : ∀ e choice w, (fun _ _ _ => true) e choice w = true →
      (fun _ _ _ => True) e choice w) hinit
    [.start ⟨.resyncEntity "receipt_voucher" none none, trivial⟩, .call .inMemory,
      .call (.tally (.response 200 (Receipt.page [receipt]))), .call .inMemory,
      .call .commit, .call (.serve "" []), .call .commit,
      .call (.refuse (.response { status := 417, body := .empty })),
      .call .inMemory, .call (.clock 0), .call (.clock 0), .call .commit]
    (fun c => c.world.db.retryQueue.rows.any fun row =>
      decide (row.key.entityName = "receipt_voucher"))
    (by decide +kernel)
  rcases List.any_eq_true.mp hfinal with ⟨row, hrow, hentity⟩
  have hentity := of_decide_eq_true hentity
  rcases queued_record_read_back hc hrow List.mem_cons_self hentity.symm
    (lists_items row.val.payloadJson) with ⟨hread, elem, helem⟩
  exact ⟨row, elem, hentity, helem, hread⟩

/-! ## Hashed payloads -/

/-- `json.dumps(payload, sort_keys=True, default=str)`; a model dump holds
nothing that `default` is asked for. -/
def contentText (payload : Dict) : String := Json.dumps (Json.sortKeys (.obj payload.items))

section hashed

variable {payload payload' : Dict}

theorem wellFormed_items (h : EveryItem (fun _ => Json.WellFormed floatRepr) payload) :
    Json.WellFormed floatRepr (.obj payload.items) := by
  have hitems := lists_items payload
  exact .obj _ hitems.nodup fun kv hkv => h kv.1 kv.2 (hitems.mem.mp hkv)

/-- Whatever the order of the keys, the text is the same. -/
theorem contentText_eq {items : List (String × Json)} (h : Lists items payload) :
    Json.dumps (Json.sortKeys (.obj items)) = contentText payload := by
  have hitems := lists_items payload
  have hsorted := (Json.sortMembers_eq_iff h.nodup hitems.nodup).mpr fun key => by
    rw [h.lookup, hitems.lookup]
  rw [contentText, Json.sortKeys, Json.sortKeys, hsorted]

variable {δ : Type} {engine : SyncEngine δ} {sha256 : String → δ}

/-- The content hash is that of the sorted text of the payload, in whatever order
its items come. Unless `sha256` collides, it tells two payloads of Python values
apart exactly if some field differs, the order of keys in nested objects
aside. -/
theorem contentHash_eq_iff (hext : ∀ payload, engine.ext.hexdigest payload =
      sha256 (contentText payload)) (hinj : Function.Injective sha256)
    (h : EveryItem (fun _ => Json.WellFormed floatRepr) payload)
    (h' : EveryItem (fun _ => Json.WellFormed floatRepr) payload') :
    (∀ items, Lists items payload →
      engine.contentHash payload = sha256 (Json.dumps (Json.sortKeys (.obj items)))) ∧
    (engine.contentHash payload = engine.contentHash payload' ↔
      ∀ field, (payload.lookup field).map Json.sortKeys =
        (payload'.lookup field).map Json.sortKeys) := by
  constructor
  · intro items hitems
    rw [SyncEngine.contentHash, hext, contentText_eq hitems]
  · rw [SyncEngine.contentHash, SyncEngine.contentHash, hext, hext, hinj.eq_iff, contentText,
      contentText, Json.dumps_sortKeys_iff (wellFormed_items h) (wellFormed_items h')]
    simp only [(lists_items _).lookup]

end hashed

/-- An engine that uses the text itself as the hash. -/
def textEngine : SyncEngine String where
  settings := {}
  mapping := (groupEngine 1 []).mapping
  registry := (groupEngine 1 []).registry
  ext :=
    { fromstring := fun _ => .error "Document is empty"
      isoformat := fun instant => toString instant
      hexdigest := contentText
      repr := id
      strDict := fun _ => "{}"
      decode := fun _ => "" }

/-- The order of the keys of an entry does not change the hash, an amount
does. -/
theorem contentHash_eq_iff_entries :
    let payload (kvs : List (String × Json)) : Dict :=
      (∅ : Dict).insert "ledger_entries" (.list [.obj kvs])
    let p := payload [("ledger_name", .str "Cash"), ("amount", .str "10")]
    let q := payload [("amount", .str "10"), ("ledger_name", .str "Cash")]
    let r := payload [("ledger_name", .str "Cash"), ("amount", .int 10)]
    textEngine.contentHash p = textEngine.contentHash q ∧
      textEngine.contentHash p ≠ textEngine.contentHash r := by
  intro payload p q r
  have hwf : ∀ {key key' : String} {x x' : Json}, key ≠ key' → Json.WellFormed id x →
      Json.WellFormed id x' →
        EveryItem (fun _ => Json.WellFormed id) (payload [(key, x), (key', x')]) := by
    intro key key' x x' hne hx hx'
    refine everyItem_empty.insert (.list _ fun entry hentry => ?_)
    rw [List.mem_singleton.mp hentry]
    refine .obj _ (by simp [hne]) fun kv hkv => ?_
    rcases List.mem_pair.mp hkv with rfl | rfl
    · exact hx
    · exact hx'
  have hne : "ledger_name" ≠ "amount" := by decide
  have hp := hwf hne (.str "Cash") (.str "10")
  have hq := hwf hne.symm (.str "10") (.str "Cash")
  have hr := hwf hne (.str "Cash") (.int 10)
  constructor
  · -- the order of the keys is not hashed
    refine (contentHash_eq_iff (fun _ => rfl) Function.injective_id hp hq).2.mpr fun field => ?_
    by_cases hfield : field = "ledger_entries"
    · subst hfield
      rw [Finmap.lookup_insert, Finmap.lookup_insert]
      decide +kernel
    · rw [Finmap.lookup_insert_of_ne _ hfield, Finmap.lookup_insert_of_ne _ hfield]
  · -- the type of a value is
    intro hsame
    have hentries := (contentHash_eq_iff (fun _ => rfl) Function.injective_id hp hr).2.mp hsame
      "ledger_entries"
    rw [Finmap.lookup_insert, Finmap.lookup_insert] at hentries
    exact absurd hentries (by decide +kernel)

end TallyConnector
