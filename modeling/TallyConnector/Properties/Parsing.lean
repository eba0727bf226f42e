import TallyConnector.Tally.Rendering

/-! # The parser inverts rendering

Whatever the layout of a document, `parse_collection_response` gives back the
records that its rows were made from, in their order.
-/

namespace TallyConnector

variable {spec : EntitySpec} {data : RowData spec} {row : Element}

/-! ## The fetched fields -/

/-- The fields of a row as a dictionary. -/
def fieldRecord (items : List (String × String)) : Record :=
  items.foldl (fun (record : Record) kv => record.insert kv.1 (.str kv.2)) ∅

theorem lookup_foldl_of_not_mem {items : List (String × String)} {key : String}
    (record : Record) (h : key ∉ items.map (·.1)) :
    (items.foldl (fun (record : Record) kv => record.insert kv.1 (.str kv.2)) record).lookup key
      = record.lookup key := by
  induction items generalizing record with
  | nil => rfl
  | cons kv items ih =>
    rw [List.map_cons, List.mem_cons, not_or] at h
    rw [List.foldl_cons, ih _ h.2, Finmap.lookup_insert_of_ne _ h.1]

theorem lookup_foldl_of_mem {items : List (String × String)} {key value : String}
    (record : Record) (hkeys : (items.map (·.1)).Nodup) (h : (key, value) ∈ items) :
    (items.foldl (fun (record : Record) kv => record.insert kv.1 (.str kv.2)) record).lookup key
      = some (.str value) := by
  induction items generalizing record with
  | nil => cases h
  | cons other items ih =>
    rw [List.map_cons, List.nodup_cons] at hkeys
    rw [List.foldl_cons]
    rcases List.mem_cons.mp h with heq | hmem
    · subst heq
      rw [lookup_foldl_of_not_mem _ hkeys.1, Finmap.lookup_insert]
    · exact ih _ hkeys.2 hmem

theorem mem_fieldItems {fields : List String} {values : Values} {key value : String} :
    (key, value) ∈ fieldItems fields values ↔
      ∃ field ∈ fields, pascalToSnake field = key ∧ (values field).map (·.1) = some value := by
  unfold fieldItems
  rw [List.mem_filterMap]
  constructor
  · rintro ⟨field, hfield, hitem⟩
    rcases Option.map_eq_some_iff.mp hitem with ⟨value', hvalue, hpair⟩
    injection hpair with hkey htext
    exact ⟨field, hfield, hkey, by rw [hvalue, Option.map_some, htext]⟩
  · rintro ⟨field, hfield, rfl, hvalue⟩
    rcases Option.map_eq_some_iff.mp hvalue with ⟨value', hsome, rfl⟩
    exact ⟨field, hfield, by rw [hsome, Option.map_some]⟩

theorem fieldItems_keys (fields : List String) (values : Values) :
    ((fieldItems fields values).map (·.1)).Sublist (fields.map pascalToSnake) := by
  induction fields with
  | nil => exact .slnil
  | cons field fields ih =>
    cases hvalue : values field with
    | none =>
      rw [fieldItems_none hvalue]
      exact ih.cons _
    | some value =>
      rw [fieldItems_some hvalue]
      exact ih.cons_cons _

theorem fieldRecord_lookup {fields : List String} {values : Values}
    (hkeys : (fields.map pascalToSnake).Nodup) {field : String} (hfield : field ∈ fields) :
    (fieldRecord (fieldItems fields values)).lookup (pascalToSnake field) =
      (values field).map fun value => .str value.1 := by
  cases hvalue : values field with
  | some value =>
    have hmem : (pascalToSnake field, value.1) ∈ fieldItems fields values :=
      mem_fieldItems.mpr ⟨field, hfield, rfl, by rw [hvalue, Option.map_some]⟩
    exact lookup_foldl_of_mem ∅ (hkeys.sublist (fieldItems_keys fields values)) hmem
  | none =>
    have hnot : pascalToSnake field ∉ (fieldItems fields values).map (·.1) := by
      intro hmem
      rcases List.mem_map.mp hmem with ⟨⟨key, value⟩, hkv, hkey⟩
      rcases mem_fieldItems.mp hkv with ⟨other, hother, hotherKey, hsome⟩
      have heq : other = field :=
        List.inj_on_of_nodup_map hkeys hother hfield (hotherKey.trans hkey)
      rw [heq, hvalue] at hsome
      cases hsome
    exact lookup_foldl_of_not_mem ∅ hnot

theorem fieldRecord_only {fields : List String} {values : Values} {key : String}
    (h : ((fieldRecord (fieldItems fields values)).lookup key).isSome) :
    ∃ field ∈ fields, pascalToSnake field = key := by
  by_contra hnone
  have hnot : key ∉ (fieldItems fields values).map (·.1) := by
    intro hmem
    rcases List.mem_map.mp ((fieldItems_keys fields values).subset hmem) with ⟨field, hfield, hkey⟩
    exact hnone ⟨field, hfield, hkey⟩
  rw [fieldRecord, lookup_foldl_of_not_mem ∅ hnot] at h
  cases h

/-! ## The name -/

/-- The record before the keys that only vouchers get. -/
structure Named (spec : EntitySpec) (data : RowData spec) (record : Record) : Prop where
  field : ∀ field ∈ spec.fetchFields,
    record.lookup (pascalToSnake field) = (data.values field).map fun value => .str value.1
  name : record.lookup "name" = data.name.map fun name => .str name.1
  only : ∀ key, (record.lookup key).isSome →
    key = "name" ∨ ∃ field ∈ spec.fetchFields, pascalToSnake field = key

/-- `record["name"]` is set from the attribute unless it is there. -/
def withName (row : Element) (record : Record) : Record :=
  match nonEmpty (row.get "NAME") with
  | some nameAttr =>
      if (record.lookup "name").isSome then record
      else record.insert "name" (.str (pyStrip nameAttr))
  | none => record

theorem named_of_rendersRow (hspec : DistinctKeys spec) (h : RendersRow spec data row) :
    Named spec data (withName row (fieldRecord (fieldItems spec.fetchFields data.values))) := by
  have hfield : ∀ field ∈ spec.fetchFields,
      (fieldRecord (fieldItems spec.fetchFields data.values)).lookup (pascalToSnake field) =
        (data.values field).map fun value => .str value.1 :=
    fun _ hfetch => fieldRecord_lookup hspec.fields hfetch
  generalize hrecord : fieldRecord (fieldItems spec.fetchFields data.values) = record at hfield
  have honly : ∀ key, (record.lookup key).isSome →
      ∃ field ∈ spec.fetchFields, pascalToSnake field = key := by
    intro key hkey
    exact fieldRecord_only (hrecord ▸ hkey)
  -- a fetched name is in the record already
  have hfetched : ∀ field ∈ spec.fetchFields, pascalToSnake field = "name" →
      record.lookup "name" = data.name.map fun name => .str name.1 := by
    intro field hfetch hkey
    rw [data.fetchedName field hfetch hkey, ← hkey, hfield field hfetch]
  have hkept : (record.lookup "name").isSome →
      record.lookup "name" = data.name.map fun name => .str name.1 := by
    intro hsome
    rcases honly "name" hsome with ⟨field, hfetch, hkey⟩
    exact hfetched field hfetch hkey
  unfold withName
  cases hattr : nonEmpty (row.get "NAME") with
  | some attr =>
    have hget : row.get "NAME" = some attr := (Option.filter_eq_some_iff.mp hattr).1
    rcases h.name attr hget with ⟨name, hname, hpadded⟩
    by_cases hsome : (record.lookup "name").isSome
    · simp only [hsome, if_true]
      exact ⟨hfield, hkept hsome, fun key hkey => .inr (honly key hkey)⟩
    · simp only [hsome, Bool.false_eq_true, if_false, hpadded.pyStrip]
      refine ⟨?_, ?_, ?_⟩
      · intro field hfetch
        have hne : pascalToSnake field ≠ "name" := by
          intro hkey
          rw [hfetched field hfetch hkey, hname] at hsome
          exact hsome rfl
        rw [Finmap.lookup_insert_of_ne _ hne, hfield field hfetch]
      · rw [Finmap.lookup_insert, hname, Option.map_some]
      · intro key hkey
        by_cases heq : key = "name"
        · exact .inl heq
        · rw [Finmap.lookup_insert_of_ne _ heq] at hkey
          exact .inr (honly key hkey)
  | none =>
    refine ⟨hfield, ?_, fun key hkey => .inr (honly key hkey)⟩
    by_cases hfetch : ∃ field ∈ spec.fetchFields, pascalToSnake field = "name"
    · rcases hfetch with ⟨field, hmem, hkey⟩
      exact hfetched field hmem hkey
    · have habsent : record.lookup "name" = none := by
        rw [← Option.not_isSome_iff_eq_none]
        exact fun hsome => hfetch (honly "name" hsome)
      have hname : data.name = none := by
        rw [← Option.not_isSome_iff_eq_none]
        intro hsome
        have hattr' := h.unfetched (fun field hmem hkey => hfetch ⟨field, hmem, hkey⟩) hsome
        rcases Option.isSome_iff_exists.mp hattr' with ⟨attr, hget⟩
        rcases h.name attr hget with ⟨name, -, hpadded⟩
        have hnone := Option.filter_eq_none_iff.mp hattr attr hget
        exact hnone (by simpa using hpadded.ne_empty)
      rw [habsent, hname]
      rfl

/-! ## The keys of vouchers -/

/-- `record[key] = value` where there is a value. -/
def setSome (key : String) (value : Option Json) (record : Record) : Record :=
  value.elim record (record.insert key)

theorem lookup_setSome {key : String} {value : Option Json} {record : Record}
    (h : record.lookup key = none) : (setSome key value record).lookup key = value := by
  cases value with
  | none => exact h
  | some value => exact Finmap.lookup_insert record

theorem lookup_setSome_of_ne {key key' : String} (h : key' ≠ key) (value : Option Json)
    (record : Record) : (setSome key value record).lookup key' = record.lookup key' := by
  cases value with
  | none => rfl
  | some value => exact Finmap.lookup_insert_of_ne record h

/-- The keys that only vouchers get. -/
def withVoucherKeys (spec : EntitySpec) (row : Element) (record : Record) : Record :=
  setSome "inventory_entries"
    ((nonEmptyList spec.inventoryEntriesFields).map fun fields =>
      entriesJson (extractEntryList row "ALLINVENTORYENTRIES.LIST" fields)) <|
  setSome "ledger_entries"
    ((nonEmptyList spec.ledgerEntriesFields).map fun fields =>
      entriesJson (extractEntryList row "ALLLEDGERENTRIES.LIST" fields)) <|
  record.insert "voucher_type" (voucherType spec record)

theorem parseRow_eq (spec : EntitySpec) (row : Element) :
    parseRow spec row =
      if spec.isVoucher then
        withVoucherKeys spec row (withName row (fieldRecord (extractFields row spec.fetchFields)))
      else withName row (fieldRecord (extractFields row spec.fetchFields)) := by
  unfold parseRow withVoucherKeys
  cases nonEmptyList spec.ledgerEntriesFields <;>
    cases nonEmptyList spec.inventoryEntriesFields <;> rfl

/-- Other keys stay as they are. -/
theorem lookup_withVoucherKeys {key : String} (record : Record)
    (hkey : key ∉ ["voucher_type", "ledger_entries", "inventory_entries"]) :
    (withVoucherKeys spec row record).lookup key = record.lookup key := by
  simp only [List.mem_cons, List.not_mem_nil, or_false, not_or] at hkey
  rw [withVoucherKeys, lookup_setSome_of_ne hkey.2.2, lookup_setSome_of_ne hkey.2.1,
    Finmap.lookup_insert_of_ne _ hkey.1]

/-- The keys that only vouchers get are not in the record yet. -/
theorem Named.lookup_reserved {record : Record} (hspec : DistinctKeys spec)
    (hnamed : Named spec data record) (hv : spec.isVoucher) {key : String}
    (hkey : key ∈ ["voucher_type", "ledger_entries", "inventory_entries"]) :
    record.lookup key = none := by
  rw [← Option.not_isSome_iff_eq_none]
  intro hsome
  rcases hnamed.only key hsome with rfl | ⟨field, hfetch, rfl⟩
  · exact absurd hkey (by decide)
  · exact hspec.reserved hv field hfetch hkey

/-- The entries of a list are those of the row. -/
theorem entriesJson_eq {listTag : String} {fields? : Option (List String)}
    {entries : List Values}
    (hkeys : ∀ fields, fields? = some fields → (fields.map pascalToSnake).Nodup)
    (hnonempty : ∀ fields, fields? = some fields →
      ∀ values ∈ entries, ∃ field ∈ fields, (values field).isSome)
    (h : ∀ fields, nonEmptyList fields? = some fields →
      RendersEntries listTag fields row.children entries) :
    ((nonEmptyList fields?).map fun fields => entriesJson (extractEntryList row listTag fields)) =
      (nonEmptyList fields?).map fun fields => entriesJson (entries.map (fieldItems fields)) := by
  refine Option.map_congr fun fields hfields => ?_
  have hsome : fields? = some fields := (Option.filter_eq_some_iff.mp hfields).1
  rw [(h fields hfields).extractEntryList (hkeys fields hsome) (hnonempty fields hsome)]

theorem Named.voucher {record : Record} (hspec : DistinctKeys spec)
    (hnamed : Named spec data record) (hv : spec.isVoucher) (h : RendersRow spec data row) :
    Represents spec data (withVoucherKeys spec row record) where
  field := by
    intro field hfetch
    -- the keys that a voucher adds are not those of its fields
    rw [lookup_withVoucherKeys record (hspec.reserved hv field hfetch), hnamed.field field hfetch]
  name := by
    rw [lookup_withVoucherKeys record (by decide), hnamed.name]
  voucherType := by
    intro _
    have htype : voucherType spec (withVoucherKeys spec row record) = voucherType spec record := by
      unfold voucherType
      rw [lookup_withVoucherKeys record (by decide)]
    rw [htype, withVoucherKeys, lookup_setSome_of_ne (by decide),
      lookup_setSome_of_ne (by decide), Finmap.lookup_insert]
  ledgerEntries := by
    intro _
    -- the lists stand under keys that were free
    have hnew : (record.insert "voucher_type" (voucherType spec record)).lookup
        "ledger_entries" = none := by
      rw [Finmap.lookup_insert_of_ne _ (by decide)]
      exact hnamed.lookup_reserved hspec hv (by decide)
    rw [withVoucherKeys, lookup_setSome_of_ne (by decide), lookup_setSome hnew]
    exact entriesJson_eq hspec.ledger data.ledgerNonempty (h.ledger hv)
  inventoryEntries := by
    intro _
    rw [withVoucherKeys, lookup_setSome]
    · exact entriesJson_eq hspec.inventory data.inventoryNonempty (h.inventory hv)
    · rw [lookup_setSome_of_ne (by decide), Finmap.lookup_insert_of_ne _ (by decide)]
      exact hnamed.lookup_reserved hspec hv (by decide)
  only := by
    intro key hkey
    by_cases hreserved : key ∈ ["voucher_type", "ledger_entries", "inventory_entries"]
    · exact .inr (.inr ⟨hv, hreserved⟩)
    · rw [lookup_withVoucherKeys record hreserved] at hkey
      rcases hnamed.only key hkey with hname | hfield
      · exact .inl hname
      · exact .inr (.inl hfield)

theorem represents_parseRow (hspec : DistinctKeys spec) (h : RendersRow spec data row) :
    Represents spec data (parseRow spec row) := by
  have hnamed := named_of_rendersRow hspec h
  rw [parseRow_eq, h.fields.extractFields hspec.fields]
  by_cases hv : spec.isVoucher
  · rw [if_pos hv]
    exact hnamed.voucher hspec hv h
  · rw [if_neg hv]
    exact {
      field := hnamed.field
      name := hnamed.name
      voucherType := fun h => absurd h hv
      ledgerEntries := fun h => absurd h hv
      inventoryEntries := fun h => absurd h hv
      only := fun key hkey => (hnamed.only key hkey).imp_right .inl
    }

/-! ## The rows -/

theorem rows_below {children : List Element} {rows : List (RowData spec)}
    (hspec : DistinctKeys spec) (h : RendersRows spec children rows) :
    List.Forall₂ (Represents spec) rows
      (((Element.descendantsOf children).filter fun elem => elem.tag == rowTag spec).map
        (parseRow spec)) := by
  induction h with
  | nil => exact .nil
  | @row row data rest rows h hrest ih =>
    have hinside : row.descendants.filter (fun elem => elem.tag == rowTag spec) = [] := by
      rw [List.filter_eq_nil_iff]
      intro elem helem htag
      exact h.noRow elem helem (by simpa using htag)
    rw [Element.descendantsOf, List.filter_cons_of_pos (by simpa using h.tag),
      List.filter_append, hinside, List.nil_append, List.map_cons]
    exact .cons (represents_parseRow hspec h) ih
  | @other elem inner rest rows htag hinner hrest ihinner ihrest =>
    have hbelow : elem.descendants = Element.descendantsOf elem.children := by
      cases elem
      rfl
    rw [Element.descendantsOf, List.filter_cons_of_neg (by simpa using htag),
      List.filter_append, List.map_append, hbelow]
    exact List.rel_append ihinner ihrest

/-- A row says what its record is. -/
theorem Represents.unique {record record' : Record} (h : Represents spec data record)
    (h' : Represents spec data record') : record = record' := by
  have hplain : ∀ key,
      ¬ (spec.isVoucher ∧ key ∈ ["voucher_type", "ledger_entries", "inventory_entries"]) →
      record.lookup key = record'.lookup key := by
    -- a key outside of the reserved ones: it is fetched, or it is absent
    intro key hkey
    by_cases hin : key = "name" ∨ ∃ field ∈ spec.fetchFields, pascalToSnake field = key
    · rcases hin with rfl | ⟨field, hfetch, rfl⟩
      · rw [h.name, h'.name]
      · rw [h.field field hfetch, h'.field field hfetch]
    · have habsent : ∀ {r : Record}, Represents spec data r → r.lookup key = none := by
        intro r hr
        rw [← Option.not_isSome_iff_eq_none]
        intro hsome
        rcases hr.only key hsome with hname | hfield | hreserved
        · exact hin (.inl hname)
        · exact hin (.inr hfield)
        · exact hkey hreserved
      rw [habsent h, habsent h']
  have htype : TallyConnector.voucherType spec record = TallyConnector.voucherType spec record' := by
    unfold TallyConnector.voucherType
    rw [hplain "voucher_type_name" fun hkey => absurd hkey.2 (by decide)]
  refine Finmap.ext_lookup fun key => ?_
  by_cases hkey :
      spec.isVoucher ∧ key ∈ ["voucher_type", "ledger_entries", "inventory_entries"]
  · -- the keys that a voucher adds
    rcases hkey with ⟨hv, hmem⟩
    simp only [List.mem_cons, List.not_mem_nil, or_false] at hmem
    rcases hmem with rfl | rfl | rfl
    · rw [h.voucherType hv, h'.voucherType hv, htype]
    · rw [h.ledgerEntries hv, h'.ledgerEntries hv]
    · rw [h.inventoryEntries hv, h'.inventoryEntries hv]
  · exact hplain key hkey

/-- A document of rows parses, and what comes back are the records of its
rows, in document order. -/
theorem parse_inverts_rendering {fromstring : Bytes → Except String Element} {xmlBytes : Bytes}
    {root : Element} {rows : List (RowData spec)} (hspec : DistinctKeys spec)
    (hroot : fromstring (scrubControlChars 0 xmlBytes) = .ok root)
    (h : RendersRows spec root.children rows) :
    ∃ records, parseCollectionResponse fromstring xmlBytes spec = .ok records ∧
      ∀ records', List.Forall₂ (Represents spec) rows records' ↔ records' = records := by
  have hrows := rows_below hspec h
  have hunique : Relator.RightUnique (Represents spec) := fun _ _ _ => Represents.unique
  refine ⟨_, ?_, fun records' => ⟨fun h' => hunique.forall₂ h' hrows, ?_⟩⟩
  · simp only [parseCollectionResponse, hroot]
    cases root
    rfl
  · rintro rfl
    exact hrows

/-! ## A document -/

/-- Vouchers with ledger entries. -/
def receiptSpec : EntitySpec where
  name := "receipt_voucher"
  kind := .voucher
  tallyObjectType := "Voucher"
  fetchFields := ["Guid", "Narration"]
  pydanticModel := fun raw => .ok ⟨raw⟩
  voucherTypeFilter := some "Receipt"
  ledgerEntriesFields := some ["LedgerName", "Amount"]

theorem distinctKeys_receipt : DistinctKeys receiptSpec where
  fields := by decide
  ledger := by
    rintro _ ⟨⟩
    decide
  inventory := by
    rintro _ ⟨⟩
  reserved := by
    intro _
    decide

theorem trimmed_of_all {text : String} (hne : text ≠ "")
    (h : text.toList.all (!isPySpace ·) = true) : Trimmed text where
  nonempty := hne
  head := fun c hc => by simpa using List.all_eq_true.mp h c (List.mem_of_mem_head? hc)
  last := fun c hc => by simpa using List.all_eq_true.mp h c (List.mem_of_mem_getLast? hc)

def word : Value := ⟨"word", trimmed_of_all (by decide) (by decide)⟩

def receipt : RowData receiptSpec where
  values := fun field => if field = "Guid" then some word else none
  name := some word
  ledgerEntries := [fun field => if field = "Amount" then some word else none]
  inventoryEntries := []
  fetchedName := by decide
  ledgerNonempty := by
    rintro _ ⟨⟩
    decide
  inventoryNonempty := by
    rintro _ ⟨⟩

theorem padded_word : Padded word " word " := ⟨" ", " ", by decide, by decide, rfl⟩

def amountEntry : Element :=
  .mk "ALLLEDGERENTRIES.LIST" [] none [.mk "AMOUNT" [] (some " word ") []]

def receiptRow : Element :=
  .mk "VOUCHER" [("NAME", " word "), ("GUID", " word ")] none [
    .mk "TAGS" [] none [.mk "AMOUNT" [] none []],
    .mk "NARRATION" [] (some " ") [],
    .mk "ALLLEDGERENTRIES.LIST" [] none [],
    amountEntry]

theorem rendersFields_amount :
    RendersFields ["LedgerName", "Amount"] (fun field => if field = "Amount" then some word else none)
      amountEntry where
  child := by
    rintro field - value hvalue child hchild -
    obtain ⟨rfl, rfl⟩ : field = "Amount" ∧ word = value := by simpa using hvalue
    obtain rfl : child = _ := List.mem_singleton.mp hchild
    exact ⟨" word ", rfl, padded_word⟩
  placed := by
    rintro field - value hvalue
    obtain ⟨rfl, -⟩ : field = "Amount" ∧ word = value := by simpa using hvalue
    exact .inl ⟨_, List.mem_singleton_self _, by decide⟩
  blankChild := by
    rintro field hfield hvalue child hchild htag
    obtain rfl : child = _ := List.mem_singleton.mp hchild
    simp only [List.mem_cons, List.not_mem_nil, or_false] at hfield
    rcases hfield with rfl | rfl
    · exact absurd htag (by decide)
    · exact absurd hvalue (by simp)
  blankAttr := by
    rintro field - - attr hattr
    cases hattr

theorem rendersFields_receipt :
    RendersFields receiptSpec.fetchFields receipt.values receiptRow where
  child := by
    rintro field - value hvalue child hchild htag
    obtain ⟨rfl, rfl⟩ : field = "Guid" ∧ word = value := by simpa [receipt] using hvalue
    have hnone : ∀ child ∈ receiptRow.children, child.tag ≠ pyUpper "Guid" := by
      simp [receiptRow, amountEntry, Element.children, Element.tag]
      decide
    exact absurd htag (hnone child hchild)
  placed := by
    rintro field - value hvalue
    obtain ⟨rfl, rfl⟩ : field = "Guid" ∧ word = value := by simpa [receipt] using hvalue
    exact .inr ⟨" word ", by decide, padded_word⟩
  blankChild := by
    rintro field hfield hvalue child hchild htag text htext
    have hblank : ∀ child ∈ receiptRow.children, child.tag = pyUpper "Narration" →
        ∀ text ∈ child.text, Blank text := by decide
    simp only [receiptSpec, List.mem_cons, List.not_mem_nil, or_false] at hfield
    rcases hfield with rfl | rfl
    · exact absurd hvalue (by simp [receipt])
    · exact hblank child hchild htag text htext
  blankAttr := by
    rintro field hfield hvalue attr hattr
    simp only [receiptSpec, List.mem_cons, List.not_mem_nil, or_false] at hfield
    rcases hfield with rfl | rfl
    · exact absurd hvalue (by simp [receipt])
    · have habsent : receiptRow.get (pyUpper "Narration") = none := by decide
      rw [habsent] at hattr
      cases hattr

theorem rendersRow_receipt : RendersRow receiptSpec receipt receiptRow where
  tag := by decide
  fields := rendersFields_receipt
  name := by
    rintro _ ⟨⟩
    exact ⟨word, rfl, padded_word⟩
  unfetched := fun _ _ => rfl
  ledger := by
    rintro - _ ⟨⟩
    refine .other (by decide) (.other (by decide) (.blank rfl ?_ (.entry rfl ?_ .nil)))
    · exact ⟨by simp, by simp, by simp [Element.children], fun _ _ _ _ h => nomatch h⟩
    · exact rendersFields_amount
  inventory := by
    rintro - _ ⟨⟩
  noRow := by decide

theorem rendersRows_receipt :
    RendersRows receiptSpec [.mk "BODY" [] none [receiptRow]] ([receipt] ++ []) :=
  .other (by decide) (.row rendersRow_receipt .nil) .nil

/-- A voucher below another element, with `AMOUNT` at two depths. -/
theorem parse_inverts_rendering_receipt :
    ∃ records, parseCollectionResponse
        (fun _ => .ok (.mk "ENVELOPE" [] none [.mk "BODY" [] none [receiptRow]])) [] receiptSpec
        = .ok records ∧
      ∀ records', List.Forall₂ (Represents receiptSpec) [receipt] records' ↔ records' = records :=
  parse_inverts_rendering distinctKeys_receipt rfl rendersRows_receipt

end TallyConnector
