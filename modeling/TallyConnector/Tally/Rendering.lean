import TallyConnector.Tally.XmlParser

/-! # Records as documents

The documents that say the same as a list of records: every record is one row
element at any depth, its fields stand in child elements or attributes, its
entries in list elements, and other elements may stand anywhere.
-/

namespace TallyConnector

/-! ## Values -/

/-- A text that is non-blank and trimmed. -/
structure Trimmed (text : String) : Prop where
  nonempty : text ≠ ""
  head : ∀ c ∈ text.toList.head?, isPySpace c = false
  last : ∀ c ∈ text.toList.getLast?, isPySpace c = false

abbrev Value := {text : String // Trimmed text}

/-- The values an element has, by field name. -/
abbrev Values := String → Option Value

/-- A text with nothing but whitespace. -/
def Blank (text : String) : Prop := ∀ c ∈ text.toList, isPySpace c = true

instance (text : String) : Decidable (Blank text) :=
  decidable_of_iff (text.toList.all isPySpace = true) List.all_eq_true

/-- The value with whitespace around it. -/
def Padded (value : Value) (text : String) : Prop :=
  ∃ before after : String, Blank before ∧ Blank after ∧ text = before ++ value.1 ++ after

/-! ## Elements -/

/-- How the fields of an element are rendered: a present field as a child
element or an attribute, a missing one as nothing or as a blank. -/
structure RendersFields (fields : List String) (values : Values) (elem : Element) : Prop where
  child : ∀ field ∈ fields, ∀ value, values field = some value → ∀ child ∈ elem.children,
    child.tag = pyUpper field → ∃ text, child.text = some text ∧ Padded value text
  placed : ∀ field ∈ fields, ∀ value, values field = some value →
    (∃ child ∈ elem.children, child.tag = pyUpper field) ∨
      ∃ attr, elem.get (pyUpper field) = some attr ∧ Padded value attr
  blankChild : ∀ field ∈ fields, values field = none → ∀ child ∈ elem.children,
    child.tag = pyUpper field → ∀ text, child.text = some text → Blank text
  blankAttr : ∀ field ∈ fields, values field = none →
    ∀ attr, elem.get (pyUpper field) = some attr → Blank attr

/-- The entries of a row among its children, in order: blank list elements
and other elements may stand between them. -/
inductive RendersEntries (listTag : String) (fields : List String) :
    List Element → List Values → Prop
  | nil : RendersEntries listTag fields [] []
  | entry {elem : Element} {rest : List Element} {values : Values} {entries : List Values}
      (htag : elem.tag = listTag) (h : RendersFields fields values elem)
      (hrest : RendersEntries listTag fields rest entries) :
      RendersEntries listTag fields (elem :: rest) (values :: entries)
  | blank {elem : Element} {rest : List Element} {entries : List Values}
      (htag : elem.tag = listTag) (h : RendersFields fields (fun _ => none) elem)
      (hrest : RendersEntries listTag fields rest entries) :
      RendersEntries listTag fields (elem :: rest) entries
  | other {elem : Element} {rest : List Element} {entries : List Values}
      (htag : elem.tag ≠ listTag) (hrest : RendersEntries listTag fields rest entries) :
      RendersEntries listTag fields (elem :: rest) entries

/-- What a row says. -/
structure RowData (spec : EntitySpec) where
  values : Values
  name : Option Value
  ledgerEntries : List Values
  inventoryEntries : List Values
  /-- A fetched name is the name. -/
  fetchedName : ∀ field ∈ spec.fetchFields, pascalToSnake field = "name" → name = values field
  ledgerNonempty : ∀ fields, spec.ledgerEntriesFields = some fields →
    ∀ values ∈ ledgerEntries, ∃ field ∈ fields, (values field).isSome
  inventoryNonempty : ∀ fields, spec.inventoryEntriesFields = some fields →
    ∀ values ∈ inventoryEntries, ∃ field ∈ fields, (values field).isSome

/-- The row element of a record. -/
structure RendersRow (spec : EntitySpec) (data : RowData spec) (row : Element) : Prop where
  tag : row.tag = rowTag spec
  fields : RendersFields spec.fetchFields data.values row
  /-- The row has a `NAME` attribute only if the record has that name. -/
  name : ∀ attr, row.get "NAME" = some attr → ∃ name, data.name = some name ∧ Padded name attr
  /-- A name that is not fetched stands in the attribute. -/
  unfetched : (∀ field ∈ spec.fetchFields, pascalToSnake field ≠ "name") →
    data.name.isSome → (row.get "NAME").isSome
  ledger : spec.isVoucher → ∀ fields, nonEmptyList spec.ledgerEntriesFields = some fields →
    RendersEntries "ALLLEDGERENTRIES.LIST" fields row.children data.ledgerEntries
  inventory : spec.isVoucher → ∀ fields, nonEmptyList spec.inventoryEntriesFields = some fields →
    RendersEntries "ALLINVENTORYENTRIES.LIST" fields row.children data.inventoryEntries
  /-- No row stands inside another. -/
  noRow : ∀ elem ∈ row.descendants, elem.tag ≠ rowTag spec

/-- The rows below an element, in document order and at any depth. -/
inductive RendersRows (spec : EntitySpec) : List Element → List (RowData spec) → Prop
  | nil : RendersRows spec [] []
  | row {row : Element} {data : RowData spec} {rest : List Element}
      {rows : List (RowData spec)} (h : RendersRow spec data row)
      (hrest : RendersRows spec rest rows) : RendersRows spec (row :: rest) (data :: rows)
  | other {elem : Element} {inner : List (RowData spec)} {rest : List Element}
      {rows : List (RowData spec)} (htag : elem.tag ≠ rowTag spec)
      (hinner : RendersRows spec elem.children inner) (hrest : RendersRows spec rest rows) :
      RendersRows spec (elem :: rest) (inner ++ rows)

/-! ## Records -/

/-- The present fields under their snake_case keys, in the order of the
fields. -/
def fieldItems (fields : List String) (values : Values) : List (String × String) :=
  fields.filterMap fun field => (values field).map fun value => (pascalToSnake field, value.1)

theorem fieldItems_none {field : String} {fields : List String} {values : Values}
    (h : values field = none) : fieldItems (field :: fields) values = fieldItems fields values := by
  simp [fieldItems, h]

theorem fieldItems_some {field : String} {fields : List String} {values : Values} {value : Value}
    (h : values field = some value) :
    fieldItems (field :: fields) values =
      (pascalToSnake field, value.1) :: fieldItems fields values := by
  simp [fieldItems, h]

/-- The voucher type asked for, else the one fetched. -/
def voucherType (spec : EntitySpec) (record : Record) : Json :=
  match nonEmpty spec.voucherTypeFilter with
  | some name => .str name
  | none => (record.lookup "voucher_type_name").getD (.str "")

/-- The record of a row: these keys, and no others. -/
structure Represents (spec : EntitySpec) (data : RowData spec) (record : Record) : Prop where
  field : ∀ field ∈ spec.fetchFields,
    record.lookup (pascalToSnake field) = (data.values field).map fun value => .str value.1
  name : record.lookup "name" = data.name.map fun name => .str name.1
  voucherType : spec.isVoucher → record.lookup "voucher_type" = some (voucherType spec record)
  ledgerEntries : spec.isVoucher → record.lookup "ledger_entries" =
    (nonEmptyList spec.ledgerEntriesFields).map fun fields =>
      entriesJson (data.ledgerEntries.map (fieldItems fields))
  inventoryEntries : spec.isVoucher → record.lookup "inventory_entries" =
    (nonEmptyList spec.inventoryEntriesFields).map fun fields =>
      entriesJson (data.inventoryEntries.map (fieldItems fields))
  only : ∀ key, (record.lookup key).isSome → key = "name" ∨
    (∃ field ∈ spec.fetchFields, pascalToSnake field = key) ∨
    (spec.isVoucher ∧ key ∈ ["voucher_type", "ledger_entries", "inventory_entries"])

/-- The keys of a record and of its entries are pairwise distinct. -/
structure DistinctKeys (spec : EntitySpec) : Prop where
  fields : (spec.fetchFields.map pascalToSnake).Nodup
  ledger : ∀ fields, spec.ledgerEntriesFields = some fields → (fields.map pascalToSnake).Nodup
  inventory : ∀ fields, spec.inventoryEntriesFields = some fields →
    (fields.map pascalToSnake).Nodup
  /-- No fetched field is called like the keys that a voucher gets. -/
  reserved : spec.isVoucher → ∀ field ∈ spec.fetchFields,
    pascalToSnake field ∉ ["voucher_type", "ledger_entries", "inventory_entries"]

/-! ## Fields -/

/-- Nothing is dropped from a text that begins with another character. -/
theorem dropWhile_isPySpace {cs : List Char} (h : ∀ c ∈ cs.head?, isPySpace c = false) :
    cs.dropWhile isPySpace = cs := by
  cases cs with
  | nil => rfl
  | cons c cs => exact List.dropWhile_cons_of_neg (by simpa using h)

/-- Stripping takes the padding away. -/
theorem Padded.pyStrip {value : Value} {text : String} (h : Padded value text) :
    pyStrip text = value.1 := by
  rcases h with ⟨before, after, hbefore, hafter, rfl⟩
  have hne : value.1.toList ≠ [] := by
    simpa using value.2.nonempty
  have hfront : (value.1.toList ++ after.toList).dropWhile isPySpace
      = value.1.toList ++ after.toList := by
    refine dropWhile_isPySpace ?_
    rw [List.head?_append_of_ne_nil _ hne]
    exact value.2.head
  have hback : value.1.toList.reverse.dropWhile isPySpace = value.1.toList.reverse := by
    refine dropWhile_isPySpace ?_
    rw [List.head?_reverse]
    exact value.2.last
  have hpad : ∀ c ∈ after.toList.reverse, isPySpace c = true := by
    intro c hc
    exact hafter c (List.mem_reverse.mp hc)
  unfold TallyConnector.pyStrip
  rw [String.toList_append, String.toList_append, List.append_assoc,
    List.dropWhile_append_of_pos hbefore, hfront, List.reverse_append,
    List.dropWhile_append_of_pos hpad, hback, List.reverse_reverse, String.ofList_toList]

theorem Blank.pyStrip {text : String} (h : Blank text) : pyStrip text = "" := by
  have hnil : text.toList.dropWhile isPySpace = [] := by
    rw [← List.append_nil text.toList, List.dropWhile_append_of_pos h, List.dropWhile_nil]
  unfold TallyConnector.pyStrip
  rw [hnil]
  rfl

/-- The value of a padded text survives as it is, a blank text is no value. -/
theorem Padded.value {value : Value} {text : String} (h : Padded value text) :
    nonEmpty (some (TallyConnector.pyStrip text)) = some value.1 := by
  rw [h.pyStrip]
  simpa [nonEmpty] using value.2.nonempty

theorem Padded.ne_empty {value : Value} {text : String} (h : Padded value text) : text ≠ "" := by
  rintro rfl
  have hblank : Blank "" := by
    intro c hc
    cases hc
  exact value.2.nonempty (h.pyStrip.symm.trans hblank.pyStrip)

theorem Blank.no_value {text : String} (h : Blank text) :
    nonEmpty (some (TallyConnector.pyStrip text)) = none := by
  rw [h.pyStrip]
  rfl

/-- The first child with the tag, if it has a text. -/
theorem find_text_eq_some {elem : Element} {tag text : String}
    (h : (elem.find tag).bind Element.text = some text) :
    ∃ child ∈ elem.children, child.tag = tag ∧ child.text = some text := by
  rcases Option.bind_eq_some_iff.mp h with ⟨child, hfind, htext⟩
  exact ⟨child, List.mem_of_find?_eq_some hfind, by simpa using List.find?_some hfind, htext⟩

theorem find_text_eq_none {elem : Element} {tag : String}
    (h : (elem.find tag).bind Element.text = none)
    (htext : ∀ child ∈ elem.children, child.tag = tag → ∃ text, child.text = some text) :
    ∀ child ∈ elem.children, child.tag ≠ tag := by
  intro child hchild htag
  cases hfind : elem.find tag with
  | none =>
    have hother := List.find?_eq_none.mp hfind child hchild
    exact hother (by simpa using htag)
  | some first =>
    have hfirst : first.tag = tag := by simpa using List.find?_some hfind
    rcases htext first (List.mem_of_find?_eq_some hfind) hfirst with ⟨text, hsome⟩
    rw [hfind, Option.bind_some, hsome] at h
    cases h

theorem fieldValue_text {row : Element} {fieldName text : String}
    (h : (row.find (pyUpper fieldName)).bind Element.text = some text) :
    fieldValue row fieldName = nonEmpty (some (pyStrip text)) := by
  simp only [fieldValue, h]

theorem fieldValue_attr {row : Element} {fieldName : String}
    (h : (row.find (pyUpper fieldName)).bind Element.text = none) :
    fieldValue row fieldName =
      (row.get (pyUpper fieldName)).bind fun attr => nonEmpty (some (pyStrip attr)) := by
  simp only [fieldValue, h]

theorem RendersFields.fieldValue {fields : List String} {values : Values} {elem : Element}
    (h : RendersFields fields values elem) {field : String} (hfield : field ∈ fields) :
    fieldValue elem field = (values field).map (·.1) := by
  cases hvalue : values field with
  | some value =>
    cases htext : (elem.find (pyUpper field)).bind Element.text with
    | some text =>
      rw [fieldValue_text htext]
      rcases find_text_eq_some htext with ⟨child, hchild, htag, hsome⟩
      rcases h.child field hfield value hvalue child hchild htag with ⟨text', hsome', hpadded⟩
      rw [hsome] at hsome'
      cases hsome'
      exact hpadded.value
    | none =>
      -- without a child the value stands in the attribute
      rw [fieldValue_attr htext]
      have hno : ∀ child ∈ elem.children, child.tag ≠ pyUpper field := by
        refine find_text_eq_none htext fun child hchild htag => ?_
        rcases h.child field hfield value hvalue child hchild htag with ⟨text, hsome, -⟩
        exact ⟨text, hsome⟩
      rcases h.placed field hfield value hvalue with ⟨child, hchild, htag⟩ | ⟨attr, hattr, hpadded⟩
      · exact absurd htag (hno child hchild)
      · rw [hattr]
        exact hpadded.value
  | none =>
    cases htext : (elem.find (pyUpper field)).bind Element.text with
    | some text =>
      rw [fieldValue_text htext]
      rcases find_text_eq_some htext with ⟨child, hchild, htag, hsome⟩
      exact (h.blankChild field hfield hvalue child hchild htag text hsome).no_value
    | none =>
      rw [fieldValue_attr htext]
      cases hattr : elem.get (pyUpper field) with
      | none => rfl
      | some attr => exact (h.blankAttr field hfield hvalue attr hattr).no_value

theorem setItem_new {items : List (String × String)} {key : String} (value : String)
    (h : key ∉ items.map (·.1)) : setItem items key value = items ++ [(key, value)] := by
  have hany : ¬ (items.any (·.1 == key) = true) := by
    rw [List.any_eq_true]
    rintro ⟨kv, hkv, hkey⟩
    exact h (List.mem_map.mpr ⟨kv, hkv, by simpa using hkey⟩)
  rw [setItem, if_neg hany]

/-- Fields with distinct keys are collected one after another. -/
theorem foldl_setItem {elem : Element} {fields : List String} {values : Values}
    (items : List (String × String)) (hkeys : (fields.map pascalToSnake).Nodup)
    (hnew : ∀ field ∈ fields, pascalToSnake field ∉ items.map (·.1))
    (h : ∀ field ∈ fields, fieldValue elem field = (values field).map (·.1)) :
    fields.foldl (fun result fieldName =>
      match fieldValue elem fieldName with
      | some value => setItem result (pascalToSnake fieldName) value
      | none => result) items = items ++ fieldItems fields values := by
  induction fields generalizing items with
  | nil => simp [fieldItems]
  | cons field fields ih =>
    rw [List.map_cons, List.nodup_cons] at hkeys
    have hrest := fun other hother => h other (List.mem_cons_of_mem field hother)
    rw [List.foldl_cons, h field List.mem_cons_self]
    cases hvalue : values field with
    | none =>
      -- the field is absent
      rw [fieldItems_none hvalue]
      exact ih items hkeys.2 (fun other hother => hnew other (List.mem_cons_of_mem field hother))
        hrest
    | some value =>
      rw [fieldItems_some hvalue, Option.map_some]
      simp only [setItem_new value.1 (hnew field List.mem_cons_self)]
      rw [ih _ hkeys.2 _ hrest, List.append_assoc, List.singleton_append]
      -- its key is none of the later ones
      intro other hother hmem
      rw [List.map_append, List.mem_append] at hmem
      rcases hmem with hold | hfield
      · exact hnew other (List.mem_cons_of_mem field hother) hold
      · have heq : pascalToSnake other = pascalToSnake field := by simpa using hfield
        exact hkeys.1 (heq ▸ List.mem_map_of_mem hother)

theorem RendersFields.extractFields {fields : List String} {values : Values} {elem : Element}
    (hkeys : (fields.map pascalToSnake).Nodup) (h : RendersFields fields values elem) :
    extractFields elem fields = fieldItems fields values := by
  have hitems := foldl_setItem [] hkeys (fun _ _ => List.not_mem_nil)
    fun _ hfield => h.fieldValue hfield
  exact hitems.trans (List.nil_append _)

/-- The entries that have a field are what the parser keeps. -/
theorem RendersEntries.extractEntryList {listTag : String} {fields : List String}
    {row : Element} {entries : List Values} (hkeys : (fields.map pascalToSnake).Nodup)
    (hnonempty : ∀ values ∈ entries, ∃ field ∈ fields, (values field).isSome)
    (h : RendersEntries listTag fields row.children entries) :
    extractEntryList row listTag fields = entries.map (fieldItems fields) := by
  unfold TallyConnector.extractEntryList Element.findall
  generalize row.children = children at h
  induction h with
  | nil => rfl
  | @entry elem rest values entries htag h hrest ih =>
    -- an entry with a value is kept
    have hkept : (fieldItems fields values).isEmpty = false := by
      rcases hnonempty values List.mem_cons_self with ⟨field, hfield, hvalue⟩
      rcases Option.isSome_iff_exists.mp hvalue with ⟨value, hvalue⟩
      have hmem : (pascalToSnake field, value.1) ∈ fieldItems fields values :=
        List.mem_filterMap.mpr ⟨field, hfield, by rw [hvalue]; rfl⟩
      simpa using List.ne_nil_of_mem hmem
    have hrest := ih fun other hother => hnonempty other (List.mem_cons_of_mem values hother)
    rw [List.filter_cons_of_pos (by simpa using htag), List.map_cons, h.extractFields hkeys,
      List.filter_cons_of_pos (by simpa using hkept), hrest, List.map_cons]
  | @blank elem rest entries htag h hrest ih =>
    -- an entry without any is left out
    have hempty : fieldItems fields (fun _ => none) = [] := by
      simp [fieldItems]
    rw [List.filter_cons_of_pos (by simpa using htag), List.map_cons, h.extractFields hkeys,
      hempty, List.filter_cons_of_neg (by simp), ih hnonempty]
  | @other elem rest entries htag hrest ih =>
    rw [List.filter_cons_of_neg (by simpa using htag), ih hnonempty]

end TallyConnector
