import Mathlib.Data.List.DropRight
import TallyConnector.Models.EntitySpec
import TallyConnector.Tally.XmlParser

/-! # What the parser makes of a row

The values of a parsed record: texts, and lists of entries under the two entry
list keys of a voucher.
-/

namespace TallyConnector

variable {spec : EntitySpec} {row : Element} {record : Record}

/-! ## What holds of every item of a record -/

/-- Every item of the record satisfies `P`. -/
def EveryItem (P : String → Json → Prop) (record : Record) : Prop :=
  ∀ key value, record.lookup key = some value → P key value

variable {P : String → Json → Prop}

theorem everyItem_empty : EveryItem P ∅ := by
  intro key value h
  cases h

theorem EveryItem.insert (h : EveryItem P record) {key : String} {value : Json}
    (hitem : P key value) : EveryItem P (record.insert key value) := by
  intro key' value' hvalue
  by_cases hkey : key' = key
  · subst hkey
    rw [Finmap.lookup_insert] at hvalue
    cases hvalue
    exact hitem
  · rw [Finmap.lookup_insert_of_ne _ hkey] at hvalue
    exact h key' value' hvalue

theorem everyItem_foldl {items : List (String × String)}
    (hitems : ∀ kv ∈ items, P kv.1 (.str kv.2)) (h : EveryItem P record) :
    EveryItem P (items.foldl
      (fun (record : Record) kv => record.insert kv.1 (Json.str kv.2)) record) := by
  induction items generalizing record with
  | nil => exact h
  | cons kv items ih =>
    exact ih (fun kv' hkv' => hitems kv' (List.mem_cons_of_mem kv hkv'))
      (h.insert (hitems kv List.mem_cons_self))

/-- The items that `parse_collection_response` puts into the record of a row. -/
structure RowItems (P : String → Json → Prop) (spec : EntitySpec) (row : Element) : Prop where
  field : ∀ kv ∈ extractFields row spec.fetchFields, P kv.1 (.str kv.2)
  name : ∀ attr, row.get "NAME" = some attr → P "name" (.str (pyStrip attr))
  filter : spec.isVoucher → ∀ name, spec.voucherTypeFilter = some name →
    P "voucher_type" (.str name)
  typeName : ∀ value, P "voucher_type_name" value → P "voucher_type" value
  noType : P "voucher_type" (.str "")
  ledger : ∀ entries, P "ledger_entries" (entriesJson entries)
  inventory : ∀ entries, P "inventory_entries" (entriesJson entries)

theorem everyItem_parseRow (h : RowItems P spec row) : EveryItem P (parseRow spec row) := by
  have hfields : EveryItem P ((extractFields row spec.fetchFields).foldl
      (fun (record : Record) kv => record.insert kv.1 (Json.str kv.2)) ∅) :=
    everyItem_foldl h.field everyItem_empty
  unfold parseRow
  extract_lets record named typed ledger
  have hnamed : EveryItem P named := by
    simp only [named]
    split
    · next attr hattr =>
      split
      · exact hfields
      · exact hfields.insert (h.name attr (Option.eq_some_of_filter_eq_some hattr))
    · exact hfields
  split
  · next hvoucher =>
    -- a voucher has its type, and the lists that are not empty
    have htyped : EveryItem P typed := by
      simp only [typed]
      cases hfilter : nonEmpty spec.voucherTypeFilter with
      | some name =>
        exact hnamed.insert (h.filter hvoucher name (Option.eq_some_of_filter_eq_some hfilter))
      | none =>
        cases hname : named.lookup "voucher_type_name" with
        | none => exact hnamed.insert h.noType
        | some value => exact hnamed.insert (h.typeName value (hnamed _ _ hname))
    have hledger : EveryItem P ledger := by
      simp only [ledger]
      split
      · exact htyped.insert (h.ledger _)
      · exact htyped
    split
    · exact hledger.insert (h.inventory _)
    · exact hledger
  · exact hnamed

/-- A record of a response is the record of a row. -/
theorem exists_row_of_mem {fromstring : Bytes → Except String Element} {xmlBytes : Bytes}
    {records : List Record}
    (hrecords : parseCollectionResponse fromstring xmlBytes spec = .ok records)
    (hrecord : record ∈ records) : ∃ row, record = parseRow spec row := by
  unfold parseCollectionResponse at hrecords
  split at hrecords
  · cases hrecords
  · cases hrecords
    rcases List.mem_map.mp hrecord with ⟨row, -, rfl⟩
    exact ⟨row, rfl⟩

/-! ## Texts -/

/-- Every value under another key than the entry lists is a text. -/
def TextOutsideLists (record : Record) : Prop :=
  ∀ key, key ≠ "ledger_entries" → key ≠ "inventory_entries" →
    ∀ value, record.lookup key = some value → ∃ text, value = .str text

theorem textOutsideLists_parseRow (spec : EntitySpec) (row : Element) :
    TextOutsideLists (parseRow spec row) := by
  intro key hledger hinventory value hvalue
  have hitems : RowItems (fun key value => key ≠ "ledger_entries" → key ≠ "inventory_entries" →
      ∃ text, value = .str text) spec row :=
    { field := fun kv _ _ _ => ⟨kv.2, rfl⟩
      name := fun attr _ _ _ => ⟨pyStrip attr, rfl⟩
      filter := fun _ name _ _ _ => ⟨name, rfl⟩
      typeName := fun _ htext _ _ => htext (by decide) (by decide)
      noType := fun _ _ => ⟨"", rfl⟩
      ledger := fun _ hne => absurd rfl hne
      inventory := fun _ _ hne => absurd rfl hne }
  exact everyItem_parseRow hitems key value hvalue hledger hinventory

/-- The values of a parsed record. -/
theorem textOutsideLists_of_mem {fromstring : Bytes → Except String Element} {xmlBytes : Bytes}
    {records : List Record}
    (hrecords : parseCollectionResponse fromstring xmlBytes spec = .ok records)
    (hrecord : record ∈ records) : TextOutsideLists record := by
  rcases exists_row_of_mem hrecords hrecord with ⟨row, rfl⟩
  exact textOutsideLists_parseRow spec row

/-! ## Whitespace -/

/-- A text without whitespace around it. -/
def Stripped (s : String) : Prop := pyStrip s = s

/-- Nothing more is dropped from a beginning of what is left. -/
theorem dropWhile_of_prefix {α : Type} {p : α → Bool} {l m : List α}
    (h : m <+: l.dropWhile p) : m.dropWhile p = m := by
  cases m with
  | nil => rfl
  | cons a m =>
    rcases h with ⟨rest, hrest⟩
    have hhead := List.head?_dropWhile_not p l
    rw [← hrest] at hhead
    have ha : p a = false := hhead
    exact List.dropWhile_cons_of_neg (by simp [ha])

theorem stripped_pyStrip (s : String) : Stripped (pyStrip s) := by
  have hlist : (pyStrip s).toList = (s.toList.dropWhile isPySpace).rdropWhile isPySpace :=
    String.toList_ofList
  have hfront : (pyStrip s).toList.dropWhile isPySpace = (pyStrip s).toList := by
    rw [hlist]
    exact dropWhile_of_prefix (List.rdropWhile_prefix isPySpace _)
  have hback : (pyStrip s).toList.rdropWhile isPySpace = (pyStrip s).toList := by
    rw [hlist]
    exact List.rdropWhile_idempotent ..
  show String.ofList (((pyStrip s).toList.dropWhile isPySpace).rdropWhile isPySpace) = pyStrip s
  rw [hfront, hback, String.ofList_toList]

theorem stripped_of_fieldValue {fieldName value : String}
    (h : fieldValue row fieldName = some value) : Stripped value := by
  have hvalue : ∀ text, nonEmpty (some (pyStrip text)) = some value → Stripped value := by
    intro text htext
    have heq : pyStrip text = value :=
      Option.some.inj (Option.eq_some_of_filter_eq_some htext)
    rw [← heq]
    exact stripped_pyStrip text
  simp only [fieldValue] at h
  split at h
  · exact hvalue _ h
  · rcases Option.bind_eq_some_iff.mp h with ⟨attr, -, hattr⟩
    exact hvalue attr hattr

theorem stripped_setItem {items : List (String × String)} {key value : String}
    (h : ∀ kv ∈ items, Stripped kv.2) (hvalue : Stripped value) :
    ∀ kv ∈ setItem items key value, Stripped kv.2 := by
  intro kv hkv
  unfold setItem at hkv
  split at hkv
  · rcases List.mem_map.mp hkv with ⟨old, hold, rfl⟩
    split
    · exact hvalue
    · exact h old hold
  · rcases List.mem_append.mp hkv with hkv | hkv
    · exact h kv hkv
    · rw [List.mem_singleton.mp hkv]
      exact hvalue

theorem stripped_extractFields (row : Element) (fields : List String) :
    ∀ kv ∈ extractFields row fields, Stripped kv.2 := by
  unfold extractFields
  generalize hitems : ([] : List (String × String)) = items
  have h : ∀ kv ∈ items, Stripped kv.2 := by
    rw [← hitems]
    intro kv hkv
    cases hkv
  clear hitems
  induction fields generalizing items with
  | nil => exact h
  | cons fieldName fields ih =>
    rw [List.foldl_cons]
    refine ih _ ?_
    split
    · next value hvalue => exact stripped_setItem h (stripped_of_fieldValue hvalue)
    · exact h

/-- All texts of a record are stripped, except for a voucher type that is the
filter of the spec. -/
theorem stripped_parseRow {key text : String}
    (h : (parseRow spec row).lookup key = some (.str text)) :
    Stripped text ∨
      key = "voucher_type" ∧ spec.isVoucher ∧ spec.voucherTypeFilter = some text := by
  have hitems : RowItems (fun key value => ∀ text, value = .str text → Stripped text ∨
      key = "voucher_type" ∧ spec.isVoucher ∧ spec.voucherTypeFilter = some text) spec row :=
    { field := by
        intro kv hkv text htext
        cases htext
        exact .inl (stripped_extractFields row spec.fetchFields kv hkv)
      name := by
        intro attr _ text htext
        cases htext
        exact .inl (stripped_pyStrip attr)
      filter := by
        intro hvoucher name hname text htext
        cases htext
        exact .inr ⟨rfl, hvoucher, hname⟩
      typeName := by
        intro value hvalue text htext
        rcases hvalue text htext with hstripped | ⟨hkey, -⟩
        · exact .inl hstripped
        · exact absurd hkey (by decide)
      noType := by
        intro text htext
        cases htext
        exact .inl rfl
      ledger := by
        intro entries text htext
        cases htext
      inventory := by
        intro entries text htext
        cases htext }
  exact everyItem_parseRow hitems key _ h text rfl

end TallyConnector
