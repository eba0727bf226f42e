import TallyConnector.Frappe.MappingFile
import TallyConnector.Models.Catalog
import TallyConnector.Properties.Mirror
import TallyConnector.Properties.Parsing
import TallyConnector.World.Receipts

/-! # From a row in Tally to a document in Frappe

With the registry and the mapping as they are shipped: the payload of a record
says, field by field, what the row element of Tally's response says
(`payloads_of_page`), and after an incremental sync so does the record's document
(`document_of_row`).
-/

namespace TallyConnector

open Effects Prog

/-! ## The fields of a payload -/

section apply
variable {me : MappingEntry} {modelDict out : Dict} {fields : List (String × String)}
variable {tallyField frappeField : String}

/-- A field without a value leaves no trace. -/
theorem lookup_foldl_of_dropped
    (honly : ∀ field ∈ fields, field.2 = frappeField → field.1 = tallyField)
    (hdropped : (modelDict.lookup tallyField).filter (· ≠ .null) = none) :
    (fields.foldl (MappingEntry.applyField modelDict) out).lookup frappeField =
      out.lookup frappeField := by
  induction fields generalizing out with
  | nil => rfl
  | cons field fields ih =>
    rw [List.foldl_cons, ih fun field hfield => honly field (List.mem_cons_of_mem _ hfield)]
    by_cases hfield : field.2 = frappeField
    · have htally := honly field List.mem_cons_self hfield
      unfold MappingEntry.applyField
      rw [htally]
      cases hvalue : modelDict.lookup tallyField with
      | none => rfl
      | some value =>
        rw [hvalue] at hdropped
        have hnull : value = .null := by simpa using hdropped
        simp [hnull]
    · exact MappingEntry.lookup_applyField_of_ne hfield

/-- With distinct Frappe fields, each gets the value of its own Tally field. -/
theorem MappingEntry.lookup_apply (hnodup : (me.fieldMap.map Prod.snd).Nodup)
    (hmem : (tallyField, frappeField) ∈ me.fieldMap) :
    (me.apply modelDict).lookup frappeField =
      (modelDict.lookup tallyField).filter (· ≠ .null) := by
  have honly : ∀ field ∈ me.fieldMap, field.2 = frappeField → field.1 = tallyField := by
    intro field hfield heq
    exact congrArg Prod.fst (List.inj_on_of_nodup_map hnodup hfield hmem heq)
  cases hvalue : (modelDict.lookup tallyField).filter (· ≠ .null) with
  | none => exact lookup_foldl_of_dropped honly hvalue
  | some value =>
    obtain ⟨hlookup, hne⟩ := Option.filter_eq_some_iff.mp hvalue
    exact MappingEntry.lookup_foldl_of_mem hmem honly hlookup (by simpa using hne)

theorem MappingEntry.mem_of_lookup_apply (h : ((me.apply modelDict).lookup frappeField).isSome) :
    frappeField ∈ me.fieldMap.map Prod.snd := by
  by_contra hnot
  have hnone : (me.apply modelDict).lookup frappeField = none :=
    MappingEntry.lookup_foldl_of_forall_ne fun field hfield heq =>
      hnot (heq ▸ List.mem_map_of_mem hfield)
  rw [hnone] at h
  cases h

end apply

/-! ## The fields of a model -/

section validate
variable {pydantic : Pydantic} {raw : Record} {model : Model} {key : String} {value : Json}
variable {v : Option Value}

theorem padded_self (v : Value) : Padded v v.1 := ⟨"", "", by decide, by decide, by simp⟩

theorem strField_value (hkeeps : pydantic.KeepsStrings)
    (hraw : raw.lookup key = v.map fun v => .str v.1)
    (h : pydantic.strField raw key = .ok value) :
    (some value).filter (· ≠ .null) = v.map fun v => .str v.1 := by
  cases v with
  | none =>
    rw [Pydantic.strField, hraw] at h
    cases h
  | some v =>
    rw [Pydantic.strField, hraw] at h
    dsimp only [Option.map_some] at h
    rw [hkeeps v.1 (padded_self v).pyStrip] at h
    cases h
    simp

theorem optionalStrField_value (hkeeps : pydantic.KeepsStrings)
    (hraw : raw.lookup key = v.map fun v => .str v.1)
    (h : pydantic.optionalStrField raw key = .ok value) :
    (some value).filter (· ≠ .null) = v.map fun v => .str v.1 := by
  cases v with
  | none =>
    rw [Pydantic.optionalStrField, hraw] at h
    cases h
    rfl
  | some v =>
    rw [Pydantic.optionalStrField, hraw] at h
    exact strField_value hkeeps hraw h

theorem optionalIntField_value (hraw : raw.lookup key = v.map fun v => .str v.1)
    (h : pydantic.optionalIntField raw key = .ok value) :
    (some value).filter (· ≠ .null) = v.bind fun v => (pydantic.int (.str v.1)).map .int := by
  cases v with
  | none =>
    rw [Pydantic.optionalIntField, hraw] at h
    cases h
    rfl
  | some v =>
    rw [Pydantic.optionalIntField, hraw] at h
    dsimp only [Option.map_some] at h
    cases hint : pydantic.int (.str v.1) with
    | none =>
      rw [hint] at h
      cases h
    | some n =>
      rw [hint] at h
      cases h
      simp [hint]

/-- The date that a text is read as. -/
def Pydantic.readDate (pydantic : Pydantic) (text : String) : Option Json :=
  if text.length = 8 ∧ text.toList.all isDecimalDigit then (strptimeDate text.toList).map .str
  else pydantic.date (.str text)

theorem dateField_value (hraw : raw.lookup key = v.map fun v => .str v.1)
    (h : pydantic.dateField raw key = .ok value) :
    v.bind (fun v => pydantic.readDate v.1) = some value := by
  cases v with
  | none =>
    rw [Pydantic.dateField, hraw] at h
    cases h
  | some v =>
    rw [Pydantic.dateField, hraw] at h
    dsimp only [Option.map_some] at h
    rw [Option.bind_some, Pydantic.readDate]
    split at h
    · next hdigits =>
      rw [if_pos hdigits]
      split at h
      · next date hdate =>
        cases h
        rw [hdate]
        rfl
      · cases h
    · next hdigits =>
      rw [if_neg hdigits]
      split at h
      · next date hdate =>
        cases h
        exact hdate
      · cases h

/-- What is sent for a text under a key of the model. -/
def Pydantic.sent (pydantic : Pydantic) (key text : String) : Option Json :=
  if key = "alter_id" then (pydantic.int (.str text)).map .int
  else if key = "date" then (pydantic.readDate text).filter (· ≠ .null)
  else some (.str text)

theorem tallyMaster_sent (hkeeps : pydantic.KeepsStrings) (hkey : key ≠ "date")
    (hraw : raw.lookup key = v.map fun v => .str v.1) (h : pydantic.tallyMaster raw = .ok model) :
    (model.dump.lookup key).filter (· ≠ .null) = v.bind fun v => pydantic.sent key v.1 := by
  rcases exists_of_bind_ok h with ⟨guid, hguid, h⟩
  rcases exists_of_bind_ok h with ⟨name, hname, h⟩
  rcases exists_of_bind_ok h with ⟨parent, hparent, h⟩
  rcases exists_of_bind_ok h with ⟨alterId, halterId, h⟩
  cases h
  -- a field that is no number stays as it is
  have htext : key ≠ "alter_id" → v.map (fun v => Json.str v.1) =
      v.bind fun v => pydantic.sent key v.1 := by
    intro hne
    cases v <;> simp [Pydantic.sent, hne, hkey]
  by_cases halter : key = "alter_id"
  · subst halter
    -- `alter_id` is read as a number
    rw [Finmap.lookup_insert, optionalIntField_value hraw halterId]
    rfl
  · rw [Finmap.lookup_insert_of_ne _ halter, ← htext halter]
    by_cases hp : key = "parent"
    · -- the declared texts
      subst hp
      rw [Finmap.lookup_insert, optionalStrField_value hkeeps hraw hparent]
    · rw [Finmap.lookup_insert_of_ne _ hp]
      by_cases hn : key = "name"
      · subst hn
        rw [Finmap.lookup_insert, strField_value hkeeps hraw hname]
      · rw [Finmap.lookup_insert_of_ne _ hn]
        by_cases hg : key = "guid"
        · subst hg
          rw [Finmap.lookup_insert, optionalStrField_value hkeeps hraw hguid]
        · -- a field that is not declared
          rw [Finmap.lookup_insert_of_ne _ hg, hraw]
          cases v <;> simp

theorem tallyVoucher_sent (hkeeps : pydantic.KeepsStrings)
    (hkey : key ∉ ["voucher_type", "ledger_entries", "inventory_entries"])
    (hraw : raw.lookup key = v.map fun v => .str v.1) (h : pydantic.tallyVoucher raw = .ok model) :
    (model.dump.lookup key).filter (· ≠ .null) = v.bind fun v => pydantic.sent key v.1 := by
  rcases exists_of_bind_ok h with ⟨guid, hguid, h⟩
  rcases exists_of_bind_ok h with ⟨voucherType, -, h⟩
  rcases exists_of_bind_ok h with ⟨voucherNumber, hnumber, h⟩
  rcases exists_of_bind_ok h with ⟨date, hdate, h⟩
  rcases exists_of_bind_ok h with ⟨partyLedgerName, hparty, h⟩
  rcases exists_of_bind_ok h with ⟨narration, hnarration, h⟩
  rcases exists_of_bind_ok h with ⟨alterId, halterId, h⟩
  rcases exists_of_bind_ok h with ⟨ledgerEntries, -, h⟩
  rcases exists_of_bind_ok h with ⟨inventoryEntries, -, h⟩
  cases h
  simp only [List.mem_cons, List.not_mem_nil, or_false, not_or] at hkey
  -- a field that is no number and no date stays as it is
  have htext : key ≠ "alter_id" → key ≠ "date" → v.map (fun v => Json.str v.1) =
      v.bind fun v => pydantic.sent key v.1 := by
    intro hne hne'
    cases v <;> simp [Pydantic.sent, hne, hne']
  rw [Finmap.lookup_insert_of_ne _ hkey.2.2, Finmap.lookup_insert_of_ne _ hkey.2.1]
  by_cases halter : key = "alter_id"
  · -- `alter_id` is read as a number
    subst halter
    rw [Finmap.lookup_insert, optionalIntField_value hraw halterId]
    rfl
  · rw [Finmap.lookup_insert_of_ne _ halter]
    by_cases hn : key = "narration"
    · -- the declared texts, and `date` between them
      subst hn
      rw [Finmap.lookup_insert, optionalStrField_value hkeeps hraw hnarration,
        htext halter (by decide)]
    · rw [Finmap.lookup_insert_of_ne _ hn]
      by_cases hp : key = "party_ledger_name"
      · subst hp
        rw [Finmap.lookup_insert, optionalStrField_value hkeeps hraw hparty,
          htext halter (by decide)]
      · rw [Finmap.lookup_insert_of_ne _ hp]
        by_cases hd : key = "date"
        · subst hd
          rw [Finmap.lookup_insert, ← dateField_value hraw hdate]
          cases v <;> rfl
        · rw [Finmap.lookup_insert_of_ne _ hd, ← htext halter hd]
          by_cases hv : key = "voucher_number"
          · subst hv
            rw [Finmap.lookup_insert, optionalStrField_value hkeeps hraw hnumber]
          · rw [Finmap.lookup_insert_of_ne _ hv, Finmap.lookup_insert_of_ne _ hkey.1]
            by_cases hg : key = "guid"
            · subst hg
              rw [Finmap.lookup_insert, strField_value hkeeps hraw hguid]
            · -- a field that is not declared
              rw [Finmap.lookup_insert_of_ne _ hg, hraw]
              cases v <;> simp

/-! ## The entries of a voucher -/

/-- The amount that a text is read as. -/
def Pydantic.readDecimal (pydantic : Pydantic) (text : String) : Option Json :=
  match coerceTallyDecimal text with
  | .none => none
  | .decimal d => some (.str d.text)
  | .text text => (pydantic.decimal (.str text)).filter (· ≠ .null)

/-- What is sent for a text under a key of an entry. -/
def Pydantic.sentEntry (pydantic : Pydantic) (key text : String) : Option Json :=
  if key ∈ ["amount", "actual_qty", "rate"] then pydantic.readDecimal text
  else if key = "is_deemed_positive" then some (.bool (["yes", "true", "1"].contains text.toLower))
  else some (.str text)

theorem sentEntry_decimal (hkey : key ∈ ["amount", "actual_qty", "rate"]) :
    (v.bind fun v => pydantic.sentEntry key v.1) = v.bind fun v => pydantic.readDecimal v.1 := by
  simp only [Pydantic.sentEntry, if_pos hkey]

theorem decimalOf_value {s : String} (h : pydantic.decimalOf key (.str s) = .ok value) :
    (some value).filter (· ≠ .null) = pydantic.readDecimal s := by
  unfold Pydantic.decimalOf at h
  unfold Pydantic.readDecimal
  dsimp only at h
  cases hcoerce : coerceTallyDecimal s with
  | none =>
    rw [hcoerce] at h
    cases h
    rfl
  | decimal d =>
    rw [hcoerce] at h
    cases h
    rfl
  | text text =>
    rw [hcoerce] at h
    dsimp only at h ⊢
    cases hdecimal : pydantic.decimal (.str text) with
    | none =>
      rw [hdecimal] at h
      cases h
    | some d =>
      rw [hdecimal] at h
      cases h
      rfl

theorem optionalDecimalField_value (hraw : raw.lookup key = v.map fun v => .str v.1)
    (h : pydantic.optionalDecimalField raw key = .ok value) :
    (some value).filter (· ≠ .null) = v.bind fun v => pydantic.readDecimal v.1 := by
  cases v with
  | none =>
    rw [Pydantic.optionalDecimalField, hraw] at h
    cases h
    rfl
  | some v =>
    rw [Pydantic.optionalDecimalField, hraw] at h
    dsimp only [Option.map_some] at h
    rw [Option.bind_some]
    exact decimalOf_value h

theorem decimalField_value (hraw : raw.lookup key = v.map fun v => .str v.1)
    (h : pydantic.decimalField raw key = .ok value) :
    (some value).filter (· ≠ .null) = v.bind fun v => pydantic.readDecimal v.1 := by
  cases v with
  | none =>
    rw [Pydantic.decimalField, hraw] at h
    cases h
  | some v =>
    rw [Pydantic.decimalField, hraw] at h
    dsimp only [Option.map_some] at h
    rcases exists_of_bind_ok h with ⟨d, hd, h⟩
    have hvalue : d = value := by
      split at h <;> cases h
      rfl
    rw [Option.bind_some]
    exact decimalOf_value (hvalue ▸ hd)

theorem optionalBoolField_value (hraw : raw.lookup key = v.map fun v => .str v.1)
    (h : pydantic.optionalBoolField raw key = .ok value) :
    (some value).filter (· ≠ .null) =
      v.map fun v => .bool (["yes", "true", "1"].contains v.1.toLower) := by
  cases v with
  | none =>
    rw [Pydantic.optionalBoolField, hraw] at h
    cases h
    rfl
  | some v =>
    rw [Pydantic.optionalBoolField, hraw] at h
    cases h
    rw [(padded_self _).pyStrip]
    rfl

/-- The object of an entry says what the entry says. -/
def Pydantic.EntrySent (pydantic : Pydantic) (fields : List String) (values : Values)
    (entry : Json) : Prop :=
  ∃ kvs, entry = .obj kvs ∧ ∀ field ∈ fields,
    (kvs.lookup (pascalToSnake field)).filter (· ≠ .null) =
      (values field).bind fun v => pydantic.sentEntry (pascalToSnake field) v.1

/-- Every entry of a list is sent, in order. -/
theorem entriesField_sent {entryOf : Record → Except String (List (String × Json))}
    {entries : List Values} {fields : List String}
    (hraw : raw.lookup key = some (entriesJson (entries.map (fieldItems fields))))
    (hsent : ∀ values declared extra,
      entryOf (fieldRecord (fieldItems fields values)) = .ok declared →
        pydantic.EntrySent fields values (.obj (declared ++ extra)))
    (h : Pydantic.entriesField entryOf raw key = .ok value) :
    ∃ dumps, value = .list dumps ∧ List.Forall₂ (pydantic.EntrySent fields) entries dumps := by
  rw [Pydantic.entriesField, hraw] at h
  dsimp only [entriesJson] at h
  rcases exists_of_bind_ok h with ⟨dumps, hdumps, hvalue⟩
  cases hvalue
  refine ⟨dumps, rfl, ?_⟩
  clear hraw h
  induction entries generalizing dumps with
  | nil =>
    cases hdumps
    exact .nil
  | cons values entries ih =>
    rw [List.map_cons, List.map_cons, List.mapM_cons] at hdumps
    rcases exists_of_bind_ok hdumps with ⟨dump, hdump, hdumps⟩
    rcases exists_of_bind_ok hdumps with ⟨rest, hrest, hdumps⟩
    cases hdumps
    refine .cons ?_ (ih _ hrest)
    rcases exists_of_bind_ok hdump with ⟨declared, hdeclared, hdump⟩
    cases hdump
    refine hsent values declared _ ?_
    rw [List.foldl_map] at hdeclared
    exact hdeclared

theorem ledgerEntry_sent (hkeeps : pydantic.KeepsStrings) {entry : Record}
    {declared : List (String × Json)} {values : Values}
    (extra : List (String × Json))
    (hentry : ∀ field ∈ ["LedgerName", "Amount", "IsDeemedPositive"],
      entry.lookup (pascalToSnake field) = (values field).map fun v => .str v.1)
    (h : pydantic.ledgerEntry entry = .ok declared) :
    pydantic.EntrySent ["LedgerName", "Amount", "IsDeemedPositive"] values
      (.obj (declared ++ extra)) := by
  rcases exists_of_bind_ok h with ⟨ledgerName, hname, h⟩
  rcases exists_of_bind_ok h with ⟨amount, hamount, h⟩
  rcases exists_of_bind_ok h with ⟨isDeemedPositive, hpositive, h⟩
  cases h
  refine ⟨_, rfl, fun field hfield => ?_⟩
  have hraw := hentry field hfield
  simp only [List.mem_cons, List.not_mem_nil, or_false] at hfield
  rcases hfield with rfl | rfl | rfl
  · have hkey : pascalToSnake "LedgerName" = "ledger_name" := by decide
    rw [hkey] at hraw ⊢
    simp only [List.cons_append, List.lookup_cons, BEq.rfl]
    exact (strField_value hkeeps hraw hname).trans (by cases values "LedgerName" <;> rfl)
  · have hkey : pascalToSnake "Amount" = "amount" := by decide
    rw [hkey] at hraw ⊢
    simp only [List.cons_append, List.lookup_cons, String.reduceBEq, BEq.rfl]
    rw [sentEntry_decimal (by decide)]
    exact decimalField_value hraw hamount
  · have hkey : pascalToSnake "IsDeemedPositive" = "is_deemed_positive" := by decide
    rw [hkey] at hraw ⊢
    simp only [List.cons_append, List.lookup_cons, String.reduceBEq, BEq.rfl]
    exact (optionalBoolField_value hraw hpositive).trans
      (by cases values "IsDeemedPositive" <;> rfl)

theorem inventoryEntry_sent (hkeeps : pydantic.KeepsStrings) {entry : Record}
    {declared : List (String × Json)} {values : Values}
    (extra : List (String × Json))
    (hentry : ∀ field ∈ ["StockItemName", "ActualQty", "Rate", "Amount", "GodownName"],
      entry.lookup (pascalToSnake field) = (values field).map fun v => .str v.1)
    (h : pydantic.inventoryEntry entry = .ok declared) :
    pydantic.EntrySent ["StockItemName", "ActualQty", "Rate", "Amount", "GodownName"] values
      (.obj (declared ++ extra)) := by
  rcases exists_of_bind_ok h with ⟨stockItemName, hitem, h⟩
  rcases exists_of_bind_ok h with ⟨actualQty, hqty, h⟩
  rcases exists_of_bind_ok h with ⟨rate, hrate, h⟩
  rcases exists_of_bind_ok h with ⟨amount, hamount, h⟩
  rcases exists_of_bind_ok h with ⟨godownName, hgodown, h⟩
  cases h
  refine ⟨_, rfl, fun field hfield => ?_⟩
  have hraw := hentry field hfield
  simp only [List.mem_cons, List.not_mem_nil, or_false] at hfield
  rcases hfield with rfl | rfl | rfl | rfl | rfl
  · -- the name of the item is text, and so is the godown
    have hkey : pascalToSnake "StockItemName" = "stock_item_name" := by decide
    rw [hkey] at hraw ⊢
    simp only [List.cons_append, List.lookup_cons, BEq.rfl]
    exact (strField_value hkeeps hraw hitem).trans (by cases values "StockItemName" <;> rfl)
  · -- quantity, rate and amount are numbers
    have hkey : pascalToSnake "ActualQty" = "actual_qty" := by decide
    rw [hkey] at hraw ⊢
    simp only [List.cons_append, List.lookup_cons, String.reduceBEq, BEq.rfl]
    rw [sentEntry_decimal (by decide)]
    exact optionalDecimalField_value hraw hqty
  · have hkey : pascalToSnake "Rate" = "rate" := by decide
    rw [hkey] at hraw ⊢
    simp only [List.cons_append, List.lookup_cons, String.reduceBEq, BEq.rfl]
    rw [sentEntry_decimal (by decide)]
    exact optionalDecimalField_value hraw hrate
  · have hkey : pascalToSnake "Amount" = "amount" := by decide
    rw [hkey] at hraw ⊢
    simp only [List.cons_append, List.lookup_cons, String.reduceBEq, BEq.rfl]
    rw [sentEntry_decimal (by decide)]
    exact optionalDecimalField_value hraw hamount
  · have hkey : pascalToSnake "GodownName" = "godown_name" := by decide
    rw [hkey] at hraw ⊢
    simp only [List.cons_append, List.lookup_cons, String.reduceBEq, BEq.rfl]
    exact (optionalStrField_value hkeeps hraw hgodown).trans (by cases values "GodownName" <;> rfl)

theorem tallyVoucher_entries (h : pydantic.tallyVoucher raw = .ok model) :
    (∃ value, Pydantic.entriesField pydantic.ledgerEntry raw "ledger_entries" = .ok value ∧
      model.dump.lookup "ledger_entries" = some value) ∧
    ∃ value, Pydantic.entriesField pydantic.inventoryEntry raw "inventory_entries" = .ok value ∧
      model.dump.lookup "inventory_entries" = some value := by
  rcases exists_of_bind_ok h with ⟨guid, -, h⟩
  rcases exists_of_bind_ok h with ⟨voucherType, -, h⟩
  rcases exists_of_bind_ok h with ⟨voucherNumber, -, h⟩
  rcases exists_of_bind_ok h with ⟨date, -, h⟩
  rcases exists_of_bind_ok h with ⟨partyLedgerName, -, h⟩
  rcases exists_of_bind_ok h with ⟨narration, -, h⟩
  rcases exists_of_bind_ok h with ⟨alterId, -, h⟩
  rcases exists_of_bind_ok h with ⟨ledgerEntries, hledger, h⟩
  rcases exists_of_bind_ok h with ⟨inventoryEntries, hinventory, h⟩
  cases h
  refine ⟨⟨ledgerEntries, hledger, ?_⟩, inventoryEntries, hinventory, Finmap.lookup_insert _⟩
  rw [Finmap.lookup_insert_of_ne _ (by decide), Finmap.lookup_insert]

end validate

/-! ## The shipped configuration -/

/-- The mapping fits the entity: its keys are what the parser gives the records,
no two fields are mapped to one, and the natural key is mapped. -/
structure Fits (spec : EntitySpec) (me : MappingEntry) : Prop where
  keys : DistinctKeys spec
  frappeFields : (me.fieldMap.map Prod.snd).Nodup
  fed : ∀ field ∈ me.fieldMap, (∃ fetched ∈ spec.fetchFields, pascalToSnake fetched = field.1) ∨
    (spec.ledgerEntriesFields.isSome ∧ field.1 = "ledger_entries") ∨
    (spec.inventoryEntriesFields.isSome ∧ field.1 = "inventory_entries")
  mapsKey : (me.fieldMap.lookup spec.naturalKeyField).isSome
  /-- Only vouchers are dated. -/
  undated : ¬ spec.isVoucher → ∀ field ∈ spec.fetchFields, pascalToSnake field ≠ "date"

/-- `Fits`, decided. -/
def checkFits (spec : EntitySpec) (me : MappingEntry) : Bool :=
  let keys := spec.fetchFields.map pascalToSnake
  let reserved := ["voucher_type", "ledger_entries", "inventory_entries"]
  decide keys.Nodup && keys.all (fun key => key ∉ reserved) &&
    spec.ledgerEntriesFields.all (fun fields => (fields.map pascalToSnake).Nodup) &&
    spec.inventoryEntriesFields.all (fun fields => (fields.map pascalToSnake).Nodup) &&
    decide (me.fieldMap.map Prod.snd).Nodup &&
    me.fieldMap.all (fun field => field.1 ∈ keys ||
      (spec.ledgerEntriesFields.isSome && field.1 == "ledger_entries") ||
      (spec.inventoryEntriesFields.isSome && field.1 == "inventory_entries")) &&
    (me.fieldMap.lookup spec.naturalKeyField).isSome &&
    (spec.isVoucher || keys.all (· != "date"))

theorem fits_of_check {spec : EntitySpec} {me : MappingEntry} (h : checkFits spec me = true) :
    Fits spec me := by
  simp only [checkFits, Bool.and_eq_true, decide_eq_true_eq, List.all_eq_true, List.mem_map,
    Option.all_eq_true, Bool.or_eq_true, beq_iff_eq, bne_iff_ne] at h
  obtain ⟨⟨⟨⟨⟨⟨⟨hkeys, hreserved⟩, hledger⟩, hinventory⟩, hfields⟩, hfed⟩, hkey⟩, hdate⟩ := h
  refine ⟨⟨hkeys, hledger, hinventory, fun _ field hfield => hreserved _ ⟨field, hfield, rfl⟩⟩,
    hfields, fun field hfield => ?_, hkey,
    fun hv field hfield => hdate.resolve_left hv _ ⟨field, hfield, rfl⟩⟩
  rcases hfed field hfield with (hfetched | hledger) | hinventory
  · exact .inl hfetched
  · exact .inr (.inl hledger)
  · exact .inr (.inr hinventory)

/-- A library that takes no value. -/
def Pydantic.refusing : Pydantic :=
  ⟨fun _ => none, fun _ => none, fun _ => none, fun _ => none, fun _ => none⟩

/-- The shipped specs apart from their model classes. -/
def shape : List EntitySpec := Pydantic.refusing.registry.specs

variable {pydantic : Pydantic} {spec : EntitySpec} {me : MappingEntry}

theorem masters_model : ∀ spec ∈ pydantic.masters,
    spec.kind = .master ∧ spec.pydanticModel = pydantic.tallyMaster := by
  simp [Pydantic.masters, Pydantic.master, Pydantic.group]

theorem vouchers_model : ∀ spec ∈ pydantic.vouchers,
    spec.kind = .voucher ∧ spec.pydanticModel = pydantic.tallyVoucher := by
  simp [Pydantic.vouchers, Pydantic.receiptVoucher, Pydantic.voucher]

theorem entryFields_of_shipped (hspec : spec ∈ pydantic.registry.specs) {fields : List String} :
    (spec.ledgerEntriesFields = some fields →
      spec ∈ pydantic.vouchers ∧ fields = ["LedgerName", "Amount", "IsDeemedPositive"]) ∧
    (spec.inventoryEntriesFields = some fields → spec ∈ pydantic.vouchers ∧
      fields = ["StockItemName", "ActualQty", "Rate", "Amount", "GodownName"]) := by
  rcases List.mem_append.mp hspec with hmaster | hvoucher
  · have hnone : ∀ spec ∈ pydantic.masters,
        spec.ledgerEntriesFields = none ∧ spec.inventoryEntriesFields = none := by
      simp [Pydantic.masters, Pydantic.master, Pydantic.group]
    rw [(hnone spec hmaster).1, (hnone spec hmaster).2]
    exact ⟨fun h => (by cases h), fun h => (by cases h)⟩
  · have hfields : ∀ spec ∈ pydantic.vouchers,
        spec.ledgerEntriesFields = some ["LedgerName", "Amount", "IsDeemedPositive"] ∧
        (spec.inventoryEntriesFields = none ∨ spec.inventoryEntriesFields =
          some ["StockItemName", "ActualQty", "Rate", "Amount", "GodownName"]) := by
      simp [Pydantic.vouchers, Pydantic.receiptVoucher, Pydantic.voucher]
    obtain ⟨hledger, hinventory⟩ := hfields spec hvoucher
    refine ⟨fun h => ⟨hvoucher, ?_⟩, fun h => ⟨hvoucher, ?_⟩⟩
    · exact Option.some.inj (h.symm.trans hledger)
    · rcases hinventory with hinventory | hinventory
      · rw [hinventory] at h
        cases h
      · exact Option.some.inj (h.symm.trans hinventory)

theorem exists_shape (hspec : spec ∈ pydantic.registry.specs) :
    ∃ spec₀ ∈ shape, spec = { spec₀ with pydanticModel := spec.pydanticModel } := by
  have hmasters : pydantic.masters = Pydantic.refusing.masters.map fun spec =>
      { spec with pydanticModel := pydantic.tallyMaster } := rfl
  have hvouchers : pydantic.vouchers = Pydantic.refusing.vouchers.map fun spec =>
      { spec with pydanticModel := pydantic.tallyVoucher } := rfl
  rcases List.mem_append.mp hspec with hspec | hspec
  · rw [hmasters] at hspec
    rcases List.mem_map.mp hspec with ⟨spec₀, hspec₀, rfl⟩
    exact ⟨spec₀, List.mem_append_left _ hspec₀, rfl⟩
  · rw [hvouchers] at hspec
    rcases List.mem_map.mp hspec with ⟨spec₀, hspec₀, rfl⟩
    exact ⟨spec₀, List.mem_append_right _ hspec₀, rfl⟩

theorem shape_checked : shape.all (fun spec =>
    (shippedMapping.entry spec.name).any fun me => checkFits spec me) = true := by
  decide +kernel

theorem shape_doctypes : (shape.map fun spec =>
    (shippedMapping.entry spec.name).map (·.frappeDoctype)).Nodup := by
  decide +kernel

theorem fits_of_shipped (hspec : spec ∈ pydantic.registry.specs)
    (hme : shippedMapping.entry spec.name = some me) : Fits spec me := by
  obtain ⟨spec₀, hspec₀, heq⟩ := exists_shape hspec
  have hcheck := List.all_eq_true.mp shape_checked spec₀ hspec₀
  have hname : shippedMapping.entry spec₀.name = some me := by
    rw [heq] at hme
    exact hme
  rw [hname] at hcheck
  rw [heq]
  exact fits_of_check hcheck

theorem entry_of_shipped (hspec : spec ∈ pydantic.registry.specs) :
    ∃ me, shippedMapping.entry spec.name = some me := by
  obtain ⟨spec₀, hspec₀, heq⟩ := exists_shape hspec
  obtain ⟨me, hme, -⟩ := (Option.any_eq_true ..).mp (List.all_eq_true.mp shape_checked spec₀ hspec₀)
  exact ⟨me, by rw [heq]; exact hme⟩

/-- Every shipped entity owns its doctype and its natural key's field. -/
theorem ownsKey_of_shipped {δ : Type} {engine : SyncEngine δ}
    (hregistry : engine.registry = pydantic.registry) (hmapping : engine.mapping = shippedMapping)
    (hspec : spec ∈ pydantic.registry.specs) (hme : shippedMapping.entry spec.name = some me) :
    engine.OwnsKey spec me where
  hspec := hregistry ▸ hspec
  hme := hmapping ▸ hme
  mapsKey := by
    -- no two fields are mapped to the field of the key
    have hfits := fits_of_shipped hspec hme
    obtain ⟨frappeField, hlookup⟩ := Option.isSome_iff_exists.mp hfits.mapsKey
    have hkey : me.keyField spec.naturalKeyField = frappeField := by
      rw [MappingEntry.keyField, hlookup, Option.getD_some]
    have hmem : (spec.naturalKeyField, frappeField) ∈ me.fieldMap := by
      obtain ⟨before, after, heq, -⟩ := List.lookup_eq_some_iff.mp hlookup
      exact heq ▸ List.mem_append_right _ List.mem_cons_self
    rw [← hkey] at hmem
    refine ⟨hmem, fun field hfield heq => ?_⟩
    exact congrArg Prod.fst (List.inj_on_of_nodup_map hfits.frappeFields hfield hmem heq)
  owned := by
    intro spec' hspec' me' hme' hdoctype
    rw [hregistry] at hspec'
    rw [hmapping] at hme'
    -- no two entities are mapped to one doctype
    obtain ⟨spec₀, hspec₀, heq⟩ := exists_shape hspec
    obtain ⟨spec₀', hspec₀', heq'⟩ := exists_shape hspec'
    have hname : spec₀.name = spec.name := by rw [heq]
    have hname' : spec₀'.name = spec'.name := by rw [heq']
    have hshape : spec₀' = spec₀ := by
      refine List.inj_on_of_nodup_map shape_doctypes hspec₀' hspec₀ ?_
      rw [hname, hname', hme, hme', Option.map_some, Option.map_some, hdoctype]
    refine pydantic.registry.eq_of_name hspec' hspec ?_
    rw [← hname, ← hname', hshape]

/-! ## Rows and payloads -/

section row
variable {data : RowData spec} {raw : Record} {model : Model} {frappeField : String}

/-- The fetched fields of a row in its payload. -/
theorem lookup_payload_field (hkeeps : pydantic.KeepsStrings)
    (hspec : spec ∈ pydantic.registry.specs)
    (hme : shippedMapping.entry spec.name = some me) (hraw : Represents spec data raw)
    (hmodel : toModel raw spec = .ok model) {field : String} (hfield : field ∈ spec.fetchFields)
    (hmapped : (pascalToSnake field, frappeField) ∈ me.fieldMap) :
    (me.apply model.dump).lookup frappeField =
      (data.values field).bind fun v => pydantic.sent (pascalToSnake field) v.1 := by
  have hfits := fits_of_shipped hspec hme
  have hlookup := hraw.field field hfield
  rw [MappingEntry.lookup_apply hfits.frappeFields hmapped]
  rw [toModel_ok] at hmodel
  rcases List.mem_append.mp hspec with hmaster | hvoucher
  · rw [(masters_model spec hmaster).2] at hmodel
    refine tallyMaster_sent hkeeps (hfits.undated ?_ field hfield) hlookup hmodel
    simp [EntitySpec.isVoucher, (masters_model spec hmaster).1]
  · have hkind := vouchers_model spec hvoucher
    rw [hkind.2] at hmodel
    refine tallyVoucher_sent hkeeps (hfits.keys.reserved ?_ field hfield) hlookup hmodel
    simp [EntitySpec.isVoucher, hkind.1]

/-- The ledger entries of a row in its payload. -/
theorem lookup_payload_ledger (hkeeps : pydantic.KeepsStrings)
    (hspec : spec ∈ pydantic.registry.specs)
    (hme : shippedMapping.entry spec.name = some me) (hraw : Represents spec data raw)
    (hmodel : toModel raw spec = .ok model) {fields : List String}
    (hfields : spec.ledgerEntriesFields = some fields)
    (hmapped : ("ledger_entries", frappeField) ∈ me.fieldMap) :
    ∃ entries, (me.apply model.dump).lookup frappeField = some (.list entries) ∧
      List.Forall₂ (pydantic.EntrySent fields) data.ledgerEntries entries := by
  have hfits := fits_of_shipped hspec hme
  obtain ⟨hvoucher, rfl⟩ := (entryFields_of_shipped hspec).1 hfields
  have hkind := vouchers_model spec hvoucher
  rw [toModel_ok, hkind.2] at hmodel
  obtain ⟨⟨value, hvalue, hlookup⟩, -⟩ := tallyVoucher_entries hmodel
  have hentries := hraw.ledgerEntries (by simp [EntitySpec.isVoucher, hkind.1])
  rw [hfields] at hentries
  obtain ⟨entries, rfl, hsent⟩ := entriesField_sent hentries (fun values declared extra h =>
    ledgerEntry_sent hkeeps extra (fun field hfield =>
      fieldRecord_lookup (hfits.keys.ledger _ hfields) hfield) h) hvalue
  refine ⟨entries, ?_, hsent⟩
  rw [MappingEntry.lookup_apply hfits.frappeFields hmapped, hlookup]
  rfl

/-- The inventory entries of a row in its payload. -/
theorem lookup_payload_inventory (hkeeps : pydantic.KeepsStrings)
    (hspec : spec ∈ pydantic.registry.specs)
    (hme : shippedMapping.entry spec.name = some me) (hraw : Represents spec data raw)
    (hmodel : toModel raw spec = .ok model) {fields : List String}
    (hfields : spec.inventoryEntriesFields = some fields)
    (hmapped : ("inventory_entries", frappeField) ∈ me.fieldMap) :
    ∃ entries, (me.apply model.dump).lookup frappeField = some (.list entries) ∧
      List.Forall₂ (pydantic.EntrySent fields) data.inventoryEntries entries := by
  have hfits := fits_of_shipped hspec hme
  obtain ⟨hvoucher, rfl⟩ := (entryFields_of_shipped hspec).2 hfields
  have hkind := vouchers_model spec hvoucher
  rw [toModel_ok, hkind.2] at hmodel
  obtain ⟨-, value, hvalue, hlookup⟩ := tallyVoucher_entries hmodel
  have hentries := hraw.inventoryEntries (by simp [EntitySpec.isVoucher, hkind.1])
  rw [hfields] at hentries
  obtain ⟨entries, rfl, hsent⟩ := entriesField_sent hentries (fun values declared extra h =>
    inventoryEntry_sent hkeeps extra (fun field hfield =>
      fieldRecord_lookup (hfits.keys.inventory _ hfields) hfield) h) hvalue
  refine ⟨entries, ?_, hsent⟩
  rw [MappingEntry.lookup_apply hfits.frappeFields hmapped, hlookup]
  rfl

/-- The payload says what the row says: each mapped field that is fetched
arrives under its Frappe field, text as text, the alter id as a number, the date
in ISO format, and a missing one not at all; the mapped entry lists arrive entry
by entry. -/
structure PayloadOf (pydantic : Pydantic) (me : MappingEntry) (data : RowData spec)
    (payload : Dict) : Prop where
  field : ∀ field ∈ spec.fetchFields, ∀ frappeField,
    (pascalToSnake field, frappeField) ∈ me.fieldMap →
      payload.lookup frappeField =
        (data.values field).bind fun v => pydantic.sent (pascalToSnake field) v.1
  ledger : ∀ fields, spec.ledgerEntriesFields = some fields → ∀ frappeField,
    ("ledger_entries", frappeField) ∈ me.fieldMap → ∃ entries,
      payload.lookup frappeField = some (.list entries) ∧
        List.Forall₂ (pydantic.EntrySent fields) data.ledgerEntries entries
  inventory : ∀ fields, spec.inventoryEntriesFields = some fields → ∀ frappeField,
    ("inventory_entries", frappeField) ∈ me.fieldMap → ∃ entries,
      payload.lookup frappeField = some (.list entries) ∧
        List.Forall₂ (pydantic.EntrySent fields) data.inventoryEntries entries
  /-- Nothing else is sent. -/
  only : ∀ frappeField, (payload.lookup frappeField).isSome →
    (∃ field ∈ spec.fetchFields, (pascalToSnake field, frappeField) ∈ me.fieldMap) ∨
    (spec.ledgerEntriesFields.isSome ∧ ("ledger_entries", frappeField) ∈ me.fieldMap) ∨
    (spec.inventoryEntriesFields.isSome ∧ ("inventory_entries", frappeField) ∈ me.fieldMap)

theorem payloadOf_of_represents (hkeeps : pydantic.KeepsStrings)
    (hspec : spec ∈ pydantic.registry.specs)
    (hme : shippedMapping.entry spec.name = some me) (hraw : Represents spec data raw)
    (hmodel : toModel raw spec = .ok model) :
    PayloadOf pydantic me data (me.apply model.dump) where
  field field hfield frappeField hmapped :=
    lookup_payload_field hkeeps hspec hme hraw hmodel hfield hmapped
  ledger fields hfields frappeField hmapped :=
    lookup_payload_ledger hkeeps hspec hme hraw hmodel hfields hmapped
  inventory fields hfields frappeField hmapped :=
    lookup_payload_inventory hkeeps hspec hme hraw hmodel hfields hmapped
  only frappeField hsome := by
    obtain ⟨⟨tallyField, _⟩, hmapped, rfl⟩ :=
      List.mem_map.mp (MappingEntry.mem_of_lookup_apply hsome)
    rcases (fits_of_shipped hspec hme).fed _ hmapped with
      ⟨field, hfield, hkey⟩ | ⟨hledger, hkey⟩ | ⟨hinventory, hkey⟩
    · exact .inl ⟨field, hfield, hkey ▸ hmapped⟩
    · exact .inr (.inl ⟨hledger, hkey ▸ hmapped⟩)
    · exact .inr (.inr ⟨hinventory, hkey ▸ hmapped⟩)

/-- What the parser, the model and the mapping make of a page of Tally's
response, whatever its layout, for every entity as it is shipped: one record for
each row, and where the model takes it, its payload says what the row says.
`pydantic` takes a stripped string as it is. -/
theorem payloads_of_page {fromstring : Bytes → Except String Element} {xmlBytes : Bytes}
    {root : Element} {rows : List (RowData spec)} (hkeeps : pydantic.KeepsStrings)
    (hspec : spec ∈ pydantic.registry.specs) (hme : shippedMapping.entry spec.name = some me)
    (hroot : fromstring (scrubControlChars 0 xmlBytes) = .ok root)
    (h : RendersRows spec root.children rows) :
    ∃ records, parseCollectionResponse fromstring xmlBytes spec = .ok records ∧
      List.Forall₂ (fun data raw => ∀ model, toModel raw spec = .ok model →
        PayloadOf pydantic me data (me.apply model.dump)) rows records := by
  refine ⟨_, ?_, (rows_below (fits_of_shipped hspec hme).keys h).imp fun data raw hraw model hmodel =>
    payloadOf_of_represents hkeeps hspec hme hraw hmodel⟩
  simp only [parseCollectionResponse, hroot]
  cases root
  rfl

/-! ## Rows and documents -/

/-- After a history of edits and incremental cycles from an empty site, the last
of which could fetch everything, every row with a usable key has one document,
and it says what the row says. -/
theorem document_of_row {δ : Type} [DecidableEq δ] {engine : SyncEngine δ} {w w' : World δ}
    (hkeeps : pydantic.KeepsStrings) (hregistry : engine.registry = pydantic.registry)
    (hmapping : engine.mapping = shippedMapping) (hinj : Function.Injective engine.contentHash)
    (h : engine.Incremental w)
    (hrun : (engine.prog .incrementalSync).Runs (engine.calm engine.snapshots) w (.ok ()) w')
    (hok : ∀ spec ∈ engine.registry.specs, w'.FetchedOk spec)
    (hspec : spec ∈ pydantic.registry.specs) {version : Version}
    (hversion : version ∈ w'.tally.versions spec) {row : Element}
    (hraw : version.raw = parseRow spec row) (hrow : RendersRow spec data row) {key : String}
    (hkey : spec.keyOf version.raw = some key) :
    ∃ me payload, shippedMapping.entry spec.name = some me ∧ PayloadOf pydantic me data payload ∧
      ∃ doc ∈ keyCarriers spec me w'.docs key, doc.Holds payload ∧
        ∀ other ∈ keyCarriers spec me w'.docs key, other = doc := by
  obtain ⟨me, hme⟩ := entry_of_shipped hspec
  have hown := ownsKey_of_shipped hregistry hmapping hspec hme
  have hexists := h.exists_doc hinj hown hrun hok hversion hkey
  refine ⟨me, me.payloadOf spec version.raw, hme, ?_, hexists⟩
  cases hmodel : toModel version.raw spec with
  | error exc =>
    rw [keyOf_of_error hmodel] at hkey
    cases hkey
  | ok model =>
    have hrepresents : Represents spec data version.raw :=
      hraw ▸ represents_parseRow (fits_of_shipped hspec hme).keys hrow
    have hpayload : me.payloadOf spec version.raw = me.apply model.dump := by
      simp only [MappingEntry.payloadOf, hmodel]
    exact hpayload ▸ payloadOf_of_represents hkeeps hspec hme hrepresents hmodel

end row

/-! ## A receipt -/

/-- The fields of an element stand in child elements, as they are. -/
theorem rendersFields_of_children {fields : List String} {values : Values} {elem : Element}
    (hattr : ∀ field ∈ fields, elem.get (pyUpper field) = none)
    (h : ∀ field ∈ fields, (elem.children.filter (·.tag == pyUpper field)).map Element.text =
      ((values field).map fun v => some v.1).toList) : RendersFields fields values elem where
  child field hfield value hvalue child hchild htag := by
    have hmem : child.text ∈ (elem.children.filter (·.tag == pyUpper field)).map Element.text :=
      List.mem_map_of_mem (List.mem_filter.mpr ⟨hchild, by simpa using htag⟩)
    rw [h field hfield, hvalue] at hmem
    exact ⟨value.1, List.mem_singleton.mp hmem, padded_self value⟩
  placed field hfield value hvalue := by
    have hmem : some value.1 ∈
        (elem.children.filter (·.tag == pyUpper field)).map Element.text := by
      rw [h field hfield, hvalue]
      exact List.mem_singleton_self _
    obtain ⟨child, hchild, -⟩ := List.mem_map.mp hmem
    obtain ⟨hmem, htag⟩ := List.mem_filter.mp hchild
    exact .inl ⟨child, hmem, by simpa using htag⟩
  blankChild field hfield hvalue child hchild htag := by
    have hnone : elem.children.filter (·.tag == pyUpper field) = [] := by
      have hchildren := h field hfield
      rw [hvalue] at hchildren
      exact List.map_eq_nil_iff.mp hchildren
    exact absurd (by simpa using htag) (List.filter_eq_nil_iff.mp hnone child hchild)
  blankAttr field hfield _ attr hget := by
    rw [hattr field hfield] at hget
    cases hget

/-- The texts under their field names. -/
def valuesOf (texts : List (String × Value)) : Values := fun field => List.lookup field texts

def cashLine : Element :=
  .mk "ALLLEDGERENTRIES.LIST" [] none [.mk "LEDGERNAME" [] (some "Cash") [],
    .mk "AMOUNT" [] (some "-500.00") [], .mk "ISDEEMEDPOSITIVE" [] (some "Yes") []]

def cashRow : Element :=
  .mk "VOUCHER" [] none [.mk "DATE" [] (some "20240201") [], .mk "GUID" [] (some "r-1") [],
    .mk "ALTERID" [] (some "1") [], cashLine]

def cashValues : Values := valuesOf [
  ("LedgerName", ⟨"Cash", trimmed_of_all (by decide) (by decide)⟩),
  ("Amount", ⟨"-500.00", trimmed_of_all (by decide) (by decide)⟩),
  ("IsDeemedPositive", ⟨"Yes", trimmed_of_all (by decide) (by decide)⟩)]

def cash : RowData Receipt.spec where
  values := valuesOf [
    ("Date", ⟨"20240201", trimmed_of_all (by decide) (by decide)⟩),
    ("GUID", ⟨"r-1", trimmed_of_all (by decide) (by decide)⟩),
    ("AlterID", ⟨"1", trimmed_of_all (by decide) (by decide)⟩)]
  name := none
  ledgerEntries := [cashValues]
  inventoryEntries := []
  fetchedName := by decide
  ledgerNonempty := by
    rintro _ ⟨⟩
    decide
  inventoryNonempty := by
    rintro _ ⟨⟩

theorem rendersRow_cash : RendersRow Receipt.spec cash cashRow where
  tag := by decide
  fields := rendersFields_of_children (by decide) (by decide)
  name := by
    rintro _ ⟨⟩
  unfetched := fun _ h => h
  ledger := by
    rintro - _ ⟨⟩
    refine .other (by decide) (.other (by decide) (.other (by decide) (.entry rfl ?_ .nil)))
    exact rendersFields_of_children (by decide) (by decide)
  inventory := by
    rintro - _ ⟨⟩
  noRow := by decide

theorem receipt_mem_shipped : Receipt.spec ∈ Receipt.pydantic.registry.specs := by
  simp [Pydantic.registry, Pydantic.vouchers, Receipt.spec]

theorem entry_receipt : shippedMapping.entry Receipt.spec.name = some Receipt.mapping := rfl

def cashPage : Element := .mk "ENVELOPE" [] none [cashRow]

theorem rendersRows_cash : RendersRows Receipt.spec cashPage.children [cash] :=
  .row rendersRow_cash .nil

/-- Between the shipped configuration and a Tally that lists the receipt. -/
def cashEngine : SyncEngine Dict :=
  { Receipt.engine [] with
    registry := Receipt.pydantic.registry
    mapping := shippedMapping
    ext :=
      { groupExternal [] with
        fromstring := fun bytes =>
          if bytes == ascii "<ENVELOPE/>" then .ok (.mk "ENVELOPE" [] none []) else .ok cashPage } }

/-- A receipt with a ledger entry on its way to Frappe. -/
theorem payloads_of_page_cash :
    ∃ raw model, parseCollectionResponse cashEngine.ext.fromstring (ascii "<VOUCHER/>")
        Receipt.spec = .ok [raw] ∧
      toModel raw Receipt.spec = .ok model ∧
      PayloadOf Receipt.pydantic Receipt.mapping cash (Receipt.mapping.apply model.dump) := by
  have hmodel : (toModel (parseRow Receipt.spec cashRow) Receipt.spec).toOption.isSome = true := by
    decide +kernel
  cases hok : toModel (parseRow Receipt.spec cashRow) Receipt.spec with
  | error exc =>
    rw [hok] at hmodel
    cases hmodel
  | ok model =>
    have hpage : cashEngine.ext.fromstring (scrubControlChars 0 (ascii "<VOUCHER/>")) =
        .ok cashPage := rfl
    obtain ⟨records, hparse, hall⟩ :=
      payloads_of_page keepsStrings_groupPydantic receipt_mem_shipped entry_receipt hpage
      rendersRows_cash
    cases hparse
    obtain ⟨hpayload, -⟩ := List.forall₂_cons.mp hall
    exact ⟨_, model, rfl, hok, hpayload model hok⟩

def cashVersion : Version where
  entityName := "receipt_voucher"
  alterId := 1
  date := 738917
  raw := parseRow Receipt.spec cashRow

def cashCompany : Company := ⟨[cashVersion], 1⟩

/-- The choices for an entity of which Tally has nothing. -/
def nothingListed : List Choice :=
  [.commit, .inMemory, .tally (.response 200 (ascii "<ENVELOPE/>")), .inMemory, .clock 0, .clock 0,
    .commit, .inMemory]

/-- The choices for the receipt. -/
def receiptListed : List Choice :=
  [.commit, .inMemory, .tally (.response 200 (ascii "<VOUCHER/>")), .inMemory, .commit,
    .serve "" [], .commit, .serve "REC-1" [], .inMemory, .clock 0, .commit, .clock 0, .clock 0,
    .commit, .inMemory]

/-- An incremental cycle over the shipped entities: sixteen come before the
receipts. -/
def cashChoices : List Choice :=
  (List.replicate 16 nothingListed).flatten ++ receiptListed ++
    (List.replicate 8 nothingListed).flatten

theorem exists_cash_cycle :
    ∃ w' : World Dict, (cashEngine.prog .incrementalSync).Runs
        (cashEngine.calm cashEngine.snapshots) (groupWorld cashCompany) (.ok ()) w' ∧
      w'.tally = cashCompany ∧ ∀ spec ∈ cashEngine.registry.specs, w'.FetchedOk spec := by
  have hplay : (play cashEngine.calmExec cashChoices (cashEngine.prog .incrementalSync)
      (groupWorld cashCompany)).any (fun x => x.1.toOption.isSome ∧ x.2.tally = cashCompany ∧
        ∀ spec ∈ cashEngine.registry.specs,
          (x.2.db.syncState spec.name).any (·.status == "ok")) = true := by
    decide +kernel
  obtain ⟨⟨r, w'⟩, hplays, hfinal⟩ := (Option.any_eq_true _ _).mp hplay
  obtain ⟨hreturned, hcompany, hok⟩ := of_decide_eq_true hfinal
  obtain ⟨value, hvalue⟩ : ∃ value, r = .ok value := by
    cases r with
    | error exc => cases hreturned
    | ok value => exact ⟨value, rfl⟩
  subst hvalue
  refine ⟨w', runs_of_play cashEngine.calm_of_calmExec hplays, hcompany, fun spec hspec => ?_⟩
  obtain ⟨row, hrow, hstatus⟩ := (Option.any_eq_true _ _).mp (hok spec hspec)
  exact ⟨row, hrow, by simpa using hstatus⟩

theorem document_of_row_cash :
    ∃ w' : World Dict, w'.tally = cashCompany ∧ ∃ payload,
      PayloadOf Receipt.pydantic Receipt.mapping cash payload ∧
      ∃ doc ∈ keyCarriers Receipt.spec Receipt.mapping w'.docs "r-1", doc.Holds payload := by
  obtain ⟨w', hrun, hcompany, hfetched⟩ := exists_cash_cycle
  have hversion : cashVersion ∈ w'.tally.versions Receipt.spec := by
    rw [hcompany]
    decide
  have hregistry : cashEngine.registry = Receipt.pydantic.registry := rfl
  have hmapping : cashEngine.mapping = shippedMapping := rfl
  have hraw : cashVersion.raw = parseRow Receipt.spec cashRow := rfl
  have hinj : Function.Injective cashEngine.contentHash := fun _ _ h => h
  have hstart : cashEngine.Incremental (groupWorld cashCompany) :=
    .start ⟨⟨rfl, rfl, rfl, rfl⟩, rfl⟩ (by decide +kernel)
  have hkey : Receipt.spec.keyOf cashVersion.raw = some "r-1" := by decide +kernel
  -- the world is given, so that no run is evaluated to find it
  have hdocument := @document_of_row Receipt.pydantic Receipt.spec cash Dict _ cashEngine
    (groupWorld cashCompany) w' keepsStrings_groupPydantic hregistry hmapping hinj hstart hrun hfetched
      receipt_mem_shipped
    cashVersion hversion cashRow hraw rendersRow_cash "r-1" hkey
  obtain ⟨me, payload, hme, hpayload, doc, hdoc, hholds, -⟩ := hdocument
  rw [entry_receipt] at hme
  cases hme
  exact ⟨w', hcompany, payload, hpayload, doc, hdoc, hholds⟩

end TallyConnector
