import TallyConnector.Models.EntitySpec

/-! # The Tally-to-Frappe mapping

`frappe/mapping.py`.
-/

namespace TallyConnector

structure MappingEntry where
  entityName : String
  frappeDoctype : String
  /-- `{tally_field: frappe_field}` in file order. -/
  fieldMap : List (String × String)
  /-- The keys of a dictionary are distinct. -/
  nodup : (fieldMap.map Prod.fst).Nodup

/-- What `load_mapping` returns: every entry carries the name it is stored
under. -/
structure Mapping where
  entry : String → Option MappingEntry
  named : ∀ name me, entry name = some me → me.entityName = name

namespace MappingEntry

/-- One step of the comprehension in `apply`. -/
def applyField (modelDict : Dict) (out : Dict) (field : String × String) : Dict :=
  match modelDict.lookup field.1 with
  | some value => if value = .null then out else out.insert field.2 value
  | none => out

/-- `MappingEntry.apply(model_dict)`: absent and `None` values are dropped. -/
def apply (me : MappingEntry) (modelDict : Dict) : Dict :=
  me.fieldMap.foldl (applyField modelDict) ∅

/-- `field_map.get(natural_key_field, natural_key_field)` -/
def keyField (me : MappingEntry) (naturalKeyField : String) : String :=
  (me.fieldMap.lookup naturalKeyField).getD naturalKeyField

variable {me : MappingEntry} {modelDict out : Dict} {fields : List (String × String)}
variable {tallyField frappeField : String} {value : Json}

theorem lookup_applyField_of_ne {field : String × String} (h : field.2 ≠ frappeField) :
    (applyField modelDict out field).lookup frappeField = out.lookup frappeField := by
  unfold applyField
  split
  · split
    · rfl
    · exact Finmap.lookup_insert_of_ne _ h.symm
  · rfl

theorem lookup_foldl_of_forall_ne (h : ∀ field ∈ fields, field.2 ≠ frappeField) :
    (fields.foldl (applyField modelDict) out).lookup frappeField = out.lookup frappeField := by
  induction fields generalizing out with
  | nil => rfl
  | cons field fields ih =>
      rw [List.foldl_cons, ih fun field hfield => h field (List.mem_cons_of_mem _ hfield)]
      exact lookup_applyField_of_ne (h field List.mem_cons_self)

/-- A Frappe field only one Tally field is mapped to gets that field's value. -/
theorem lookup_foldl_of_mem (hmem : (tallyField, frappeField) ∈ fields)
    (honly : ∀ field ∈ fields, field.2 = frappeField → field.1 = tallyField)
    (hvalue : modelDict.lookup tallyField = some value) (hne : value ≠ .null) :
    (fields.foldl (applyField modelDict) out).lookup frappeField = some value := by
  induction fields generalizing out with
  | nil => cases hmem
  | cons field fields ih =>
      rw [List.foldl_cons]
      have honly' : ∀ field ∈ fields, field.2 = frappeField → field.1 = tallyField :=
        fun field hfield => honly field (List.mem_cons_of_mem _ hfield)
      by_cases hrest : (tallyField, frappeField) ∈ fields
      · exact ih hrest honly'
      · -- the last occurrence is the head
        obtain rfl : (tallyField, frappeField) = field := by
          rcases List.mem_cons.mp hmem with heq | hmem
          · exact heq
          · exact absurd hmem hrest
        rw [lookup_foldl_of_forall_ne]
        · simp [applyField, hvalue, hne]
        · intro field hfield heq
          have htally := honly' field hfield heq
          exact hrest (by rw [← htally, ← heq]; exact hfield)

/-- The natural key is mapped, and no other field to its Frappe field. -/
structure MapsKey (me : MappingEntry) (naturalKeyField : String) : Prop where
  mapped : (naturalKeyField, me.keyField naturalKeyField) ∈ me.fieldMap
  only : ∀ field ∈ me.fieldMap, field.2 = me.keyField naturalKeyField →
    field.1 = naturalKeyField

theorem MapsKey.lookup_apply {naturalKeyField key : String} (h : me.MapsKey naturalKeyField)
    (hkey : modelDict.lookup naturalKeyField = some (.str key)) :
    (me.apply modelDict).lookup (me.keyField naturalKeyField) = some (.str key) :=
  lookup_foldl_of_mem h.mapped h.only hkey (by simp)

end MappingEntry

end TallyConnector
