import TallyConnector.Frappe.Client
import TallyConnector.Frappe.Mapping
import TallyConnector.Sync.StateStore

/-! # Duplicate detection

`frappe/dedup.py`.
-/

namespace TallyConnector

open Effects

variable {δ : Type}

/-- `matches[0]["name"]` for a truthy `matches`. -/
def firstName : Json → Except Exn Json
  | .list (.obj kvs :: _) =>
      match kvs.lookup "name" with
      | some name => .ok name
      | none => .error ⟨.keyError, "'name'"⟩
  | .list (.list _ :: _) =>
      .error ⟨.typeError, "list indices must be integers or slices, not str"⟩
  | .list (.str _ :: _) => .error ⟨.typeError, "string indices must be integers, not 'str'"⟩
  | .list (_ :: _) => .error ⟨.typeError, "object is not subscriptable"⟩
  | .list [] => .error ⟨.indexError, "list index out of range"⟩
  | .str _ => .error ⟨.typeError, "string indices must be integers, not 'str'"⟩
  | .obj _ => .error ⟨.keyError, "0"⟩
  | _ => .error ⟨.typeError, "object is not subscriptable"⟩

/-- `find_existing(store, client, mapping_entry, natural_key_field,
natural_key_value)`; `null` stands for `None`. -/
def findExisting (store : StateStore δ) (client : FrappeClient δ) (me : MappingEntry)
    (naturalKeyField naturalKeyValue : String) : Py δ Json := do
  let key : CacheKey := ⟨me.entityName, naturalKeyValue, client.baseUrl⟩
  let cached ← store.getCachedFrappeName key
  match nonEmpty cached with
  | some name => pure (.str name)
  | none => do
      let found ← client.get me.frappeDoctype
        [(me.keyField naturalKeyField, .str naturalKeyValue)] ["name"]
      if found.truthy then do
        let frappeName ← Prog.ofExcept (firstName found)
        store.upsertCache key frappeName me.frappeDoctype none
        pure frappeName
      else pure .null

end TallyConnector
