import Mathlib.Data.List.Sort
import Mathlib.Data.String.Basic
import TallyConnector.Python.JsonText

/-! # Sorted keys

`json.dumps` with `sort_keys=True`: the objects of a value, at any depth, are
written with their keys in order. The text determines the value up to the
order of keys (`Json.dumps_sortKeys_iff`).
-/

namespace TallyConnector

namespace Json

/-- The order of `sorted(dct.items())` while the keys are distinct. -/
def KeyLe (kv kv' : String × Json) : Prop := kv.1 ≤ kv'.1

instance : DecidableRel KeyLe := fun kv kv' => inferInstanceAs (Decidable (kv.1 ≤ kv'.1))

instance : Std.Total KeyLe := ⟨fun kv kv' => le_total kv.1 kv'.1⟩

instance : IsTrans (String × Json) KeyLe := ⟨fun _ _ _ => le_trans⟩

mutual

/-- The value as `sort_keys=True` writes it. -/
def sortKeys : Json → Json
  | .list xs => .list (sortItems xs)
  | .obj kvs => .obj (sortMembers kvs)
  | value => value

def sortItems : List Json → List Json
  | [] => []
  | x :: xs => sortKeys x :: sortItems xs

def sortMembers : List (String × Json) → List (String × Json)
  | [] => []
  | (key, x) :: kvs => (sortMembers kvs).orderedInsert KeyLe (key, sortKeys x)

end

theorem sortItems_eq (xs : List Json) : sortItems xs = xs.map sortKeys := by
  induction xs with
  | nil => rfl
  | cons x xs ih => rw [sortItems, ih, List.map_cons]

theorem sortMembers_eq (kvs : List (String × Json)) :
    sortMembers kvs = (kvs.map fun kv => (kv.1, sortKeys kv.2)).insertionSort KeyLe := by
  induction kvs with
  | nil => rfl
  | cons kv kvs ih => rw [sortMembers, ih, List.map_cons, List.insertionSort_cons]

theorem perm_sortMembers (kvs : List (String × Json)) :
    (sortMembers kvs).Perm (kvs.map fun kv => (kv.1, sortKeys kv.2)) := by
  rw [sortMembers_eq]
  exact List.perm_insertionSort KeyLe _

theorem mem_sortMembers {kvs : List (String × Json)} {key : String} {value : Json} :
    (key, value) ∈ sortMembers kvs ↔ ∃ x, (key, x) ∈ kvs ∧ sortKeys x = value := by
  rw [(perm_sortMembers kvs).mem_iff, List.mem_map]
  constructor
  · rintro ⟨kv, hkv, heq⟩
    cases heq
    exact ⟨kv.2, hkv, rfl⟩
  · rintro ⟨x, hx, rfl⟩
    exact ⟨(key, x), hx, rfl⟩

theorem nodup_sortMembers {kvs : List (String × Json)} (h : (kvs.map Prod.fst).Nodup) :
    ((sortMembers kvs).map Prod.fst).Nodup := by
  have hperm := (perm_sortMembers kvs).map Prod.fst
  rw [List.map_map] at hperm
  exact hperm.nodup_iff.mpr h

theorem pairwise_sortMembers (kvs : List (String × Json)) :
    (sortMembers kvs).Pairwise KeyLe := by
  rw [sortMembers_eq]
  exact List.pairwise_insertionSort KeyLe _

theorem WellFormed.sortKeys {floatRepr : String → String} {value : Json}
    (h : WellFormed floatRepr value) : WellFormed floatRepr (sortKeys value) := by
  induction h with
  | list xs _ ih =>
    rw [Json.sortKeys, sortItems_eq]
    refine .list _ fun x hx => ?_
    rcases List.mem_map.mp hx with ⟨y, hy, rfl⟩
    exact ih y hy
  | obj kvs hnodup _ ih =>
    refine .obj _ (nodup_sortMembers hnodup) fun kv hkv => ?_
    rcases mem_sortMembers.mp hkv with ⟨x, hx, heq⟩
    exact heq ▸ ih (kv.1, x) hx
  | null => exact .null
  | bool b => exact .bool b
  | int n => exact .int n
  | constant text h => exact .constant text h
  | float text hne h => exact .float text hne h
  | str s => exact .str s

/-- A lookup among distinct keys. -/
theorem lookup_eq_some {kvs : List (String × Json)} (h : (kvs.map Prod.fst).Nodup) {key : String}
    {value : Json} : kvs.lookup key = some value ↔ (key, value) ∈ kvs := by
  induction kvs with
  | nil => simp
  | cons kv kvs ih =>
    rw [List.map_cons, List.nodup_cons] at h
    rw [List.lookup_cons, List.mem_cons, Prod.ext_iff]
    by_cases hkey : key = kv.1
    · have hnot : (key, value) ∉ kvs := fun hmem =>
        h.1 (List.mem_map.mpr ⟨(key, value), hmem, hkey⟩)
      rw [beq_iff_eq.mpr hkey]
      simp [hkey, hkey ▸ hnot, eq_comm]
    · rw [beq_false_of_ne hkey]
      simp [hkey, ih h.2]

theorem lookup_sortMembers {kvs : List (String × Json)} (h : (kvs.map Prod.fst).Nodup)
    (key : String) : (sortMembers kvs).lookup key = (kvs.lookup key).map sortKeys := by
  ext value
  rw [lookup_eq_some (nodup_sortMembers h), mem_sortMembers, Option.map_eq_some_iff]
  simp only [lookup_eq_some h]

/-- Dictionaries with the same items are sorted alike. -/
theorem sortMembers_eq_iff {kvs kvs' : List (String × Json)} (h : (kvs.map Prod.fst).Nodup)
    (h' : (kvs'.map Prod.fst).Nodup) : sortMembers kvs = sortMembers kvs' ↔
      ∀ key, (kvs.lookup key).map sortKeys = (kvs'.lookup key).map sortKeys := by
  constructor
  · intro heq key
    rw [← lookup_sortMembers h, heq, lookup_sortMembers h']
  · intro hlookup
    have hmem : ∀ kv, kv ∈ sortMembers kvs ↔ kv ∈ sortMembers kvs' := by
      intro kv
      rw [← lookup_eq_some (nodup_sortMembers h), ← lookup_eq_some (nodup_sortMembers h'),
        lookup_sortMembers h, lookup_sortMembers h', hlookup]
    have hperm : (sortMembers kvs).Perm (sortMembers kvs') :=
      (List.perm_ext_iff_of_nodup (nodup_sortMembers h).of_map (nodup_sortMembers h').of_map).mpr
        hmem
    refine hperm.eq_of_pairwise (fun kv kv' hkv hkv' hle hle' => ?_) (pairwise_sortMembers kvs)
      (pairwise_sortMembers kvs')
    -- the keys agree, and each has one value
    have hkey : kv.1 = kv'.1 := le_antisymm hle hle'
    have hvalue := (lookup_eq_some (nodup_sortMembers h)).mpr hkv
    rw [hkey, (lookup_eq_some (nodup_sortMembers h)).mpr ((hmem kv').mpr hkv')] at hvalue
    exact Prod.ext hkey (Option.some.inj hvalue).symm

/-- The text with sorted keys determines a dictionary up to the order of keys. -/
theorem dumps_sortKeys_iff {floatRepr : String → String} {kvs kvs' : List (String × Json)}
    (h : WellFormed floatRepr (.obj kvs)) (h' : WellFormed floatRepr (.obj kvs')) :
    dumps (sortKeys (.obj kvs)) = dumps (sortKeys (.obj kvs')) ↔
      ∀ key, (kvs.lookup key).map sortKeys = (kvs'.lookup key).map sortKeys := by
  have hnodup : ∀ {kvs}, WellFormed floatRepr (.obj kvs) → (kvs.map Prod.fst).Nodup := by
    rintro kvs ⟨⟩
    assumption
  rw [← sortMembers_eq_iff (hnodup h) (hnodup h')]
  constructor
  · intro heq
    exact Json.obj.inj (dumps_inj h.sortKeys h'.sortKeys heq)
  · intro heq
    rw [sortKeys, sortKeys, heq]

end Json

end TallyConnector
