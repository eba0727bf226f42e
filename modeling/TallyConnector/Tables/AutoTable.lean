import Mathlib.Data.List.Nodup
import Mathlib.Tactic.Common

/-! # Tables with an auto-increment id and a unique key

What a database keeps for `id INTEGER PRIMARY KEY AUTOINCREMENT` with a
`UNIQUE` constraint on further columns: rows in ascending order of id, every
id below the next one to be given out, and no two rows with the same key.
The three facts are fields of the table, so no operation can break them.
-/

namespace Tables

structure Row (κ v : Type) where
  id : Nat
  key : κ
  val : v
deriving DecidableEq, Repr

structure AutoTable (κ v : Type) where
  rows : List (Row κ v)
  nextId : Nat
  sorted : rows.Pairwise fun r s => r.id < s.id
  fresh : ∀ r ∈ rows, r.id < nextId
  unique : rows.Pairwise fun r s => r.key ≠ s.key

namespace AutoTable

variable {κ v : Type}

def empty : AutoTable κ v where
  rows := []
  nextId := 1
  sorted := .nil
  fresh := by simp
  unique := .nil

@[simp] theorem rows_empty : (empty : AutoTable κ v).rows = [] := rfl

theorem nodup_ids (t : AutoTable κ v) : (t.rows.map (·.id)).Nodup :=
  List.pairwise_map.mpr (t.sorted.imp fun h => Nat.ne_of_lt h)

theorem eq_of_id (t : AutoTable κ v) {r s : Row κ v} (hr : r ∈ t.rows) (hs : s ∈ t.rows)
    (h : r.id = s.id) : r = s :=
  List.inj_on_of_nodup_map t.nodup_ids hr hs h

/-! ## Updating rows in place -/

/-- Change the value of some rows; ids and keys stay. -/
def mapVal (t : AutoTable κ v) (f : Row κ v → v) : AutoTable κ v where
  rows := t.rows.map fun r => { r with val := f r }
  nextId := t.nextId
  sorted := List.pairwise_map.mpr t.sorted
  fresh := by
    intro r hr
    obtain ⟨r₀, hr₀, rfl⟩ := List.mem_map.mp hr
    exact t.fresh r₀ hr₀
  unique := List.pairwise_map.mpr t.unique

/-- `UPDATE … SET … WHERE id = ?` -/
def update (t : AutoTable κ v) (id : Nat) (f : v → v) : AutoTable κ v :=
  t.mapVal fun r => if r.id = id then f r.val else r.val

theorem mem_update {t : AutoTable κ v} {id : Nat} {f : v → v} {r : Row κ v} :
    r ∈ (t.update id f).rows ↔
      ∃ r₀ ∈ t.rows, r = if r₀.id = id then { r₀ with val := f r₀.val } else r₀ := by
  simp only [update, mapVal, List.mem_map]
  constructor
  · rintro ⟨r₀, hr₀, rfl⟩
    refine ⟨r₀, hr₀, ?_⟩
    by_cases h : r₀.id = id <;> simp [h]
  · rintro ⟨r₀, hr₀, rfl⟩
    refine ⟨r₀, hr₀, ?_⟩
    by_cases h : r₀.id = id <;> simp [h]

/-! ## Deleting rows -/

/-- `DELETE … WHERE id = ?` -/
def delete (t : AutoTable κ v) (id : Nat) : AutoTable κ v where
  rows := t.rows.filter fun r => r.id ≠ id
  nextId := t.nextId
  sorted := t.sorted.filter _
  fresh := fun r hr => t.fresh r (List.mem_filter.mp hr).1
  unique := t.unique.filter _

theorem mem_delete {t : AutoTable κ v} {id : Nat} {r : Row κ v} :
    r ∈ (t.delete id).rows ↔ r ∈ t.rows ∧ r.id ≠ id := by
  simp [delete]

/-! ## Inserting rows -/

variable [DecidableEq κ]

/-- Append a row under the next id. -/
def insertNew (t : AutoTable κ v) (key : κ) (val : v) (h : ∀ r ∈ t.rows, r.key ≠ key) :
    AutoTable κ v where
  rows := t.rows ++ [⟨t.nextId, key, val⟩]
  nextId := t.nextId + 1
  sorted := by
    refine List.pairwise_append.mpr ⟨t.sorted, List.pairwise_singleton .., ?_⟩
    intro r hr s hs
    rw [List.mem_singleton.mp hs]
    exact t.fresh r hr
  fresh := by
    intro r hr
    rcases List.mem_append.mp hr with hr | hr
    · exact Nat.lt_succ_of_lt (t.fresh r hr)
    · rw [List.mem_singleton.mp hr]
      exact Nat.lt_succ_self _
  unique := by
    refine List.pairwise_append.mpr ⟨t.unique, List.pairwise_singleton .., ?_⟩
    intro r hr s hs
    rw [List.mem_singleton.mp hs]
    exact h r hr

/-- `INSERT … ON CONFLICT(key) DO UPDATE`: the row with the key gets the value
`onConflict` makes of its old one; without such a row `val` is inserted. -/
def upsert (t : AutoTable κ v) (key : κ) (val : v) (onConflict : v → v) : AutoTable κ v :=
  if h : ∃ r ∈ t.rows, r.key = key then
    t.mapVal fun r => if r.key = key then onConflict r.val else r.val
  else
    t.insertNew key val fun r hr hkey => h ⟨r, hr, hkey⟩

theorem rows_upsert_of_empty {t : AutoTable κ v} {key : κ} {val : v} {f : v → v}
    (h : t.rows = []) : (t.upsert key val f).rows = [⟨t.nextId, key, val⟩] := by
  unfold upsert
  rw [dif_neg (by simp [h])]
  simp [insertNew, h]

/-- Rows of other keys are not touched by an upsert. -/
theorem mem_upsert_of_ne {t : AutoTable κ v} {key : κ} {val : v} {f : v → v} {r : Row κ v}
    (hne : r.key ≠ key) : r ∈ (t.upsert key val f).rows ↔ r ∈ t.rows := by
  unfold upsert
  split
  · simp only [mapVal, List.mem_map]
    constructor
    · rintro ⟨r₀, hr₀, rfl⟩
      have hne₀ : r₀.key ≠ key := hne
      simpa [hne₀] using hr₀
    · intro hr
      exact ⟨r, hr, by simp [hne]⟩
  · simp only [insertNew, List.mem_append, List.mem_singleton]
    constructor
    · rintro (hr | rfl)
      · exact hr
      · exact absurd rfl hne
    · exact Or.inl

/-- The row of the upserted key is the updated old row or a new one. -/
theorem of_mem_upsert {t : AutoTable κ v} {key : κ} {val : v} {f : v → v} {r : Row κ v}
    (hr : r ∈ (t.upsert key val f).rows) (hkey : r.key = key) :
    (∃ r₀ ∈ t.rows, r₀.key = key ∧ r = { r₀ with val := f r₀.val }) ∨
      r = ⟨t.nextId, key, val⟩ := by
  unfold upsert at hr
  split at hr
  · left
    obtain ⟨r₀, hr₀, rfl⟩ := List.mem_map.mp hr
    have hkey₀ : r₀.key = key := hkey
    exact ⟨r₀, hr₀, hkey₀, by simp [hkey₀]⟩
  · next hnone =>
    rcases List.mem_append.mp hr with hr | hr
    · exact absurd ⟨r, hr, hkey⟩ hnone
    · exact Or.inr (List.mem_singleton.mp hr)

/-- After an upsert there is a row with the key. -/
theorem exists_mem_upsert (t : AutoTable κ v) (key : κ) (val : v) (f : v → v) :
    ∃ r ∈ (t.upsert key val f).rows, r.key = key := by
  unfold upsert
  split
  · next h =>
    obtain ⟨r₀, hr₀, hkey⟩ := h
    exact ⟨_, List.mem_map.mpr ⟨r₀, hr₀, rfl⟩, hkey⟩
  · exact ⟨_, List.mem_append_right _ (List.mem_singleton_self _), rfl⟩

end AutoTable

end Tables
