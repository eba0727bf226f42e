import Mathlib.Data.Finmap
import Mathlib.Tactic.Common

/-! # JSON values and dictionaries

The values that `json` and pydantic's `model_dump(mode="json")` produce. The
connector's dictionaries (a parsed record, a model dump, a pushed payload)
are finite maps, so that two of them are equal exactly when Python compares
them equal; the objects nested inside a value keep the order of their keys.
-/

namespace TallyConnector

inductive Json where
  | null
  | bool (b : Bool)
  | int (n : Int)
  /-- A float, by its `repr`. -/
  | float (text : String)
  | str (s : String)
  | list (xs : List Json)
  | obj (kvs : List (String × Json))

namespace Json

mutual

def beq : Json → Json → Bool
  | .null, .null => true
  | .bool x, .bool y => x == y
  | .int x, .int y => x == y
  | .float x, .float y => x == y
  | .str x, .str y => x == y
  | .list xs, .list ys => beqList xs ys
  | .obj xs, .obj ys => beqObj xs ys
  | _, _ => false

def beqList : List Json → List Json → Bool
  | [], [] => true
  | x :: xs, y :: ys => beq x y && beqList xs ys
  | _, _ => false

def beqObj : List (String × Json) → List (String × Json) → Bool
  | [], [] => true
  | (k, x) :: xs, (l, y) :: ys => k == l && beq x y && beqObj xs ys
  | _, _ => false

end

mutual

theorem beq_iff : (x y : Json) → (beq x y = true ↔ x = y)
  | .null, y => by cases y <;> simp [beq]
  | .bool _, y => by cases y <;> simp [beq]
  | .int _, y => by cases y <;> simp [beq]
  | .float _, y => by cases y <;> simp [beq]
  | .str _, y => by cases y <;> simp [beq]
  | .list xs, y => by cases y <;> simp [beq, beqList_iff xs]
  | .obj xs, y => by cases y <;> simp [beq, beqObj_iff xs]

theorem beqList_iff : (xs ys : List Json) → (beqList xs ys = true ↔ xs = ys)
  | [], ys => by cases ys <;> simp [beqList]
  | x :: xs, ys => by cases ys <;> simp [beqList, beq_iff x, beqList_iff xs]

theorem beqObj_iff : (xs ys : List (String × Json)) → (beqObj xs ys = true ↔ xs = ys)
  | [], ys => by cases ys <;> simp [beqObj]
  | (k, x) :: xs, [] => by simp [beqObj]
  | (k, x) :: xs, (l, y) :: ys => by simp [beqObj, beq_iff x, beqObj_iff xs]

end

instance : DecidableEq Json := fun x y => decidable_of_iff _ (beq_iff x y)

/-- Python's truth value of a JSON value. -/
def truthy : Json → Bool
  | .null => false
  | .bool b => b
  | .int n => n != 0
  -- no float is written as an empty text
  | .float text => !(["", "0.0", "-0.0"].contains text)
  | .str s => s != ""
  | .list xs => !xs.isEmpty
  | .obj kvs => !kvs.isEmpty

@[simp] theorem truthy_null : truthy .null = false := rfl

theorem truthy_str {s : String} : truthy (.str s) = true ↔ s ≠ "" := by
  simp [truthy]

end Json

/-- A Python dictionary with string keys. -/
abbrev Dict := Finmap fun _ : String => Json

end TallyConnector
