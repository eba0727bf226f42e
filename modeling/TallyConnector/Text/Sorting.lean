import Mathlib.Data.Char
import Mathlib.Data.List.Lex
import Mathlib.Tactic.IntervalCases

/-! # Texts that sort like what they stand for

Texts are compared letter by letter, as databases and file systems do. A
format sorts like its values where the order of two texts is the order of the
values. Formats of a fixed width can be put in front of others: the first part
then counts more than all that follows, as in a mixed radix number.
-/

namespace Sorting

variable {α : Type*} {ι : Type*}

/-- Two texts of this format are in the order of their values. -/
def Sorts [LT α] (text : ι → List α) (value : ι → Nat) : Prop :=
  ∀ a b, text a < text b ↔ value a < value b

/-- All texts of this format have the same length. -/
def Wide (n : Nat) (text : ι → List α) : Prop := ∀ a, (text a).length = n

theorem Wide.cons {n : Nat} {text : ι → List α} (h : Wide n text) (c : α) :
    Wide (n + 1) fun a => c :: text a := by
  intro a
  show (text a).length + 1 = n + 1
  rw [h a]

theorem Wide.append {m n : Nat} {text rest : ι → List α} (h : Wide n text)
    (hrest : Wide m rest) : Wide (n + m) fun a => text a ++ rest a := by
  intro a
  show (text a ++ rest a).length = n + m
  rw [List.length_append, h a, hrest a]

/-! ## Comparing texts -/

variable [LinearOrder α]

/-- Where two beginnings are equally long, the rest is looked at only if they
are the same. -/
theorem append_lt_append_iff {p q s t : List α} (h : p.length = q.length) :
    p ++ s < q ++ t ↔ p < q ∨ p = q ∧ s < t := by
  induction p generalizing q with
  | nil =>
    cases q with
    | nil => simp
    | cons y q => cases h
  | cons x p ih =>
    cases q with
    | nil => cases h
    | cons y q =>
      have hlength : p.length = q.length := Nat.succ.inj h
      simp only [List.cons_append, List.cons_lt_cons_iff, ih hlength, List.cons.injEq]
      constructor
      · rintro (hxy | ⟨rfl, hpq | ⟨rfl, hst⟩⟩)
        · exact .inl (.inl hxy)
        · exact .inl (.inr ⟨rfl, hpq⟩)
        · exact .inr ⟨⟨rfl, rfl⟩, hst⟩
      · rintro ((hxy | ⟨rfl, hpq⟩) | ⟨⟨rfl, rfl⟩, hst⟩)
        · exact .inl hxy
        · exact .inr ⟨rfl, .inl hpq⟩
        · exact .inr ⟨rfl, .inr ⟨rfl, hst⟩⟩

/-- Writing the letters differently, but in the same order, does not change
the order of the texts. -/
theorem map_lt_map_iff {β : Type*} [LT β] {f : α → β} {l m : List α}
    (hf : ∀ a ∈ l, ∀ b ∈ m, (f a < f b ↔ a < b) ∧ (f a = f b ↔ a = b)) :
    l.map f < m.map f ↔ l < m := by
  induction l generalizing m with
  | nil =>
    cases m with
    | nil => simp
    | cons b m => simp
  | cons a l ih =>
    cases m with
    | nil => simp
    | cons b m =>
      rcases hf a List.mem_cons_self b List.mem_cons_self with ⟨hlt, heq⟩
      have hrest := ih (m := m) fun c hc d hd =>
        hf c (List.mem_cons_of_mem a hc) d (List.mem_cons_of_mem b hd)
      simp only [List.map_cons, List.cons_lt_cons_iff, hlt, heq, hrest]

/-- The order of numbers with two digits in a mixed radix. -/
theorem mixed_lt_iff {x y u v base : Nat} (hu : u < base) (hv : v < base) :
    x * base + u < y * base + v ↔ x < y ∨ x = y ∧ u < v := by
  rcases lt_trichotomy x y with hlt | heq | hgt
  · -- the first digit decides
    have hstep : (x + 1) * base ≤ y * base := Nat.mul_le_mul_right base hlt
    rw [Nat.succ_mul] at hstep
    constructor
    · intro _
      exact .inl hlt
    · intro _
      omega
  · rw [heq]
    omega
  · have hstep : (y + 1) * base ≤ x * base := Nat.mul_le_mul_right base hgt
    rw [Nat.succ_mul] at hstep
    constructor
    · intro hlt
      omega
    · rintro (hlt | ⟨heq, -⟩)
      · omega
      · omega

theorem mixed_lt {x u count base : Nat} (hx : x < count) (hu : u < base) :
    x * base + u < count * base := by
  have hstep : (x + 1) * base ≤ count * base := Nat.mul_le_mul_right base hx
  rw [Nat.succ_mul] at hstep
  omega

/-! ## Putting formats together -/

section

variable {text rest : ι → List α} {value low : ι → Nat} {n base : Nat}

theorem Sorts.le_iff (h : Sorts text value) (a b : ι) : text a ≤ text b ↔ value a ≤ value b := by
  rw [← not_lt, ← not_lt, h b a]

theorem Sorts.eq_iff (h : Sorts text value) (a b : ι) : text a = text b ↔ value a = value b := by
  rw [le_antisymm_iff, le_antisymm_iff, h.le_iff a b, h.le_iff b a]

/-- Values in the same order may be taken instead. -/
theorem Sorts.congr {value' : ι → Nat} (h : Sorts text value)
    (hvalue : ∀ a b, value a < value b ↔ value' a < value' b) : Sorts text value' := by
  intro a b
  rw [h a b, hvalue a b]

/-- A letter that all texts start with. -/
theorem Sorts.cons (h : Sorts text value) (c : α) : Sorts (fun a => c :: text a) value := by
  intro a b
  show c :: text a < c :: text b ↔ _
  rw [List.cons_lt_cons_self, h a b]

/-- A text that all texts end with, behind a fixed width. -/
theorem Sorts.append_const (h : Sorts text value) (hwide : Wide n text) (t : List α) :
    Sorts (fun a => text a ++ t) value := by
  intro a b
  show text a ++ t < text b ++ t ↔ _
  rw [append_lt_append_iff ((hwide a).trans (hwide b).symm), h a b]
  simp

/-- A fixed width in front of another format, whose values stay below the
base. -/
theorem Sorts.append (h : Sorts text value) (hwide : Wide n text) (hrest : Sorts rest low)
    (hlow : ∀ a, low a < base) :
    Sorts (fun a => text a ++ rest a) (fun a => value a * base + low a) := by
  intro a b
  show text a ++ rest a < text b ++ rest b ↔ value a * base + low a < value b * base + low b
  rw [append_lt_append_iff ((hwide a).trans (hwide b).symm), h a b, h.eq_iff a b, hrest a b]
  exact (mixed_lt_iff (hlow a) (hlow b)).symm

end

/-! ## Decimal numerals -/

/-- A number in decimal, its last `width` digits. -/
def digits : (width : Nat) → Nat → List Char
  | 0, _ => []
  | width + 1, n => digits width (n / 10) ++ [Nat.digitChar (n % 10)]

theorem length_digits (width n : Nat) : (digits width n).length = width := by
  induction width generalizing n with
  | zero => rfl
  | succ width ih => simp [digits, ih]

theorem wide_digits (width : Nat) (value : ι → Nat) :
    Wide width fun a => digits width (value a) := fun a => length_digits width (value a)

theorem digitChar_lt_iff {m n : Nat} (hm : m < 10) (hn : n < 10) :
    Nat.digitChar m < Nat.digitChar n ↔ m < n := by
  interval_cases m <;> interval_cases n <;> decide

/-- Numerals of a fixed width sort like the numbers. -/
theorem sorts_digits {width : Nat} {value : ι → Nat} (h : ∀ a, value a < 10 ^ width) :
    Sorts (fun a => digits width (value a)) value := by
  induction width generalizing value with
  | zero =>
    intro a b
    have ha := h a
    have hb := h b
    simp only [digits, lt_self_iff_false, false_iff]
    omega
  | succ width ih =>
    -- the last digit decides only where the higher ones agree
    have hhigh : ∀ a, value a / 10 < 10 ^ width := by
      intro a
      have ha := h a
      rw [Nat.pow_succ] at ha
      omega
    have hlast : Sorts (fun a : ι => [Nat.digitChar (value a % 10)]) fun a => value a % 10 := by
      intro a b
      have hlt := digitChar_lt_iff (Nat.mod_lt (value a) (by decide : 0 < 10))
        (Nat.mod_lt (value b) (by decide : 0 < 10))
      show [_] < [_] ↔ _
      rw [List.cons_lt_cons_iff]
      simpa using hlt
    refine (Sorts.append (ih hhigh) (wide_digits width _) hlast
      fun a => Nat.mod_lt _ (by decide : 0 < 10)).congr ?_
    intro a b
    omega

end Sorting
