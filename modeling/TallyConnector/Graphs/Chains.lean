import Mathlib.Data.Fintype.Card
import Mathlib.Logic.Relation
import Mathlib.Order.Lattice.Nat

/-! # Chains of a relation

The walks that start at a point, their greatest length, and what a finite set
of points must have if the relation has no cycle.
-/

namespace Graphs

open Relation

variable {α : Type*} (r : α → α → Prop)

/-- A walk of `n` steps starts at the point. -/
inductive Chain : α → Nat → Prop
  | nil (a : α) : Chain a 0
  | cons {a b : α} {n : Nat} (h : r a b) (hrest : Chain b n) : Chain a (n + 1)

/-- The length of the longest chain from a point, if there is one. -/
noncomputable def height (a : α) : Nat := sSup {n | Chain r a n}

variable {r} {a b : α} {n k : Nat}

/-- With bounded chains there is a longest one. -/
theorem isGreatest_height (h : ∀ n, Chain r a n → n < k) :
    IsGreatest {n | Chain r a n} (height r a) := by
  have hbdd : BddAbove {n | Chain r a n} := ⟨k, fun n hn => (h n hn).le⟩
  exact ⟨Nat.sSup_mem ⟨0, .nil a⟩ hbdd, fun n hn => le_csSup hbdd hn⟩

theorem height_lt (h : ∀ n, Chain r a n → n < k) : height r a < k :=
  h _ (isGreatest_height h).1

theorem height_eq (hchain : Chain r a k) (h : ∀ n, Chain r a n → n ≤ k) : height r a = k :=
  IsGreatest.csSup_eq ⟨hchain, h⟩

/-- Chains go on at the neighbours. -/
theorem chain_lt_of_forall (h : ∀ b, r a b → ∀ n, Chain r b n → n < k) :
    ∀ n, Chain r a n → n ≤ k := by
  intro n hn
  cases hn with
  | nil => exact Nat.zero_le k
  | cons hr hrest => exact h _ hr _ hrest

/-! ## Cycles -/

/-- What decreases along a relation shows that it has no cycles. -/
theorem lt_of_transGen {f : α → Nat} (h : ∀ a b, r a b → f b < f a) (hab : TransGen r a b) :
    f b < f a := by
  induction hab with
  | single hr => exact h _ _ hr
  | tail _ hr ih => exact (h _ _ hr).trans ih

/-- In a finite set of points one lies on a cycle, or one has no neighbour in
the set. -/
theorem exists_cycle_or_sink {s : List α} (hne : s ≠ []) :
    (∃ a ∈ s, TransGen r a a) ∨ ∃ a ∈ s, ∀ b ∈ s, ¬ r a b := by
  by_cases hcycle : ∃ a ∈ s, TransGen r a a
  · exact .inl hcycle
  right
  have hfinite : Finite {a // a ∈ s} := List.finite_toSet s
  let reaches : {a // a ∈ s} → {a // a ∈ s} → Prop := fun a b => TransGen r b.1 a.1
  have htrans : IsTrans _ reaches := ⟨fun _ _ _ hab hbc => hbc.trans hab⟩
  have hirrefl : Std.Irrefl reaches := ⟨fun a ha => hcycle ⟨a.1, a.2, ha⟩⟩
  have hwf : WellFounded reaches := Finite.wellFounded_of_trans_of_irrefl reaches
  obtain ⟨first, hfirst⟩ := List.exists_mem_of_ne_nil s hne
  obtain ⟨sink, -, hsink⟩ := hwf.has_min Set.univ ⟨⟨first, hfirst⟩, trivial⟩
  exact ⟨sink.1, sink.2, fun b hb hr => hsink ⟨b, hb⟩ trivial (.single hr)⟩

end Graphs
