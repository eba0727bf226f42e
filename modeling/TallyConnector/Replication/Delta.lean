import Mathlib.Logic.Relation
import Mathlib.Order.Lattice
import Mathlib.Tactic.Push

/-! # Replication by deltas

A source holds one stamped entry per key and stamps every change above all
earlier ones. A replica holds a value per key and a checkpoint; a pull takes
over the entries stamped above the checkpoint, and moves the checkpoint up to
at most the last stamp of the source.

The invariant of every history is that the replica has what the source has at
or below the checkpoint, and no key the source does not have. One more pull
then makes the replica a mirror, and a source has only one mirror.
-/

namespace Replication

structure Entry (K V S : Type*) where
  key : K
  stamp : S
  value : V

variable {K V S : Type*} [LinearOrder S]

/-- The current entries, and the last stamp given out. -/
structure Source (K V S : Type*) [LinearOrder S] where
  entries : Set (Entry K V S)
  last : S
  bounded : ∀ e ∈ entries, e.stamp ≤ last
  distinct : ∀ e ∈ entries, ∀ e' ∈ entries, e.key = e'.key → e = e'

/-- What is new is stamped above everything before, and no key disappears. -/
structure Source.Evolves (s s' : Source K V S) : Prop where
  last : s.last ≤ s'.last
  fresh : ∀ e ∈ s'.entries, e ∈ s.entries ∨ s.last < e.stamp
  kept : ∀ e ∈ s.entries, ∃ e' ∈ s'.entries, e'.key = e.key

structure Replica (K V S : Type*) where
  value : K → Option V
  since : Option S

def Replica.empty : Replica K V S := ⟨fun _ => none, none⟩

/-- Stamped above the checkpoint, if there is one. -/
def Above (since : Option S) (stamp : S) : Prop := ∀ n, since = some n → n < stamp

/-- The entries above the checkpoint are taken over. -/
structure Pull (s : Source K V S) (r r' : Replica K V S) : Prop where
  taken : ∀ e ∈ s.entries, Above r.since e.stamp → r'.value e.key = some e.value
  others : ∀ key, (∀ e ∈ s.entries, Above r.since e.stamp → e.key ≠ key) →
    r'.value key = r.value key
  since : ∀ n, r'.since = some n → n ≤ s.last

/-- The replica has exactly the values of the source. -/
def Mirrors (s : Source K V S) (value : K → Option V) : Prop :=
  ∀ key v, value key = some v ↔ ∃ e ∈ s.entries, e.key = key ∧ e.value = v

/-- A source has one mirror. -/
theorem Mirrors.unique {s : Source K V S} {value value' : K → Option V} (h : Mirrors s value)
    (h' : Mirrors s value') : value = value' := by
  funext key
  refine Option.ext fun v => ?_
  exact (h key v).trans (h' key v).symm

structure State (K V S : Type*) [LinearOrder S] where
  source : Source K V S
  replica : Replica K V S

inductive Step : State K V S → State K V S → Prop
  | edit {s s' : Source K V S} {r : Replica K V S} (hev : s.Evolves s') : Step ⟨s, r⟩ ⟨s', r⟩
  | pull {s : Source K V S} {r r' : Replica K V S} (hpull : Pull s r r') : Step ⟨s, r⟩ ⟨s, r'⟩

/-- The states of the histories that start with an empty replica. -/
def Reachable (c : State K V S) : Prop :=
  ∃ s, Relation.ReflTransGen Step ⟨s, .empty⟩ c

structure Invariant (c : State K V S) : Prop where
  sound : ∀ e ∈ c.source.entries, ∀ n, c.replica.since = some n → e.stamp ≤ n →
    c.replica.value e.key = some e.value
  bounded : ∀ n, c.replica.since = some n → n ≤ c.source.last
  known : ∀ key v, c.replica.value key = some v → ∃ e ∈ c.source.entries, e.key = key

section

variable {s s' : Source K V S} {r r' : Replica K V S} {c c' : State K V S}

theorem invariant_empty (s : Source K V S) : Invariant ⟨s, .empty⟩ where
  sound := fun _ _ _ h => nomatch h
  bounded := fun _ h => nomatch h
  known := fun _ _ h => nomatch h

/-- An edit only adds entries above the checkpoint. -/
theorem Invariant.edit (h : Invariant ⟨s, r⟩) (hev : s.Evolves s') : Invariant ⟨s', r⟩ where
  sound := by
    intro e he n hn hle
    rcases hev.fresh e he with hold | hnew
    · exact h.sound e hold n hn hle
    · have hlast : n ≤ s.last := h.bounded n hn
      exact absurd (lt_of_lt_of_le hnew hle) (not_lt.mpr hlast)
  bounded := fun n hn => le_trans (h.bounded n hn) hev.last
  known := by
    intro key v hv
    obtain ⟨e, he, rfl⟩ := h.known key v hv
    exact hev.kept e he

/-- After a pull the replica has every entry. -/
theorem Invariant.complete (h : Invariant ⟨s, r⟩) (hpull : Pull s r r') :
    ∀ e ∈ s.entries, r'.value e.key = some e.value := by
  intro e he
  by_cases habove : Above r.since e.stamp
  · exact hpull.taken e he habove
  · unfold Above at habove
    push Not at habove
    obtain ⟨n, hn, hle⟩ := habove
    rw [hpull.others e.key fun e' he' habove' hkey => ?_]
    · exact h.sound e he n hn hle
    · obtain rfl := s.distinct e' he' e he hkey
      exact absurd (habove' n hn) (not_lt.mpr hle)

/-- A pull brings in no key the source does not have. -/
theorem Invariant.known_pull (h : Invariant ⟨s, r⟩) (hpull : Pull s r r') {key : K} {v : V}
    (hv : r'.value key = some v) : ∃ e ∈ s.entries, e.key = key := by
  by_contra hnone
  push Not at hnone
  rw [hpull.others key fun e he _ => hnone e he] at hv
  obtain ⟨e, he, hkey⟩ := h.known key v hv
  exact hnone e he hkey

theorem Invariant.pull (h : Invariant ⟨s, r⟩) (hpull : Pull s r r') : Invariant ⟨s, r'⟩ where
  sound := fun e he _ _ _ => h.complete hpull e he
  bounded := hpull.since
  known := fun _ _ hv => h.known_pull hpull hv

theorem Invariant.step (hstep : Step c c') (h : Invariant c) : Invariant c' := by
  cases hstep with
  | edit hev => exact h.edit hev
  | pull hpull => exact h.pull hpull

theorem Reachable.step (h : Reachable c) (hstep : Step c c') : Reachable c' := by
  obtain ⟨s, hs⟩ := h
  exact ⟨s, hs.tail hstep⟩

/-- The invariant holds in every history. -/
theorem Reachable.invariant (h : Reachable c) : Invariant c := by
  obtain ⟨s, hs⟩ := h
  induction hs with
  | refl => exact invariant_empty s
  | tail _ hstep ih => exact ih.step hstep

/-- In every history, a pull leaves a mirror of the source. -/
theorem Reachable.mirrors (h : Reachable ⟨s, r⟩) (hpull : Pull s r r') :
    Mirrors s r'.value := by
  have hinv := h.invariant
  intro key v
  constructor
  · intro hv
    obtain ⟨e, he, rfl⟩ := hinv.known_pull hpull hv
    have hvalue := hinv.complete hpull e he
    rw [hvalue] at hv
    exact ⟨e, he, rfl, Option.some.inj hv⟩
  · rintro ⟨e, he, rfl, rfl⟩
    exact hinv.complete hpull e he

end

end Replication
