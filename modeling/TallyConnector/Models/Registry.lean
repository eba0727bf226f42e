import Mathlib.Data.List.Sort
import TallyConnector.Models.EntitySpec

/-! # The entity registry

`get_entity` and `resolve_sync_order` of `models/registry.py`, over an
arbitrary registry.
-/

namespace TallyConnector

/-- `REGISTRY`: a dictionary of specs, each under its own name. -/
structure Registry where
  specs : List EntitySpec
  nodup : (specs.map (·.name)).Nodup

/-- `sorted(names)` -/
def sortedNames (specs : List EntitySpec) : List String :=
  (specs.map (·.name)).insertionSort (· ≤ ·)

namespace Registry

variable (registry : Registry)

def getEntity (name : String) : Except Exn EntitySpec :=
  match registry.specs.find? fun spec => spec.name == name with
  | some spec => .ok spec
  | none => .error ⟨.keyError, "Unknown entity '" ++ name ++ "'. Known entities: [" ++
      ", ".intercalate ((sortedNames registry.specs).map fun n => "'" ++ n ++ "'") ++ "]"⟩

theorem getEntity_ok {name : String} {spec : EntitySpec}
    (h : registry.getEntity name = .ok spec) : spec ∈ registry.specs ∧ spec.name = name := by
  unfold getEntity at h
  split at h
  · next hfind =>
    cases h
    exact ⟨List.mem_of_find?_eq_some hfind, by simpa using List.find?_some hfind⟩
  · cases h

theorem eq_of_name {spec spec' : EntitySpec} (h : spec ∈ registry.specs)
    (h' : spec' ∈ registry.specs) (hname : spec.name = spec'.name) : spec = spec' :=
  List.inj_on_of_nodup_map registry.nodup h h' hname

theorem getEntity_self {spec : EntitySpec} (h : spec ∈ registry.specs) :
    registry.getEntity spec.name = .ok spec := by
  unfold getEntity
  split
  · next spec' hfind =>
    have hname : spec'.name = spec.name := by simpa using List.find?_some hfind
    rw [registry.eq_of_name (List.mem_of_find?_eq_some hfind) h hname]
  · next hnone =>
    have := List.find?_eq_none.mp hnone spec h
    simp at this

/-! ## The sync order -/

/-- The specs whose dependencies are all resolved, by declaration position. -/
def ready (position : String → Nat) (remaining resolved : List EntitySpec) :
    List EntitySpec :=
  (remaining.filter fun spec =>
      spec.dependsOn.all fun name => (resolved.map (·.name)).contains name).insertionSort
    fun a b => position a.name ≤ position b.name

/-- The `while remaining` loop. Every round takes at least one spec out of
`remaining`, so as many rounds as there are specs suffice. -/
def resolveLoop (position : String → Nat) :
    Nat → List EntitySpec → List EntitySpec → Except Exn (List EntitySpec)
  | 0, _, resolved => .ok resolved
  | fuel + 1, remaining, resolved =>
      if remaining.isEmpty then .ok resolved
      else
        let next := ready position remaining resolved
        if next.isEmpty then
          .error ⟨.valueError, "Cyclic or unresolved dependency among entities: " ++
            ", ".intercalate (sortedNames remaining)⟩
        else
          resolveLoop position fuel
            (remaining.filter fun spec => !(next.map (·.name)).contains spec.name)
            (resolved ++ next)

def resolveSyncOrder : Except Exn (List EntitySpec) :=
  resolveLoop (fun name => (registry.specs.map (·.name)).idxOf name)
    registry.specs.length registry.specs []

theorem ready_subset {position : String → Nat} {remaining resolved : List EntitySpec}
    {spec : EntitySpec} (h : spec ∈ ready position remaining resolved) : spec ∈ remaining := by
  have h' := (List.perm_insertionSort _ _).mem_iff.mp h
  exact (List.mem_filter.mp h').1

/-- With distinct names, a round splits what remained. -/
theorem round_perm (position : String → Nat) {remaining : List EntitySpec}
    (resolved : List EntitySpec) (hnd : (remaining.map (·.name)).Nodup) :
    (ready position remaining resolved ++
      remaining.filter fun spec =>
        !((ready position remaining resolved).map (·.name)).contains spec.name).Perm remaining := by
  have hmem : ∀ spec ∈ remaining,
      (((ready position remaining resolved).map (·.name)).contains spec.name = true ↔
        spec ∈ ready position remaining resolved) := by
    intro spec hspec
    rw [List.contains_iff_mem, List.mem_map]
    constructor
    · -- a name belongs to one specification
      rintro ⟨spec', hspec', hname⟩
      have heq := List.inj_on_of_nodup_map hnd (ready_subset hspec') hspec hname
      exact heq ▸ hspec'
    · intro h
      exact ⟨spec, h, rfl⟩
  have hsplit := List.filter_append_perm
    (fun spec : EntitySpec => spec.dependsOn.all fun name =>
      (resolved.map (·.name)).contains name) remaining
  refine (List.Perm.append (List.perm_insertionSort _ _) ?_).trans hsplit
  refine List.Perm.of_eq (List.filter_congr fun spec hspec => ?_)
  have hready : spec ∈ ready position remaining resolved ↔
      (spec.dependsOn.all fun name => (resolved.map (·.name)).contains name) = true := by
    rw [ready, (List.perm_insertionSort _ _).mem_iff, List.mem_filter]
    exact ⟨fun h => h.2, fun h => ⟨hspec, h⟩⟩
  congr 1
  rw [Bool.eq_iff_iff, hmem spec hspec, hready]

theorem resolveLoop_perm {position : String → Nat} {fuel : Nat}
    {remaining resolved order : List EntitySpec} (hfuel : remaining.length ≤ fuel)
    (hnd : (remaining.map (·.name)).Nodup)
    (h : resolveLoop position fuel remaining resolved = .ok order) :
    order.Perm (resolved ++ remaining) := by
  induction fuel generalizing remaining resolved with
  | zero =>
      have hempty : remaining = [] := List.length_eq_zero_iff.mp (Nat.le_zero.mp hfuel)
      cases h
      simp [hempty]
  | succ fuel ih =>
      simp only [resolveLoop] at h
      split at h
      · -- all are resolved
        next hempty =>
        cases h
        simp [List.isEmpty_iff.mp hempty]
      · split at h
        · -- no specification is ready: the loop raises
          cases h
        · next hnext =>
          -- one round, and the rounds after it
          have hround := round_perm position resolved hnd
          have hlen := hround.length_eq
          rw [List.length_append] at hlen
          have hpos : 0 < (ready position remaining resolved).length :=
            List.length_pos_iff.mpr fun h => hnext (List.isEmpty_iff.mpr h)
          have hrest := ih (by omega) (hnd.sublist (List.filter_sublist.map _)) h
          refine hrest.trans ?_
          rw [List.append_assoc]
          exact hround.append_left resolved

/-- The order lists every registered spec once. -/
theorem resolveSyncOrder_perm {order : List EntitySpec}
    (h : registry.resolveSyncOrder = .ok order) : order.Perm registry.specs := by
  simpa using resolveLoop_perm (Nat.le_refl _) registry.nodup h

end Registry

end TallyConnector
