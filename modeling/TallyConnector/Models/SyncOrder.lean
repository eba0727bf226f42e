import TallyConnector.Graphs.Chains
import TallyConnector.Models.Registry

/-! # The sync order

`resolve_sync_order` as a topological sort: the loop ends, it fails exactly on
a registry with an unknown or a cyclic dependency, and otherwise the layers it
takes are the specs by the length of their longest dependency chain.
-/

namespace TallyConnector

open Relation

namespace Registry

variable (registry : Registry)

/-- `position[name]` -/
def position (name : String) : Nat := (registry.specs.map (·.name)).idxOf name

/-- The spec of the first name lists the second one. -/
def DependsOn (name dep : String) : Prop :=
  ∃ spec ∈ registry.specs, spec.name = name ∧ dep ∈ spec.dependsOn

/-- The `while` loop, without a bound on its rounds. -/
inductive Loops (position : String → Nat) :
    List EntitySpec → List EntitySpec → Except Exn (List EntitySpec) → Prop
  | done (resolved : List EntitySpec) : Loops position [] resolved (.ok resolved)
  | stuck {remaining : List EntitySpec} (resolved : List EntitySpec) (hne : remaining ≠ [])
      (hready : ready position remaining resolved = []) :
      Loops position remaining resolved (.error ⟨.valueError,
        "Cyclic or unresolved dependency among entities: " ++
          ", ".intercalate (sortedNames remaining)⟩)
  | round {remaining resolved : List EntitySpec} {r : Except Exn (List EntitySpec)}
      (hready : ready position remaining resolved ≠ [])
      (hrest : Loops position
        (remaining.filter fun spec =>
          !((ready position remaining resolved).map (·.name)).contains spec.name)
        (resolved ++ ready position remaining resolved) r) :
      Loops position remaining resolved r

/-! ## Termination -/

/-- The bound on the rounds is never reached. -/
theorem loops_resolveLoop {position : String → Nat} {fuel : Nat}
    {remaining resolved : List EntitySpec} (hfuel : remaining.length ≤ fuel)
    (hnd : (remaining.map (·.name)).Nodup) :
    Loops position remaining resolved (resolveLoop position fuel remaining resolved) := by
  induction fuel generalizing remaining resolved with
  | zero =>
      obtain rfl := List.length_eq_zero_iff.mp (Nat.le_zero.mp hfuel)
      exact .done resolved
  | succ fuel ih =>
      simp only [resolveLoop]
      split
      · next hempty =>
        obtain rfl := List.isEmpty_iff.mp hempty
        exact .done resolved
      · next hne =>
        split
        · next hready =>
          exact .stuck resolved (fun h => hne (List.isEmpty_iff.mpr h))
            (List.isEmpty_iff.mp hready)
        · next hready =>
          have hready' : ready position remaining resolved ≠ [] :=
            fun h => hready (List.isEmpty_iff.mpr h)
          refine .round hready' (ih ?_ (hnd.sublist (List.filter_sublist.map _)))
          have hlen := (round_perm position resolved hnd).length_eq
          have hpos := List.length_pos_iff.mpr hready'
          rw [List.length_append] at hlen
          omega

theorem loops_resolveSyncOrder :
    Loops registry.position registry.specs [] registry.resolveSyncOrder :=
  loops_resolveLoop (Nat.le_refl _) registry.nodup

theorem Loops.unique {position : String → Nat} {remaining resolved : List EntitySpec}
    {r r' : Except Exn (List EntitySpec)} (h : Loops position remaining resolved r)
    (h' : Loops position remaining resolved r') : r = r' := by
  induction h with
  | done resolved =>
      cases h' with
      | done => rfl
      | stuck _ hne _ => exact absurd rfl hne
      | round hready _ => exact absurd rfl hready
  | stuck resolved hne hready =>
      cases h' with
      | done => exact absurd rfl hne
      | stuck _ _ _ => rfl
      | round hready' _ => exact absurd hready hready'
  | round hready _ ih =>
      cases h' with
      | done => exact absurd rfl hready
      | stuck _ _ hready' => exact absurd hready' hready
      | round _ hrest => exact ih hrest

/-! ## Dependencies first -/

variable {registry} {position : String → Nat} {remaining resolved order : List EntitySpec}
variable {spec : EntitySpec}

theorem mem_ready : spec ∈ ready position remaining resolved ↔
    spec ∈ remaining ∧ ∀ dep ∈ spec.dependsOn, dep ∈ resolved.map (·.name) := by
  simp only [ready, (List.perm_insertionSort _ _).mem_iff, List.mem_filter, List.all_eq_true,
    List.contains_iff_mem]

/-- What a round takes out of `remaining` is what was ready. -/
theorem mem_rest (hnd : (remaining.map (·.name)).Nodup) :
    spec ∈ (remaining.filter fun spec =>
        !((ready position remaining resolved).map (·.name)).contains spec.name) ↔
      spec ∈ remaining ∧ ∃ dep ∈ spec.dependsOn, dep ∉ resolved.map (·.name) := by
  rw [List.mem_filter]
  refine and_congr_right fun hspec => ?_
  have hcontains : ((ready position remaining resolved).map (·.name)).contains spec.name = true ↔
      spec ∈ ready position remaining resolved := by
    rw [List.contains_iff_mem, List.mem_map]
    constructor
    · rintro ⟨spec', hspec', hname⟩
      exact List.inj_on_of_nodup_map hnd (ready_subset hspec') hspec hname ▸ hspec'
    · exact fun h => ⟨spec, h, rfl⟩
  rw [Bool.not_eq_true', ← Bool.not_eq_true, hcontains, mem_ready]
  simp [hspec]

/-- Every dependency stands strictly before its dependents. -/
def DepsFirst (order : List EntitySpec) : Prop :=
  ∀ before spec after, order = before ++ spec :: after →
    ∀ dep ∈ spec.dependsOn, dep ∈ before.map (·.name)

theorem DepsFirst.append_ready (h : DepsFirst resolved) :
    DepsFirst (resolved ++ ready position remaining resolved) := by
  intro before spec after heq dep hdep
  rcases List.append_eq_append_iff.mp heq with ⟨middle, rfl, hready⟩ | ⟨middle, rfl, hrest⟩
  · -- one of those just found ready
    have hmem : spec ∈ ready position remaining resolved := by
      rw [hready]
      simp
    rw [List.map_append, List.mem_append]
    exact .inl ((mem_ready.mp hmem).2 dep hdep)
  · cases middle with
    | nil =>
        have hmem : spec ∈ ready position remaining (before ++ []) := by
          rw [← List.nil_append (ready _ _ _), ← hrest]
          exact List.mem_cons_self
        simpa using (mem_ready.mp hmem).2 dep hdep
    | cons head middle =>
        obtain ⟨rfl, rfl⟩ := List.cons.inj hrest
        exact h before spec middle rfl dep hdep

/-- The invariant of the loop. -/
structure Rounds (registry : Registry) (remaining resolved : List EntitySpec) : Prop where
  perm : (resolved ++ remaining).Perm registry.specs
  depsFirst : DepsFirst resolved

theorem Rounds.init (registry : Registry) : registry.Rounds registry.specs [] :=
  ⟨.refl _, fun before _ _ heq => by simp at heq⟩

theorem Rounds.nodup (h : registry.Rounds remaining resolved) :
    ((resolved ++ remaining).map (·.name)).Nodup :=
  (h.perm.map (·.name)).nodup_iff.mpr registry.nodup

theorem Rounds.round (position : String → Nat) (h : registry.Rounds remaining resolved) :
    registry.Rounds
      (remaining.filter fun spec =>
        !((ready position remaining resolved).map (·.name)).contains spec.name)
      (resolved ++ ready position remaining resolved) where
  perm := by
    have hnd : (remaining.map (·.name)).Nodup :=
      h.nodup.sublist ((List.sublist_append_right _ _).map _)
    rw [List.append_assoc]
    exact ((round_perm position resolved hnd).append_left resolved).trans h.perm
  depsFirst := h.depsFirst.append_ready

/-! ## Failure -/

/-- Some spec depends, directly or not, on an unknown name or on a cycle. -/
def Unresolvable (registry : Registry) : Prop :=
  ∃ spec ∈ registry.specs, ∃ dep, TransGen registry.DependsOn spec.name dep ∧
    (dep ∉ registry.specs.map (·.name) ∨ TransGen registry.DependsOn dep dep)

theorem Rounds.mem_names {name : String} (h : registry.Rounds remaining resolved) :
    name ∈ registry.specs.map (·.name) ↔
      name ∈ resolved.map (·.name) ∨ name ∈ remaining.map (·.name) := by
  rw [← (h.perm.map (·.name)).mem_iff, List.map_append, List.mem_append]

/-- When nothing is ready, a cycle or an unknown name is behind it. -/
theorem Rounds.unresolvable (h : registry.Rounds remaining resolved) (hne : remaining ≠ [])
    (hready : ready position remaining resolved = []) : registry.Unresolvable := by
  have hne' : remaining.map (·.name) ≠ [] := by simpa using hne
  have hspecs : ∀ spec ∈ remaining, spec ∈ registry.specs :=
    fun spec hspec => h.perm.mem_iff.mp (List.mem_append_right _ hspec)
  rcases Graphs.exists_cycle_or_sink (r := registry.DependsOn) hne' with
    ⟨name, hname, hcycle⟩ | ⟨name, hname, hsink⟩
  · obtain ⟨spec, hspec, rfl⟩ := List.mem_map.mp hname
    exact ⟨spec, hspecs spec hspec, spec.name, hcycle, .inr hcycle⟩
  · obtain ⟨spec, hspec, rfl⟩ := List.mem_map.mp hname
    have hnot : spec ∉ ready position remaining resolved := by simp [hready]
    rw [mem_ready, not_and] at hnot
    obtain ⟨dep, hdep, hresolved⟩ : ∃ dep ∈ spec.dependsOn, dep ∉ resolved.map (·.name) := by
      simpa using hnot hspec
    have hdepends : registry.DependsOn spec.name dep := ⟨spec, hspecs spec hspec, rfl, hdep⟩
    refine ⟨spec, hspecs spec hspec, dep, .single hdepends, .inl fun hknown => ?_⟩
    rcases h.mem_names.mp hknown with hmem | hmem
    · exact hresolved hmem
    · exact hsink dep hmem hdepends

/-- In an order with dependencies first, a dependency has the smaller index. -/
theorem Rounds.idxOf_lt (h : registry.Rounds [] order) {name dep : String}
    (hdepends : registry.DependsOn name dep) :
    (order.map (·.name)).idxOf dep < (order.map (·.name)).idxOf name := by
  obtain ⟨spec, hspec, rfl, hdep⟩ := hdepends
  have hmem : spec ∈ order := by simpa using h.perm.mem_iff.mpr hspec
  obtain ⟨before, after, rfl⟩ := List.append_of_mem hmem
  have hbefore := h.depsFirst before spec after rfl dep hdep
  have hnot : spec.name ∉ before.map (·.name) := by
    have hnd := h.nodup
    rw [List.append_nil, List.map_append, List.nodup_append] at hnd
    intro hmem
    exact hnd.2.2 _ hmem _ (by simp) rfl
  rw [List.map_append, List.idxOf_append_of_mem hbefore, List.idxOf_append_of_notMem hnot]
  exact (List.idxOf_lt_length_of_mem hbefore).trans_le (Nat.le_add_right _ _)

theorem Rounds.known (h : registry.Rounds [] order) {name dep : String}
    (hdepends : registry.DependsOn name dep) : dep ∈ registry.specs.map (·.name) := by
  obtain ⟨spec, hspec, rfl, hdep⟩ := hdepends
  have hmem : spec ∈ order := by simpa using h.perm.mem_iff.mpr hspec
  obtain ⟨before, after, rfl⟩ := List.append_of_mem hmem
  have hbefore := h.depsFirst before spec after rfl dep hdep
  refine h.mem_names.mpr (.inl ?_)
  rw [List.map_append]
  exact List.mem_append_left _ hbefore

theorem Rounds.not_unresolvable (h : registry.Rounds [] order) : ¬ registry.Unresolvable := by
  rintro ⟨spec, hspec, dep, hdep, hunknown | hcycle⟩
  · rcases hdep with hdepends | ⟨-, hdepends⟩
    · exact hunknown (h.known hdepends)
    · exact hunknown (h.known hdepends)
  · exact lt_irrefl _ (Graphs.lt_of_transGen
      (f := fun name => (order.map (·.name)).idxOf name) (fun _ _ => h.idxOf_lt) hcycle)

/-- How the loop ends. -/
theorem Rounds.of_loops {r : Except Exn (List EntitySpec)}
    (h : registry.Rounds remaining resolved) (hloops : Loops position remaining resolved r) :
    (∀ order, r = .ok order → registry.Rounds [] order) ∧
      ∀ exc, r = .error exc → exc.kind = .valueError ∧ registry.Unresolvable := by
  induction hloops with
  | done resolved =>
      refine ⟨fun order horder => ?_, fun exc hexc => by cases hexc⟩
      cases horder
      exact h
  | stuck resolved hne hready =>
      refine ⟨fun order horder => (by cases horder), fun exc hexc => ?_⟩
      cases hexc
      exact ⟨rfl, h.unresolvable hne hready⟩
  | round hready _ ih => exact ih (h.round position)

/-! ## Layers -/

/-- By the length of the longest dependency chain, then by position. -/
def Before (registry : Registry) (spec spec' : EntitySpec) : Prop :=
  Graphs.height registry.DependsOn spec.name < Graphs.height registry.DependsOn spec'.name ∨
    Graphs.height registry.DependsOn spec.name = Graphs.height registry.DependsOn spec'.name ∧
      registry.position spec.name < registry.position spec'.name

/-- The invariant of the loop after `k` rounds: the layers up to `k` are taken,
what remains has longer chains. -/
structure Layered (registry : Registry) (k : Nat) (remaining resolved : List EntitySpec) :
    Prop where
  short : ∀ spec ∈ resolved, ∀ n, Graphs.Chain registry.DependsOn spec.name n → n < k
  long : ∀ spec ∈ remaining, Graphs.Chain registry.DependsOn spec.name k
  sorted : resolved.Pairwise registry.Before

/-- Those ready by position, which no two share. -/
theorem Rounds.ready_sorted (h : registry.Rounds remaining resolved) :
    (ready registry.position remaining resolved).Pairwise fun spec spec' =>
      registry.position spec.name < registry.position spec'.name := by
  let byPosition : EntitySpec → EntitySpec → Prop :=
    fun a b => registry.position a.name ≤ registry.position b.name
  have htotal : Std.Total byPosition := ⟨fun a b => Nat.le_total _ _⟩
  have htrans : IsTrans _ byPosition := ⟨fun _ _ _ => Nat.le_trans⟩
  have hsorted : (ready registry.position remaining resolved).Pairwise byPosition :=
    List.pairwise_insertionSort byPosition _
  have hnd : (ready registry.position remaining resolved).Pairwise (·.name ≠ ·.name) := by
    have hremaining := h.nodup.sublist ((List.sublist_append_right _ _).map _)
    have hround := (round_perm registry.position resolved hremaining).map (·.name)
    have hready := hround.nodup_iff.mpr hremaining
    rw [List.map_append, List.nodup_append] at hready
    exact List.pairwise_map.mp hready.1
  refine (hsorted.and hnd).imp_of_mem fun {spec spec'} hspec _ hboth => ?_
  refine lt_of_le_of_ne hboth.1 fun heq => hboth.2 ?_
  have hmem : spec.name ∈ registry.specs.map (·.name) :=
    h.mem_names.mpr (.inr (List.mem_map_of_mem (ready_subset hspec)))
  exact (List.idxOf_inj hmem).mp heq

theorem Layered.round {k : Nat} (hrounds : registry.Rounds remaining resolved)
    (hknown : ∀ name dep, registry.DependsOn name dep → dep ∈ registry.specs.map (·.name))
    (h : registry.Layered k remaining resolved) :
    registry.Layered (k + 1)
      (remaining.filter fun spec =>
        !((ready registry.position remaining resolved).map (·.name)).contains spec.name)
      (resolved ++ ready registry.position remaining resolved) := by
  have hspecs : ∀ spec ∈ remaining, spec ∈ registry.specs :=
    fun spec hspec => hrounds.perm.mem_iff.mp (List.mem_append_right _ hspec)
  have hnd : (remaining.map (·.name)).Nodup :=
    hrounds.nodup.sublist ((List.sublist_append_right _ _).map _)
  -- the longest chains of those ready have length `k`
  have hready : ∀ spec ∈ ready registry.position remaining resolved,
      ∀ n, Graphs.Chain registry.DependsOn spec.name n → n ≤ k := by
    intro spec hspec
    obtain ⟨hremaining, hdeps⟩ := mem_ready.mp hspec
    refine Graphs.chain_lt_of_forall fun dep hdepends => ?_
    obtain ⟨spec', hspec', hname, hdep⟩ := hdepends
    obtain rfl := registry.eq_of_name hspec' (hspecs spec hremaining) hname
    obtain ⟨resolvedSpec, hresolved, rfl⟩ := List.mem_map.mp (hdeps dep hdep)
    exact h.short resolvedSpec hresolved
  have hheight : ∀ spec ∈ ready registry.position remaining resolved,
      Graphs.height registry.DependsOn spec.name = k := fun spec hspec =>
    Graphs.height_eq (h.long spec (ready_subset hspec)) (hready spec hspec)
  refine ⟨fun spec hspec n hchain => ?_, fun spec hspec => ?_, ?_⟩
  · rcases List.mem_append.mp hspec with hspec | hspec
    · exact (h.short spec hspec n hchain).trans (Nat.lt_succ_self k)
    · exact Nat.lt_succ_of_le (hready spec hspec n hchain)
  · -- an unresolved dependency remains as well
    obtain ⟨hremaining, dep, hdep, hnot⟩ := (mem_rest hnd).mp hspec
    have hdepends : registry.DependsOn spec.name dep := ⟨spec, hspecs spec hremaining, rfl, hdep⟩
    have hmem := (hrounds.mem_names.mp (hknown _ _ hdepends)).resolve_left hnot
    obtain ⟨spec', hspec', rfl⟩ := List.mem_map.mp hmem
    exact .cons hdepends (h.long spec' hspec')
  · rw [List.pairwise_append]
    refine ⟨h.sorted, ?_, fun spec hspec spec' hspec' => ?_⟩
    · refine hrounds.ready_sorted.imp_of_mem fun hspec hspec' hlt => .inr ⟨?_, hlt⟩
      rw [hheight _ hspec, hheight _ hspec']
    · left
      rw [hheight spec' hspec']
      exact Graphs.height_lt (h.short spec hspec)

theorem Layered.of_loops {k : Nat} {r : Except Exn (List EntitySpec)}
    (hrounds : registry.Rounds remaining resolved)
    (hknown : ∀ name dep, registry.DependsOn name dep → dep ∈ registry.specs.map (·.name))
    (h : registry.Layered k remaining resolved)
    (hloops : Loops registry.position remaining resolved r) :
    ∀ order, r = .ok order → ∃ k, registry.Layered k [] order := by
  induction hloops generalizing k with
  | done resolved =>
      intro order horder
      cases horder
      exact ⟨k, h⟩
  | stuck resolved hne hready =>
      intro order horder
      cases horder
  | round hready _ ih => exact ih (hrounds.round _) (h.round hrounds hknown)

/-- The loop of `resolve_sync_order` ends, with a `ValueError` exactly if some
dependency is unknown or cyclic, and else with the registry in a topological
order, sorted by the longest dependency chains and then by position. -/
theorem sync_order_sorted (registry : Registry) :
    (∀ r, Loops registry.position registry.specs [] r ↔ r = registry.resolveSyncOrder) ∧
    ((∃ exc, registry.resolveSyncOrder = .error exc) ↔ registry.Unresolvable) ∧
    (∀ exc, registry.resolveSyncOrder = .error exc → exc.kind = .valueError) ∧
    ∀ order, registry.resolveSyncOrder = .ok order →
      order.Perm registry.specs ∧ DepsFirst order ∧
        (∀ spec ∈ order, IsGreatest {n | Graphs.Chain registry.DependsOn spec.name n}
          (Graphs.height registry.DependsOn spec.name)) ∧
        order.Pairwise registry.Before := by
  have hloops := registry.loops_resolveSyncOrder
  obtain ⟨hok, herror⟩ := (Rounds.init registry).of_loops hloops
  refine ⟨fun r => ⟨fun h => h.unique hloops, ?_⟩, ⟨?_, fun hbad => ?_⟩,
    fun exc hexc => (herror exc hexc).1, fun order horder => ?_⟩
  · -- the loop ends in the order
    rintro rfl
    exact hloops
  · -- it raises only where some dependency cannot be met
    rintro ⟨exc, hexc⟩
    exact (herror exc hexc).2
  · -- and where one cannot be met it raises
    cases hresolve : registry.resolveSyncOrder with
    | error exc => exact ⟨exc, rfl⟩
    | ok order => exact absurd hbad (hok order hresolve).not_unresolvable
  · -- each round is one layer of the order
    have hrounds := hok order horder
    have hstart : registry.Layered 0 registry.specs [] :=
      ⟨by simp, fun spec _ => .nil spec.name, .nil⟩
    obtain ⟨k, hlayered⟩ := Layered.of_loops (Rounds.init registry)
      (fun _ _ hdepends => hrounds.known hdepends) hstart hloops order horder
    refine ⟨by simpa using hrounds.perm, hrounds.depsFirst, fun spec hspec => ?_,
      hlayered.sorted⟩
    exact Graphs.isGreatest_height (hlayered.short spec hspec)

end Registry

end TallyConnector
