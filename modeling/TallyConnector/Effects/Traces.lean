import TallyConnector.Effects.Prog

/-! # What a run calls, and how often

`Prog.Obeys` follows a program with a watch: each call is one that the watch
allows in the state that the answers so far have left it in. With everything
called so far as the state, that is a statement about the traces of the program,
those of runs that were cut short included (`Prog.Obeys.traced`).

`Prog.Within` bounds how many costly calls a run makes; a meter turns the bound
into what a watch allows (`Prog.Within.obeys`).
-/

namespace Effects

namespace Prog

variable {E S : Type} {R : E → Type} {ε α β : Type}

/-! ## Watched programs -/

/-- However the calls are answered: each call is allowed in the state of the
watch, and a program that ends leaves the watch in `Q`. -/
def Obeys (allowed : S → E → Prop) (watch : S → (e : E) → R e → S) (Q : Except ε α → S → Prop) :
    Prog R ε α → S → Prop
  | .ret a, s => Q (.ok a) s
  | .raise x, s => Q (.error x) s
  | .call e k, s => allowed s e ∧ ∀ r, (k r).Obeys allowed watch Q (watch s e r)

variable {allowed : S → E → Prop} {watch : S → (e : E) → R e → S} {Q : Except ε α → S → Prop}
variable {s : S}

theorem Obeys.mono {Q' : Except ε α → S → Prop} {p : Prog R ε α} (h : p.Obeys allowed watch Q s)
    (hQ : ∀ r s, Q r s → Q' r s) : p.Obeys allowed watch Q' s := by
  induction p generalizing s with
  | ret a => exact hQ _ _ h
  | raise x => exact hQ _ _ h
  | call e k ih => exact ⟨h.1, fun r => ih r (h.2 r)⟩

theorem Obeys.bind {Q : Except ε β → S → Prop} {p : Prog R ε α} {f : α → Prog R ε β}
    (h : p.Obeys allowed watch (fun r s' => match r with
      | .ok a => (f a).Obeys allowed watch Q s'
      | .error x => Q (.error x) s') s) : (p >>= f).Obeys allowed watch Q s := by
  induction p generalizing s with
  | ret a => exact h
  | raise x => exact h
  | call e k ih => exact ⟨h.1, fun r => ih r (h.2 r)⟩

/-- What holds of the watch at first and is kept by the allowed calls holds at
every call. -/
theorem Obeys.all {I : S → Prop} {p : Prog R ε α} (h : p.Obeys allowed watch Q s) (hs : I s)
    (hstep : ∀ s e r, I s → allowed s e → I (watch s e r)) :
    p.All fun e => ∃ s, I s ∧ allowed s e := by
  induction p generalizing s with
  | ret a => trivial
  | raise x => trivial
  | call e k ih => exact ⟨⟨s, hs, h.1⟩, fun r => ih r (h.2 r) (hstep s e r hs h.1)⟩

theorem Obeys.tryCatch {p : Prog R ε α} {f : ε → Prog R ε α}
    (h : p.Obeys allowed watch (fun r s' => match r with
      | .ok a => Q (.ok a) s'
      | .error x => (f x).Obeys allowed watch Q s') s) :
    (MonadExcept.tryCatch p f).Obeys allowed watch Q s := by
  induction p generalizing s with
  | ret a => exact h
  | raise x => exact h
  | call e k ih => exact ⟨h.1, fun r => ih r (h.2 r)⟩

theorem Obeys.ofExcept {r : Except ε α} (h : Q r s) :
    (Prog.ofExcept r).Obeys allowed watch Q s := by
  cases r with
  | ok a => exact h
  | error x => exact h

/-- A watch that allows more is obeyed as well. -/
theorem Obeys.weaken {allowed' : S → E → Prop} {p : Prog R ε α} (h : p.Obeys allowed watch Q s)
    (hallowed : ∀ s e, allowed s e → allowed' s e) : p.Obeys allowed' watch Q s := by
  induction p generalizing s with
  | ret a => exact h
  | raise x => exact h
  | call e k ih => exact ⟨hallowed s e h.1, fun r => ih r (h.2 r)⟩

/-! ## Traces -/

/-- Calls with their answers. -/
abbrev Trace (R : E → Type) := List (Σ e, R e)

/-- The calls of a run, in order; the run may be cut short after any of them. -/
inductive Traces : Prog R ε α → Trace R → Prop
  | cut (p : Prog R ε α) : Traces p []
  | call {e : E} {k : R e → Prog R ε α} {t : Trace R} (r : R e) (h : Traces (k r) t) :
      Traces (.call e k) (⟨e, r⟩ :: t)

/-- Watched by all that was called before, the latest first. -/
abbrev Heeds (allowed : Trace R → E → Prop) (Q : Except ε α → Trace R → Prop) (p : Prog R ε α)
    (past : Trace R) : Prop :=
  p.Obeys allowed (fun past e r => ⟨e, r⟩ :: past) Q past

/-- Each call of a trace is allowed after those before it. -/
theorem Obeys.traced {allowed : Trace R → E → Prop} {Q : Except ε α → Trace R → Prop}
    {p : Prog R ε α} {past t : Trace R} (h : p.Heeds allowed Q past) (ht : p.Traces t)
    (n : Nat) (hn : n < t.length) :
    allowed ((t.take n).reverse ++ past) (t.get ⟨n, hn⟩).1 := by
  induction ht generalizing past n with
  | cut p => exact absurd hn (Nat.not_lt_zero n)
  | @call e k t r ht ih =>
    cases n with
    | zero => exact h.1
    | succ n =>
      have hrest := ih (h.2 r) n (Nat.lt_of_succ_lt_succ hn)
      rw [List.take_succ_cons, List.reverse_cons, List.append_assoc]
      exact hrest

/-- The trace of a run whose calls are answered as the choices say. -/
def record {C W : Type} (exec : (e : E) → C → W → Option (R e × W)) :
    List C → Prog R ε α → W → Trace R
  | c :: cs, .call e k, w =>
      match exec e c w with
      | some answer => ⟨e, answer.1⟩ :: record exec cs (k answer.1) answer.2
      | none => []
  | _, _, _ => []

theorem traces_record {C W : Type} (exec : (e : E) → C → W → Option (R e × W)) (cs : List C)
    (p : Prog R ε α) (w : W) : p.Traces (p.record exec cs w) := by
  induction p generalizing cs w with
  | ret a => cases cs <;> exact .cut _
  | raise x => cases cs <;> exact .cut _
  | call e k ih =>
    cases cs with
    | nil => exact .cut _
    | cons c cs =>
      unfold record
      split
      · exact .call _ (ih _ _ _)
      · exact .cut _

/-! ## Costs -/

variable (costs free : E → Prop)

/-- A run makes at most so many costly calls, and otherwise only free ones. -/
def Within : Prog R ε α → Nat → Prop
  | .ret _, _ => True
  | .raise _, _ => True
  | .call e k, n =>
      (free e ∧ ∀ r, (k r).Within n) ∨ (costs e ∧ ∃ m, n = m + 1 ∧ ∀ r, (k r).Within m)

variable {costs free}

theorem Within.mono {p : Prog R ε α} {m n : Nat} (h : p.Within costs free m) (hle : m ≤ n) :
    p.Within costs free n := by
  induction p generalizing m n with
  | ret a => trivial
  | raise x => trivial
  | call e k ih =>
    rcases h with ⟨hfree, hrest⟩ | ⟨hcosts, m, rfl, hrest⟩
    · exact .inl ⟨hfree, fun r => ih r (hrest r) hle⟩
    · obtain ⟨n, rfl⟩ := Nat.exists_eq_add_of_lt hle
      exact .inr ⟨hcosts, m + n, rfl, fun r => ih r (hrest r) (Nat.le_add_right m n)⟩

theorem Within.bind {p : Prog R ε α} {f : α → Prog R ε β} {m n : Nat}
    (hp : p.Within costs free m) (hf : ∀ a, (f a).Within costs free n) :
    (p >>= f).Within costs free (m + n) := by
  induction p generalizing m with
  | ret a => exact (hf a).mono (Nat.le_add_left n m)
  | raise x => trivial
  | call e k ih =>
    rcases hp with ⟨hfree, hrest⟩ | ⟨hcosts, m, rfl, hrest⟩
    · exact .inl ⟨hfree, fun r => ih r (hrest r)⟩
    · exact .inr ⟨hcosts, m + n, Nat.add_right_comm m 1 n, fun r => ih r (hrest r)⟩

theorem Within.tryCatch {p : Prog R ε α} {f : ε → Prog R ε α} {m n : Nat}
    (hp : p.Within costs free m) (hf : ∀ x, (f x).Within costs free n) :
    (MonadExcept.tryCatch p f).Within costs free (m + n) := by
  induction p generalizing m with
  | ret a => trivial
  | raise x => exact (hf x).mono (Nat.le_add_left n m)
  | call e k ih =>
    rcases hp with ⟨hfree, hrest⟩ | ⟨hcosts, m, rfl, hrest⟩
    · exact .inl ⟨hfree, fun r => ih r (hrest r)⟩
    · exact .inr ⟨hcosts, m + n, Nat.add_right_comm m 1 n, fun r => ih r (hrest r)⟩

theorem Within.of_all {p : Prog R ε α} (h : p.All free) : p.Within costs free 0 := by
  induction p with
  | ret a => trivial
  | raise x => trivial
  | call e k ih => exact .inl ⟨h.1, fun r => ih r (h.2 r)⟩

/-- What comes before is free. -/
theorem Within.after {p : Prog R ε α} {f : α → Prog R ε β} {n : Nat} (hp : p.All free)
    (hf : ∀ a, (f a).Within costs free n) : (p >>= f).Within costs free n :=
  (Within.bind (.of_all hp) hf).mono (Nat.le_of_eq (Nat.zero_add n))

/-- What comes after is free. -/
theorem Within.before {p : Prog R ε α} {f : α → Prog R ε β} {n : Nat}
    (hp : p.Within costs free n) (hf : ∀ a, (f a).All free) : (p >>= f).Within costs free n :=
  hp.bind fun a => .of_all (hf a)

/-- `P n` says that the watch allows `n` more costly calls. -/
structure Meter (allowed : S → E → Prop) (watch : S → (e : E) → R e → S) (costs free : E → Prop)
    (P : Nat → S → Prop) : Prop where
  less : ∀ {n s}, P (n + 1) s → P n s
  cost : ∀ {n s e}, costs e → P (n + 1) s → allowed s e ∧ ∀ r, P n (watch s e r)
  free : ∀ {n s e}, free e → P n s → allowed s e ∧ ∀ r, P n (watch s e r)

theorem Meter.le {P : Nat → S → Prop} (hP : Meter allowed watch costs free P) {m n : Nat}
    (hle : m ≤ n) (h : P n s) : P m s := by
  induction hle with
  | refl => exact h
  | step _ ih => exact ih (hP.less h)

theorem Within.obeys {P : Nat → S → Prop} (hP : Meter allowed watch costs free P)
    {p : Prog R ε α} {m n : Nat} (h : p.Within costs free n) (hs : P (m + n) s) :
    p.Obeys allowed watch (fun _ s' => P m s') s := by
  induction p generalizing n s with
  | ret a => exact hP.le (Nat.le_add_right m n) hs
  | raise x => exact hP.le (Nat.le_add_right m n) hs
  | call e k ih =>
    rcases h with ⟨hfree, hrest⟩ | ⟨hcosts, n, rfl, hrest⟩
    · have hstep := hP.free hfree hs
      exact ⟨hstep.1, fun r => ih r (hrest r) (hstep.2 r)⟩
    · have hstep := hP.cost hcosts hs
      exact ⟨hstep.1, fun r => ih r (hrest r) (hstep.2 r)⟩

end Prog

end Effects
