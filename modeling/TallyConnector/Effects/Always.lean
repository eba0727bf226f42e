import TallyConnector.Effects.Prog

/-! # Runs with nondeterministic answers

A relation says how each call may be answered and what the answer does to the
world. `Runs` are the complete runs of a program under it, `Always` is the
weakest precondition over all of them, with a rule for each way to put
programs together, and `play` carries out one run.
-/

namespace Effects

namespace Prog

variable {E : Type} {R : E → Type} {ε W C α β : Type}

/-- The call `e` in the world `w` can be answered `a`, leaving `w'`. -/
abbrev Answering (R : E → Type) (W : Type) := (e : E) → W → R e → W → Prop

section runs

variable (step : Answering R W)

/-- A complete run, with what it returns or raises. -/
def Runs : Prog R ε α → W → Except ε α → W → Prop
  | .ret a, w, r, w' => r = .ok a ∧ w' = w
  | .raise x, w, r, w' => r = .error x ∧ w' = w
  | .call e k, w, r, w' => ∃ a w₁, step e w a w₁ ∧ (k a).Runs w₁ r w'

/-- Every complete run ends in `Q`. -/
def Always (Q : Except ε α → W → Prop) : Prog R ε α → W → Prop
  | .ret a, w => Q (.ok a) w
  | .raise x, w => Q (.error x) w
  | .call e k, w => ∀ a w₁, step e w a w₁ → (k a).Always Q w₁

end runs

variable {step : Answering R W} {Q : Except ε α → W → Prop} {w : W}

@[simp] theorem always_ret {a : α} : (Prog.ret a : Prog R ε α).Always step Q w ↔ Q (.ok a) w :=
  Iff.rfl

@[simp] theorem always_raise {x : ε} :
    (Prog.raise x : Prog R ε α).Always step Q w ↔ Q (.error x) w := Iff.rfl

/-- What holds after every run holds after this one. -/
theorem Always.of_runs {p : Prog R ε α} {r : Except ε α} {w' : W} (h : p.Always step Q w)
    (hrun : p.Runs step w r w') : Q r w' := by
  induction p generalizing w with
  | ret a =>
      obtain ⟨rfl, rfl⟩ := hrun
      exact h
  | raise x =>
      obtain ⟨rfl, rfl⟩ := hrun
      exact h
  | call e k ih =>
      obtain ⟨a, w₁, hstep, hrest⟩ := hrun
      exact ih a (h a w₁ hstep) hrest

/-- Rule of consequence. -/
theorem Always.mono {Q' : Except ε α → W → Prop} {p : Prog R ε α} (h : p.Always step Q w)
    (hQ : ∀ r w', Q r w' → Q' r w') : p.Always step Q' w := by
  induction p generalizing w with
  | ret a => exact hQ _ _ h
  | raise x => exact hQ _ _ h
  | call e k ih =>
      intro a w₁ hstep
      exact ih a (h a w₁ hstep)

theorem Always.bind {Q : Except ε β → W → Prop} {p : Prog R ε α} {f : α → Prog R ε β}
    (h : p.Always step (fun r w' => match r with
      | .ok a => (f a).Always step Q w'
      | .error x => Q (.error x) w') w) : (p >>= f).Always step Q w := by
  induction p generalizing w with
  | ret a => exact h
  | raise x => exact h
  | call e k ih =>
      intro a w₁ hstep
      exact ih a (h a w₁ hstep)

theorem Always.tryCatch {p : Prog R ε α} {f : ε → Prog R ε α}
    (h : p.Always step (fun r w' => match r with
      | .ok a => Q (.ok a) w'
      | .error x => (f x).Always step Q w') w) :
    (MonadExcept.tryCatch p f).Always step Q w := by
  induction p generalizing w with
  | ret a => exact h
  | raise x => exact h
  | call e k ih =>
      intro a w₁ hstep
      exact ih a (h a w₁ hstep)

theorem Always.ofExcept {r : Except ε α} (h : Q r w) : (Prog.ofExcept r).Always step Q w := by
  cases r with
  | ok a => exact h
  | error x => exact h

theorem Always.and {Q' : Except ε α → W → Prop} {p : Prog R ε α} (h : p.Always step Q w)
    (h' : p.Always step Q' w) : p.Always step (fun r w' => Q r w' ∧ Q' r w') w := by
  induction p generalizing w with
  | ret a => exact ⟨h, h'⟩
  | raise x => exact ⟨h, h'⟩
  | call e k ih =>
      intro a w₁ hstep
      exact ih a (h a w₁ hstep) (h' a w₁ hstep)

/-- Wherever a program ends, one of its runs led there. -/
theorem always_runs (p : Prog R ε α) (w : W) :
    p.Always step (fun r w' => p.Runs step w r w') w := by
  induction p generalizing w with
  | ret a => exact ⟨rfl, rfl⟩
  | raise x => exact ⟨rfl, rfl⟩
  | call e k ih =>
      intro a w₁ hstep
      exact (ih a w₁).mono fun r w' hrest => ⟨a, w₁, hstep, hrest⟩

/-- The run itself is among what is known at its end. -/
theorem Always.with_runs {p : Prog R ε α} (h : p.Always step Q w) :
    p.Always step (fun r w' => p.Runs step w r w' ∧ Q r w') w :=
  (always_runs p w).and h

/-- Frame rule: how the calls of a program may change the world, the program
may. -/
theorem Runs.of_all {I : W → W → Prop} {P : E → Prop} {p : Prog R ε α} (hp : p.All P)
    (hrefl : ∀ w, I w w) (htrans : ∀ {w w₁ w₂}, I w w₁ → I w₁ w₂ → I w w₂)
    (hstep : ∀ e w a w', P e → step e w a w' → I w w') {r : Except ε α} {w' : W}
    (hrun : p.Runs step w r w') : I w w' := by
  induction p generalizing w with
  | ret a => exact hrun.2 ▸ hrefl w
  | raise x => exact hrun.2 ▸ hrefl w
  | call e k ih =>
      obtain ⟨a, w₁, hcall, hrest⟩ := hrun
      exact htrans (hstep e w a w₁ hp.1 hcall) (ih a (hp.2 a) hrest)

/-! ## Carrying out a run -/

/-- Answer the calls as the choices say; `none` when a choice does not fit. -/
def play (exec : (e : E) → C → W → Option (R e × W)) :
    List C → Prog R ε α → W → Option (Except ε α × W)
  | _, .ret a, w => some (.ok a, w)
  | _, .raise x, w => some (.error x, w)
  | [], .call _ _, _ => none
  | c :: cs, .call e k, w => (exec e c w).bind fun answer => play exec cs (k answer.1) answer.2

/-- A run that was carried out is a run. -/
theorem runs_of_play {exec : (e : E) → C → W → Option (R e × W)}
    (hexec : ∀ e c w a w', exec e c w = some (a, w') → step e w a w') {cs : List C}
    {p : Prog R ε α} {r : Except ε α} {w' : W} (h : play exec cs p w = some (r, w')) :
    p.Runs step w r w' := by
  induction p generalizing w cs with
  | ret a =>
      cases cs <;> cases h <;> exact ⟨rfl, rfl⟩
  | raise x =>
      cases cs <;> cases h <;> exact ⟨rfl, rfl⟩
  | call e k ih =>
      cases cs with
      | nil => cases h
      | cons c cs =>
          obtain ⟨⟨a, w₁⟩, hanswer, hrest⟩ := Option.bind_eq_some_iff.mp h
          exact ⟨a, w₁, hexec e c w a w₁ hanswer, ih a hrest⟩

end Prog

end Effects
