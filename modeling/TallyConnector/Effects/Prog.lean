import Mathlib.Tactic.Common

/-! # Programs as trees of their outside calls

A program that talks to the outside world is the tree of its calls: it
returns, raises an exception, or performs a call `e : E` and continues with
whatever answer `R e` comes back. Everything between two calls is ordinary
Lean code. The tree fixes *which* calls are made and in which order; what a
call does is left to the semantics:

* `Prog.run` answers every call by a deterministic handler and gives the
  result and the final world — the semantics for "one run against this
  environment";
* the interleaving semantics with failures and crashes is in
  `Effects/Machine.lean`.
-/

namespace Effects

/-- A program over the calls `E` with answers `R`, exceptions `ε` and result
`α`. -/
inductive Prog {E : Type} (R : E → Type) (ε α : Type) where
  | ret (a : α)
  | raise (x : ε)
  | call (e : E) (k : R e → Prog R ε α)

namespace Prog

variable {E : Type} {R : E → Type} {ε α β γ W : Type}

/-- Sequencing: an exception skips the rest. -/
def bind : Prog R ε α → (α → Prog R ε β) → Prog R ε β
  | .ret a, f => f a
  | .raise x, _ => .raise x
  | .call e k, f => .call e fun r => (k r).bind f

/-- `try p except h`. -/
def handle : Prog R ε α → (ε → Prog R ε α) → Prog R ε α
  | .ret a, _ => .ret a
  | .raise x, h => h x
  | .call e k, h => .call e fun r => (k r).handle h

instance : Monad (Prog R ε) where
  pure := .ret
  bind := .bind

instance : MonadExceptOf ε (Prog R ε) where
  throw := .raise
  tryCatch := .handle

/-- Perform one call. -/
def perform (e : E) : Prog R ε (R e) := .call e .ret

/-- Continue with a value that may be an exception. -/
def ofExcept : Except ε α → Prog R ε α
  | .ok a => .ret a
  | .error x => .raise x

/-! ## Computation rules -/

@[simp] theorem pure_eq (a : α) : (pure a : Prog R ε α) = .ret a := rfl

@[simp] theorem throw_eq (x : ε) : (throw x : Prog R ε α) = .raise x := rfl

@[simp] theorem ret_bind (a : α) (f : α → Prog R ε β) : (Prog.ret a >>= f) = f a := rfl

@[simp] theorem raise_bind (x : ε) (f : α → Prog R ε β) :
    (Prog.raise x >>= f) = .raise x := rfl

@[simp] theorem call_bind (e : E) (k : R e → Prog R ε α) (f : α → Prog R ε β) :
    (Prog.call e k >>= f) = .call e fun r => k r >>= f := rfl

@[simp] theorem perform_bind (e : E) (f : R e → Prog R ε β) :
    (perform e >>= f) = .call e f := rfl

@[simp] theorem tryCatch_ret (a : α) (h : ε → Prog R ε α) :
    tryCatch (Prog.ret a : Prog R ε α) h = .ret a := rfl

@[simp] theorem tryCatch_raise (x : ε) (h : ε → Prog R ε α) :
    tryCatch (Prog.raise x : Prog R ε α) h = h x := rfl

@[simp] theorem tryCatch_call (e : E) (k : R e → Prog R ε α) (h : ε → Prog R ε α) :
    tryCatch (Prog.call e k) h = .call e fun r => tryCatch (k r) h := rfl

@[simp] theorem ofExcept_ok (a : α) : (ofExcept (.ok a) : Prog R ε α) = .ret a := rfl

@[simp] theorem ofExcept_error (x : ε) :
    (ofExcept (.error x) : Prog R ε α) = .raise x := rfl

theorem bind_assoc (p : Prog R ε α) (f : α → Prog R ε β) (g : β → Prog R ε γ) :
    (p >>= f >>= g) = (p >>= fun a => f a >>= g) := by
  induction p with
  | ret a => rfl
  | raise x => rfl
  | call e k ih => exact congrArg (Prog.call e) (funext ih)

/-! ## Running against a handler -/

/-- Run a program, answering every call by `h`. -/
def run (h : (e : E) → W → R e × W) : Prog R ε α → W → Except ε α × W
  | .ret a, w => (.ok a, w)
  | .raise x, w => (.error x, w)
  | .call e k, w => (k (h e w).1).run h (h e w).2

variable (h : (e : E) → W → R e × W)

@[simp] theorem run_ret (a : α) (w : W) :
    (Prog.ret a : Prog R ε α).run h w = (.ok a, w) := rfl

@[simp] theorem run_raise (x : ε) (w : W) :
    (Prog.raise x : Prog R ε α).run h w = (.error x, w) := rfl

@[simp] theorem run_call (e : E) (k : R e → Prog R ε α) (w : W) :
    (Prog.call e k).run h w = (k (h e w).1).run h (h e w).2 := rfl

@[simp] theorem run_perform (e : E) (w : W) :
    (perform e : Prog R ε (R e)).run h w = (.ok (h e w).1, (h e w).2) := rfl

@[simp] theorem run_ofExcept (r : Except ε α) (w : W) :
    (ofExcept r : Prog R ε α).run h w = (r, w) := by
  cases r <;> rfl

/-- Running a sequence runs the second program where the first one ended. -/
theorem run_bind (p : Prog R ε α) (f : α → Prog R ε β) (w : W) :
    (p >>= f).run h w =
      match p.run h w with
      | (.ok a, w') => (f a).run h w'
      | (.error x, w') => (.error x, w') := by
  induction p generalizing w with
  | ret a => rfl
  | raise x => rfl
  | call e k ih => exact ih (h e w).1 (h e w).2

/-- Running `try p except f` runs `f` where `p` raised. -/
theorem run_tryCatch (p : Prog R ε α) (f : ε → Prog R ε α) (w : W) :
    (tryCatch p f).run h w =
      match p.run h w with
      | (.ok a, w') => (.ok a, w')
      | (.error x, w') => (f x).run h w' := by
  induction p generalizing w with
  | ret a => rfl
  | raise x => rfl
  | call e k ih => exact ih (h e w).1 (h e w).2

/-- A sequence whose first program is known to return. -/
theorem run_bind_ok {p : Prog R ε α} {f : α → Prog R ε β} {w w' : W} {a : α}
    (hp : p.run h w = (.ok a, w')) : (p >>= f).run h w = (f a).run h w' := by
  rw [run_bind, hp]

/-- A sequence whose first program is known to raise. -/
theorem run_bind_error {p : Prog R ε α} {f : α → Prog R ε β} {w w' : W} {x : ε}
    (hp : p.run h w = (.error x, w')) : (p >>= f).run h w = (.error x, w') := by
  rw [run_bind, hp]

/-- A protected program that is known to return. -/
theorem run_tryCatch_ok {p : Prog R ε α} {f : ε → Prog R ε α} {w w' : W} {a : α}
    (hp : p.run h w = (.ok a, w')) : (tryCatch p f).run h w = (.ok a, w') := by
  rw [run_tryCatch, hp]

/-- A protected program that is known to raise. -/
theorem run_tryCatch_error {p : Prog R ε α} {f : ε → Prog R ε α} {w w' : W} {x : ε}
    (hp : p.run h w = (.error x, w')) :
    (tryCatch p f).run h w = (f x).run h w' := by
  rw [run_tryCatch, hp]

/-! ## The calls of a program -/

/-- Every call the program can make satisfies `P`. -/
def All (P : E → Prop) : Prog R ε α → Prop
  | .ret _ => True
  | .raise _ => True
  | .call e k => P e ∧ ∀ r, (k r).All P

variable {P : E → Prop}

@[simp] theorem all_ret (a : α) : (Prog.ret a : Prog R ε α).All P := trivial

@[simp] theorem all_raise (x : ε) : (Prog.raise x : Prog R ε α).All P := trivial

@[simp] theorem all_call (e : E) (k : R e → Prog R ε α) :
    (Prog.call e k).All P ↔ P e ∧ ∀ r, (k r).All P := Iff.rfl

@[simp] theorem all_perform (e : E) : (perform e : Prog R ε (R e)).All P ↔ P e := by
  simp [perform]

@[simp] theorem all_ofExcept (r : Except ε α) : (ofExcept r : Prog R ε α).All P := by
  cases r <;> trivial

theorem All.bind {p : Prog R ε α} {f : α → Prog R ε β} (hp : p.All P)
    (hf : ∀ a, (f a).All P) : (p >>= f).All P := by
  induction p with
  | ret a => exact hf a
  | raise x => trivial
  | call e k ih => exact ⟨hp.1, fun r => ih r (hp.2 r)⟩

theorem All.tryCatch {p : Prog R ε α} {f : ε → Prog R ε α} (hp : p.All P)
    (hf : ∀ x, (f x).All P) : (MonadExcept.tryCatch p f).All P := by
  induction p with
  | ret a => trivial
  | raise x => exact hf x
  | call e k ih => exact ⟨hp.1, fun r => ih r (hp.2 r)⟩

theorem all_true (p : Prog R ε α) : p.All fun _ => True := by
  induction p with
  | ret a => trivial
  | raise x => trivial
  | call e k ih => exact ⟨trivial, ih⟩

theorem All.mono {P' : E → Prop} {p : Prog R ε α} (hp : p.All P) (h : ∀ e, P e → P' e) :
    p.All P' := by
  induction p with
  | ret a => trivial
  | raise x => trivial
  | call e k ih => exact ⟨h e hp.1, fun r => ih r (hp.2 r)⟩

/-- Every value the program can return satisfies `Q`, however its calls are
answered. -/
def Yields (Q : α → Prop) : Prog R ε α → Prop
  | .ret a => Q a
  | .raise _ => True
  | .call _ k => ∀ r, (k r).Yields Q

theorem Yields.bind {Q : β → Prop} {p : Prog R ε α} {f : α → Prog R ε β}
    (hf : ∀ a, (f a).Yields Q) : (p >>= f).Yields Q := by
  induction p with
  | ret a => exact hf a
  | raise x => trivial
  | call e k ih => exact fun r => ih r

theorem Yields.tryCatch {Q : α → Prop} {p : Prog R ε α} {f : ε → Prog R ε α} (hp : p.Yields Q)
    (hf : ∀ x, (f x).Yields Q) : (MonadExcept.tryCatch p f).Yields Q := by
  induction p with
  | ret a => exact hp
  | raise x => exact hf x
  | call e k ih => exact fun r => ih r (hp r)

/-- The second program is only asked about what the first one can return. -/
theorem All.bind_yields {Q : α → Prop} {p : Prog R ε α} {f : α → Prog R ε β} (hp : p.All P)
    (hyields : p.Yields Q) (hf : ∀ a, Q a → (f a).All P) : (p >>= f).All P := by
  induction p with
  | ret a => exact hf a hyields
  | raise x => trivial
  | call e k ih => exact ⟨hp.1, fun r => ih r (hp.2 r) (hyields r)⟩

/-! ## Comparing runs -/

section compare

variable {h}

/-- What every call of the program keeps, the program keeps. -/
theorem run_keeps {I : W → Prop} (hstep : ∀ e w, P e → I w → I (h e w).2)
    {p : Prog R ε α} (hp : p.All P) {w : W} (hw : I w) : I (p.run h w).2 := by
  induction p generalizing w with
  | ret a => exact hw
  | raise x => exact hw
  | call e k ih => exact ih (h e w).1 (hp.2 _) (hstep e w hp.1 hw)

/-- Two runs whose calls are answered alike end alike. -/
theorem run_rel {W' : Type} {h' : (e : E) → W' → R e × W'} {rel : W → W' → Prop}
    (hstep : ∀ e w w', P e → rel w w' →
      (h e w).1 = (h' e w').1 ∧ rel (h e w).2 (h' e w').2)
    {p : Prog R ε α} (hp : p.All P) {w : W} {w' : W'} (hw : rel w w') :
    (p.run h w).1 = (p.run h' w').1 ∧ rel (p.run h w).2 (p.run h' w').2 := by
  induction p generalizing w w' with
  | ret a => exact ⟨rfl, hw⟩
  | raise x => exact ⟨rfl, hw⟩
  | call e k ih =>
      have hanswer := hstep e w w' hp.1 hw
      rw [run_call, run_call, hanswer.1]
      exact ih _ (hp.2 _) hanswer.2

end compare

/-! ## Postconditions of runs -/

/-- The run ends in `Q`. -/
def Ensures (h : (e : E) → W → R e × W) (Q : Except ε α → W → Prop) (p : Prog R ε α) (w : W) :
    Prop :=
  Q (p.run h w).1 (p.run h w).2

section ensures

variable {h} {Q : Except ε α → W → Prop} {w : W}

theorem Ensures.mono {Q' : Except ε α → W → Prop} {p : Prog R ε α} (hp : p.Ensures h Q w)
    (hQ : ∀ r w, Q r w → Q' r w) : p.Ensures h Q' w := hQ _ _ hp

/-- What every call of the program keeps, it ensures. -/
theorem Ensures.of_all {I : W → Prop} {P : E → Prop} {p : Prog R ε α} (hp : p.All P)
    (hstep : ∀ e w, P e → I w → I (h e w).2) (hw : I w) : p.Ensures h (fun _ w' => I w') w :=
  run_keeps hstep hp hw

theorem Ensures.bind {Q : Except ε β → W → Prop} {p : Prog R ε α} {f : α → Prog R ε β}
    (hp : p.Ensures h (fun r w' => match r with
      | .ok a => (f a).Ensures h Q w'
      | .error x => Q (.error x) w') w) : (p >>= f).Ensures h Q w := by
  unfold Ensures at hp ⊢
  rw [run_bind]
  rcases hrun : p.run h w with ⟨x | a, w'⟩
  · simpa only [hrun] using hp
  · simpa only [hrun] using hp

/-- Sequencing after a program whose end is known. -/
theorem Ensures.bind_run {Q : Except ε β → W → Prop} {p : Prog R ε α} {f : α → Prog R ε β}
    {a : α} {w' : W} (hp : p.run h w = (.ok a, w')) (hf : (f a).Ensures h Q w') :
    (p >>= f).Ensures h Q w := by
  unfold Ensures at hf ⊢
  rw [run_bind_ok h hp]
  exact hf

theorem Ensures.tryCatch {p : Prog R ε α} {f : ε → Prog R ε α}
    (hp : p.Ensures h (fun r w' => match r with
      | .ok a => Q (.ok a) w'
      | .error x => (f x).Ensures h Q w') w) : (MonadExcept.tryCatch p f).Ensures h Q w := by
  unfold Ensures at hp ⊢
  rw [run_tryCatch]
  rcases hrun : p.run h w with ⟨x | a, w'⟩
  · simpa only [hrun] using hp
  · simpa only [hrun] using hp

theorem Ensures.ofExcept {r : Except ε α} (hr : Q r w) : (Prog.ofExcept r).Ensures h Q w := by
  cases r with
  | ok a => exact hr
  | error x => exact hr

end ensures

end Prog

end Effects
