import TallyConnector.Effects.Always

/-! # Two runs side by side

Two programs are alike when they make linked calls and, as long as linked calls
are answered in the same way, go on alike to the same end. What may differ
between them, and what counts as the same answer, is up to the link. Runs of
two programs that are alike stay side by side.
-/

namespace Effects

namespace Prog

variable {E : Type} {R : E → Type} {ε W α α' β β' : Type}

/-- Which calls go together, and which answers to them are the same. -/
abbrev Linking (R : E → Type) := (e e' : E) → (R e → R e' → Prop) → Prop

/-- The programs make linked calls, and if these are answered the same, they
raise the same exception or return related values. -/
def Alike (link : Linking R) (V : α → α' → Prop) : Prog R ε α → Prog R ε α' → Prop
  | .ret a, .ret a' => V a a'
  | .raise x, .raise x' => x = x'
  | .call e k, .call e' k' =>
      ∃ same, link e e' same ∧ ∀ r r', same r r' → (k r).Alike link V (k' r')
  | _, _ => False

variable {link : Linking R} {V : α → α' → Prop} {U : β → β' → Prop}

namespace Alike

theorem bind {p : Prog R ε α} {p' : Prog R ε α'} {f : α → Prog R ε β} {f' : α' → Prog R ε β'}
    (h : p.Alike link V p') (hf : ∀ a a', V a a' → (f a).Alike link U (f' a')) :
    (p >>= f).Alike link U (p' >>= f') := by
  induction p generalizing p' with
  | ret a =>
      cases p' with
      | ret a' => exact hf a a' h
      | _ => exact h.elim
  | raise x =>
      cases p' with
      | raise x' => exact h
      | _ => exact h.elim
  | call e k ih =>
      cases p' with
      | call e' k' =>
          obtain ⟨same, hlink, hrest⟩ := h
          exact ⟨same, hlink, fun r r' hr => ih r (hrest r r' hr)⟩
      | _ => exact h.elim

theorem bind_eq {p p' : Prog R ε α} {f : α → Prog R ε β} {f' : α → Prog R ε β'}
    (h : p.Alike link Eq p') (hf : ∀ a, (f a).Alike link U (f' a)) :
    (p >>= f).Alike link U (p' >>= f') := by
  refine h.bind ?_
  rintro a _ rfl
  exact hf a

theorem tryCatch {p : Prog R ε α} {p' : Prog R ε α'} {f : ε → Prog R ε α} {f' : ε → Prog R ε α'}
    (h : p.Alike link V p') (hf : ∀ x, (f x).Alike link V (f' x)) :
    Alike link V (MonadExcept.tryCatch p f) (MonadExcept.tryCatch p' f') := by
  induction p generalizing p' with
  | ret a =>
      cases p' with
      | ret a' => exact h
      | _ => exact h.elim
  | raise x =>
      cases p' with
      | raise x' =>
          obtain rfl : x = x' := h
          exact hf x
      | _ => exact h.elim
  | call e k ih =>
      cases p' with
      | call e' k' =>
          obtain ⟨same, hlink, hrest⟩ := h
          exact ⟨same, hlink, fun r r' hr => ih r (hrest r r' hr)⟩
      | _ => exact h.elim

/-- One pair of linked calls. -/
theorem perform {e e' : E} {same : R e → R e' → Prop} (h : link e e' same) :
    (Prog.perform e : Prog R ε (R e)).Alike link same (Prog.perform e') :=
  ⟨same, h, fun _ _ hr => hr⟩

/-- A program whose calls must be answered by equals is like itself. -/
theorem of_all {p : Prog R ε α} (h : p.All fun e => link e e Eq) : p.Alike link Eq p := by
  induction p with
  | ret a => exact rfl
  | raise x => exact rfl
  | call e k ih =>
      refine ⟨Eq, h.1, ?_⟩
      rintro r _ rfl
      exact ih r (h.2 r)

end Alike

/-! ## Runs -/

section runs

variable {step : Answering R W}

/-- What a step cannot bring about held before a run. -/
theorem Runs.back {F : W → Prop} (hback : ∀ e w r w', step e w r w' → F w' → F w)
    {p : Prog R ε α} {r : Except ε α} {w w' : W} (h : p.Runs step w r w') (hF : F w') : F w := by
  induction p generalizing w with
  | ret a => exact h.2 ▸ hF
  | raise x => exact h.2 ▸ hF
  | call e k ih =>
      obtain ⟨a, w₁, hstep, hrest⟩ := h
      exact hback e w a w₁ hstep (ih a hrest)

/-- Runs of programs that are alike keep a relation between the worlds, if two
linked calls do; `F` and `G` may be used of the worlds they lead to when they
hold in the end. -/
theorem Alike.runs {F G : W → Prop} {I : W → W → Prop}
    (hF : ∀ e w r w', step e w r w' → F w' → F w) (hG : ∀ e w r w', step e w r w' → G w' → G w)
    (hstep : ∀ e e' same w v r w' r' v', link e e' same → I w v → step e w r w' →
      step e' v r' v' → F w' → G v' → same r r' ∧ I w' v')
    {p : Prog R ε α} {p' : Prog R ε α'} (h : p.Alike link V p') {w v w' v' : W} (hI : I w v)
    {r : Except ε α} {r' : Except ε α'} (hrun : p.Runs step w r w') (hrun' : p'.Runs step v r' v')
    (hw' : F w') (hv' : G v') : I w' v' := by
  induction p generalizing p' w v with
  | ret a =>
      cases p' with
      | ret a' => exact hrun.2 ▸ hrun'.2 ▸ hI
      | _ => exact h.elim
  | raise x =>
      cases p' with
      | raise x' => exact hrun.2 ▸ hrun'.2 ▸ hI
      | _ => exact h.elim
  | call e k ih =>
      cases p' with
      | call e' k' =>
          obtain ⟨same, hlink, hrest⟩ := h
          obtain ⟨a, w₁, hcall, hruns⟩ := hrun
          obtain ⟨a', v₁, hcall', hruns'⟩ := hrun'
          obtain ⟨hsame, hI₁⟩ := hstep e e' same w v a w₁ a' v₁ hlink hI hcall hcall'
            (hruns.back hF hw') (hruns'.back hG hv')
          exact ih a (hrest a a' hsame) hI₁ hruns hruns'
      | _ => exact h.elim

end runs

end Prog

end Effects
