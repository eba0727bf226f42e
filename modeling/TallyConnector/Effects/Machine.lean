import Mathlib.Logic.Relation
import TallyConnector.Effects.Always

/-! # Interleaving, failing and crashing runs

A `Machine` runs one program at a time against a world that also changes on
its own. A run is a sequence of actions:

* `edit` — the environment changes the world, at any moment;
* `start` — an operation is started when none is running;
* `call` — the running program performs its next call; the `Choice` says how
  the environment answers (succeeds, fails, fails after having acted, …);
* `finish` — the program has returned or raised;
* `crash` — the program is lost before its next call, the world stays.

A `quiet` call only touches the memory of the program, so a crash just before
it is a crash just before the call after it.

The proof rule is rely–guarantee: `Safe` follows the tree of a program, lets
the environment edit the world before every call, and asks that each call
stays within the guarantee `G`. If every operation is safe, every reachable
world is connected to an initial one by steps of `G` (`Reach.guarantee`), so
an invariant of `G` holds in every reachable state of every run, crashes
included (`Reach.invariant`).
-/

namespace Effects

structure Machine {E : Type} (R : E → Type) (ε W Op Edit Choice : Type) where
  /-- A change the environment makes on its own. -/
  edit : Edit → W → Option W
  /-- A call, answered as the choice says; `none` when it cannot be. -/
  exec : (e : E) → Choice → W → Option (R e × W)
  /-- Calls that only touch the program's memory. -/
  quiet : E → Bool
  /-- The program of an operation. -/
  prog : Op → Prog R ε Unit

/-- The world and the rest of the running program, if one is running. -/
structure Config {E : Type} (R : E → Type) (ε W : Type) where
  world : W
  task : Option (Prog R ε Unit)

/-- The actions of a run. -/
inductive Act (Op Edit Choice : Type) where
  | edit (x : Edit)
  | start (op : Op)
  | call (c : Choice)
  | finish
  | crash

namespace Machine

variable {E : Type} {R : E → Type} {ε W Op Edit Choice α β : Type}
variable (M : Machine R ε W Op Edit Choice)

/-- One action; `none` when it is not enabled. -/
def next (c : Config R ε W) : Act Op Edit Choice → Option (Config R ε W)
  | .edit x => (M.edit x c.world).map fun w => ⟨w, c.task⟩
  | .start op =>
      match c.task with
      | none => some ⟨c.world, some (M.prog op)⟩
      | some _ => none
  | .call ch =>
      match c.task with
      | some (.call e k) => (M.exec e ch c.world).map fun r => ⟨r.2, some (k r.1)⟩
      | _ => none
  | .finish =>
      match c.task with
      | some (.ret _) => some ⟨c.world, none⟩
      | some (.raise _) => some ⟨c.world, none⟩
      | _ => none
  | .crash =>
      match c.task with
      | some (.call e _) => if M.quiet e then none else some ⟨c.world, none⟩
      | _ => none

/-- What is assumed of the environment's answers: a condition on the call, the
choice and the world before the call. -/
abbrev Assumption (E W Choice : Type) := E → Choice → W → Prop

/-- An action respects the assumption. -/
def Allowed (allow : Assumption E W Choice) (c : Config R ε W) :
    Act Op Edit Choice → Prop
  | .call ch =>
      match c.task with
      | some (.call e _) => allow e ch c.world
      | _ => True
  | _ => True

/-- The configurations of the runs all of whose answers meet the assumption. -/
inductive Reach (allow : Assumption E W Choice) (init : W → Prop) : Config R ε W → Prop
  | init {w : W} (h : init w) : Reach allow init ⟨w, none⟩
  | step {c c' : Config R ε W} {a : Act Op Edit Choice} (hc : Reach allow init c)
      (ha : Allowed allow c a) (hn : M.next c a = some c') : Reach allow init c'

/-! ## Rely–guarantee -/

/-- One change by the environment. -/
def EditStep (w w' : W) : Prop := ∃ x, M.edit x w = some w'

/-- Any number of changes by the environment. -/
abbrev Edits : W → W → Prop := Relation.ReflTransGen M.EditStep

/-- Every call of the program, after any edits and for every allowed answer,
stays within `G`; and if the program ends, it ends in `Q`. -/
def Safe (allow : Assumption E W Choice) (G : W → W → Prop) (Q : Except ε α → W → Prop) :
    Prog R ε α → W → Prop
  | .ret a, w => Q (.ok a) w
  | .raise x, w => Q (.error x) w
  | .call e k, w => ∀ w₁, M.Edits w w₁ → ∀ c r w₂, allow e c w₁ →
      M.exec e c w₁ = some (r, w₂) →
      Relation.ReflTransGen G w₁ w₂ ∧ Safe allow G Q (k r) w₂

variable {M} {allow : Assumption E W Choice} {G : W → W → Prop}
variable {Q : Except ε α → W → Prop}

@[simp] theorem safe_ret {a : α} {w : W} :
    M.Safe allow G Q (.ret a) w ↔ Q (.ok a) w := Iff.rfl

@[simp] theorem safe_raise {x : ε} {w : W} :
    M.Safe allow G Q (.raise x : Prog R ε α) w ↔ Q (.error x) w := Iff.rfl

theorem safe_call {e : E} {k : R e → Prog R ε α} {w : W} :
    M.Safe allow G Q (.call e k) w ↔
      ∀ w₁, M.Edits w w₁ → ∀ c r w₂, allow e c w₁ → M.exec e c w₁ = some (r, w₂) →
        Relation.ReflTransGen G w₁ w₂ ∧ M.Safe allow G Q (k r) w₂ := Iff.rfl

/-- Rule of consequence. -/
theorem Safe.mono {Q' : Except ε α → W → Prop} {p : Prog R ε α} {w : W}
    (h : M.Safe allow G Q p w) (hQ : ∀ r w, Q r w → Q' r w) : M.Safe allow G Q' p w := by
  induction p generalizing w with
  | ret a => exact hQ _ _ h
  | raise x => exact hQ _ _ h
  | call e k ih =>
      intro w₁ hw c r w₂ ha he
      have hc := h w₁ hw c r w₂ ha he
      exact ⟨hc.1, ih r hc.2⟩

/-- Sequencing: the second program starts where the first one returned. -/
theorem Safe.bind {Q : Except ε β → W → Prop} {p : Prog R ε α} {f : α → Prog R ε β} {w : W}
    (h : M.Safe allow G (fun r w' => match r with
      | .ok a => M.Safe allow G Q (f a) w'
      | .error x => Q (.error x) w') p w) :
    M.Safe allow G Q (p >>= f) w := by
  induction p generalizing w with
  | ret a => exact h
  | raise x => exact h
  | call e k ih =>
      intro w₁ hw c r w₂ ha he
      have hc := h w₁ hw c r w₂ ha he
      exact ⟨hc.1, ih r hc.2⟩

/-- `try`: the handler starts where the program raised. -/
theorem Safe.tryCatch {p : Prog R ε α} {f : ε → Prog R ε α} {w : W}
    (h : M.Safe allow G (fun r w' => match r with
      | .ok a => Q (.ok a) w'
      | .error x => M.Safe allow G Q (f x) w') p w) :
    M.Safe allow G Q (tryCatch p f) w := by
  induction p generalizing w with
  | ret a => exact h
  | raise x => exact h
  | call e k ih =>
      intro w₁ hw c r w₂ ha he
      have hc := h w₁ hw c r w₂ ha he
      exact ⟨hc.1, ih r hc.2⟩

/-- A value that may be an exception makes no call. -/
theorem Safe.ofExcept {r : Except ε α} {w : W} (h : Q r w) :
    M.Safe allow G Q (Prog.ofExcept r) w := by
  cases r with
  | ok a => exact h
  | error x => exact h

/-- Frame rule: what edits and the calls of the program keep is kept. -/
theorem Safe.frame {F : W → W → Prop} {P : E → Prop} {p : Prog R ε α} {w₀ w : W}
    (hedit : ∀ w w', M.EditStep w w' → F w₀ w → F w₀ w')
    (hexec : ∀ e c w r w', P e → M.exec e c w = some (r, w') → F w₀ w → F w₀ w')
    (hall : p.All P) (hw : F w₀ w) (h : M.Safe allow G Q p w) :
    M.Safe allow G (fun r w' => Q r w' ∧ F w₀ w') p w := by
  induction p generalizing w with
  | ret a => exact ⟨h, hw⟩
  | raise x => exact ⟨h, hw⟩
  | call e k ih =>
      intro w₁ hw₁ c r w₂ ha he
      have hedits : F w₀ w₁ := by
        clear he ha
        induction hw₁ with
        | refl => exact hw
        | tail _ hstep ih => exact hedit _ _ hstep ih
      have hc := h w₁ hw₁ c r w₂ ha he
      exact ⟨hc.1, ih r (hall.2 r) (hexec e c w₁ r w₂ hall.1 he hedits) hc.2⟩

/-- How the calls of an uninterrupted run are answered, each after any edits. -/
def Answers (M : Machine R ε W Op Edit Choice) (allow : Assumption E W Choice) :
    Prog.Answering R W := fun e w a w' =>
  ∃ w₁, M.Edits w w₁ ∧ ∃ c, allow e c w₁ ∧ M.exec e c w₁ = some (a, w')

/-- An uninterrupted run of a safe program is made of guaranteed steps. -/
theorem Safe.always {p : Prog R ε α} {w : W} (h : M.Safe allow G Q p w)
    (hedit : ∀ w w', M.EditStep w w' → G w w') :
    p.Always (M.Answers allow) (fun r w' => Q r w' ∧ Relation.ReflTransGen G w w') w := by
  induction p generalizing w with
  | ret a => exact ⟨h, .refl⟩
  | raise x => exact ⟨h, .refl⟩
  | call e k ih =>
      rintro a w' ⟨w₁, hedits, c, ha, he⟩
      obtain ⟨hG, hrest⟩ := h w₁ hedits c a w' ha he
      have hbefore : Relation.ReflTransGen G w w' :=
        (Relation.ReflTransGen.mono hedit _ _ hedits).trans hG
      exact (ih a hrest).mono fun r w₂ hr => ⟨hr.1, hbefore.trans hr.2⟩

/-- A program under no obligation at its end may be resumed after edits. -/
theorem Safe.edits {p : Prog R ε α} {w w' : W}
    (h : M.Safe allow G (fun _ _ => True) p w) (hw : M.Edits w w') :
    M.Safe allow G (fun _ _ => True) p w' := by
  cases p with
  | ret a => trivial
  | raise x => trivial
  | call e k => exact fun w₁ hw₁ => h w₁ (hw.trans hw₁)

/-! ## Soundness -/

section soundness

variable {init : W → Prop}
variable (hedit : ∀ w w', M.EditStep w w' → G w w')
variable (hprog : ∀ op w, M.Safe allow G (fun _ _ => True) (M.prog op) w)

include hedit hprog in
/-- Every reachable world comes from an initial one by guaranteed steps, and
what is left of the running program is safe there. -/
theorem Reach.sound {c : Config R ε W} (hc : M.Reach allow init c) :
    (∃ w₀, init w₀ ∧ Relation.ReflTransGen G w₀ c.world) ∧
      ∀ p, c.task = some p → M.Safe allow G (fun _ _ => True) p c.world := by
  induction hc with
  | init h => exact ⟨⟨_, h, .refl⟩, fun p hp => by cases hp⟩
  | @step c c' a _ ha hn ih =>
      obtain ⟨⟨w₀, hw₀, hG⟩, hsafe⟩ := ih
      cases a with
      | edit x =>
          -- an edit may come in the middle of a program, which stays safe
          obtain ⟨w', hx, rfl⟩ := Option.map_eq_some_iff.mp hn
          have hstep : M.EditStep c.world w' := ⟨x, hx⟩
          exact ⟨⟨w₀, hw₀, hG.tail (hedit _ _ hstep)⟩,
            fun p hp => (hsafe p hp).edits (.single hstep)⟩
      | start op =>
          -- a program that starts is safe in every world
          simp only [next] at hn
          split at hn
          · -- nothing was under way
            cases hn
            refine ⟨⟨w₀, hw₀, hG⟩, fun p hp => ?_⟩
            cases hp
            exact hprog op c.world
          · cases hn
      | call ch =>
          obtain ⟨w, task⟩ := c
          cases task with
          | none => cases hn
          | some p =>
              cases p with
              | ret a => cases hn
              | raise x => cases hn
              | call e k =>
                  -- a call takes a step of the program
                  obtain ⟨⟨r, w'⟩, he, rfl⟩ := Option.map_eq_some_iff.mp hn
                  have hcall := hsafe _ rfl w .refl ch r w' ha he
                  refine ⟨⟨w₀, hw₀, hG.trans hcall.1⟩, fun p hp => ?_⟩
                  cases hp
                  exact hcall.2
      | finish =>
          obtain ⟨w, task⟩ := c
          -- nothing is left of a program that has ended
          have hw : c' = ⟨w, none⟩ := by
            cases task with
            | none => cases hn
            | some p => cases p <;> cases hn <;> rfl
          subst hw
          exact ⟨⟨w₀, hw₀, hG⟩, fun p hp => by cases hp⟩
      | crash =>
          obtain ⟨w, task⟩ := c
          -- nor of one that crashed
          have hw : c' = ⟨w, none⟩ := by
            cases task with
            | none => cases hn
            | some p =>
                cases p with
                | ret a => cases hn
                | raise x => cases hn
                | call e k =>
                    simp only [next] at hn
                    split at hn <;> cases hn
                    rfl
          subst hw
          exact ⟨⟨w₀, hw₀, hG⟩, fun p hp => by cases hp⟩

include hedit hprog in
/-- Invariant rule: what holds initially and is kept by every guaranteed step
holds in every reachable world. -/
theorem Reach.invariant {I : W → Prop} (hinit : ∀ w, init w → I w)
    (hstep : ∀ w w', G w w' → I w → I w') {c : Config R ε W}
    (hc : M.Reach allow init c) : I c.world := by
  obtain ⟨⟨w₀, hw₀, hG⟩, -⟩ := hc.sound hedit hprog
  generalize c.world = w at hG
  induction hG with
  | refl => exact hinit _ hw₀
  | tail _ hs ih => exact hstep _ _ hs ih

end soundness

/-! ## Executable runs -/

/-- `Allowed`, decided by a test on the answers. -/
def check (ok : E → Choice → W → Bool) (c : Config R ε W) : Act Op Edit Choice → Bool
  | .call ch =>
      match c.task with
      | some (.call e _) => ok e ch c.world
      | _ => true
  | _ => true

/-- Carry out a list of actions, checking every answer with `ok`. -/
def run (M : Machine R ε W Op Edit Choice) (ok : E → Choice → W → Bool) :
    List (Act Op Edit Choice) → Config R ε W → Option (Config R ε W)
  | [], c => some c
  | a :: as, c => if check ok c a then (M.next c a).bind (M.run ok as) else none

theorem allowed_of_check {ok : E → Choice → W → Bool}
    (hok : ∀ e ch w, ok e ch w = true → allow e ch w) {c : Config R ε W}
    {a : Act Op Edit Choice} (h : check ok c a = true) : Allowed allow c a := by
  cases a with
  | call ch =>
      obtain ⟨w, task⟩ := c
      cases task with
      | none => trivial
      | some p =>
          cases p with
          | ret a => trivial
          | raise x => trivial
          | call e k => exact hok e ch w h
  | edit x => trivial
  | start op => trivial
  | finish => trivial
  | crash => trivial

/-- An executed run is a run. -/
theorem Reach.run {init : W → Prop} {ok : E → Choice → W → Bool}
    (hok : ∀ e ch w, ok e ch w = true → allow e ch w)
    {as : List (Act Op Edit Choice)} {c c' : Config R ε W}
    (hc : M.Reach allow init c) (hrun : M.run ok as c = some c') :
    M.Reach allow init c' := by
  induction as generalizing c with
  | nil =>
      cases hrun
      exact hc
  | cons a as ih =>
      simp only [Machine.run] at hrun
      split at hrun
      · next hcheck =>
        obtain ⟨c₁, hn, hrest⟩ := Option.bind_eq_some_iff.mp hrun
        exact ih (hc.step (allowed_of_check hok hcheck) hn) hrest
      · cases hrun

/-- An executed run that ends in `p` reaches `p`. -/
theorem Reach.exists_of_run {init : W → Prop} {ok : E → Choice → W → Bool}
    (hok : ∀ e ch w, ok e ch w = true → allow e ch w) {w : W} (hw : init w)
    (as : List (Act Op Edit Choice)) (p : Config R ε W → Bool)
    (h : (M.run ok as ⟨w, none⟩).any p = true) :
    ∃ c, M.Reach allow init c ∧ p c = true := by
  obtain ⟨c, hc, hp⟩ := (Option.any_eq_true _ _).mp h
  exact ⟨c, (Reach.init hw).run hok hc, hp⟩

end Machine

end Effects
