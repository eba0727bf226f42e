import TallyConnector.Effects.Machine

/-! # Programs that run the operations of a machine

A host is a program that runs operations of a machine and makes side calls in
between, which leave the world alone. As a machine of its own (`Machine.host`)
it reaches no other worlds than the machine does (`Machine.reach_of_host`), so
the invariants of the machine hold in every run of the host.
-/

namespace Effects

variable {E F : Type} {R : E → Type} {P : F → Type} {ε W Op Edit Choice Side HostOp α β : Type}

/-- The answers to the calls of a host. -/
abbrev HostResp (R : E → Type) (P : F → Type) : E ⊕ F → Type := Sum.elim R P

namespace Prog

/-- A program as a part of a host. -/
def hosted : Prog R ε α → Prog (HostResp R P) ε α
  | .ret a => .ret a
  | .raise x => .raise x
  | .call e k => .call (.inl e) fun r => (k r).hosted

/-- A side call. -/
def side (f : F) : Prog (HostResp R P) ε (P f) := .call (.inr f) .ret

theorem hosted_bind (p : Prog R ε α) (f : α → Prog R ε β) :
    ((p >>= f).hosted : Prog (HostResp R P) ε β) = (p.hosted >>= fun a => (f a).hosted) := by
  induction p with
  | ret a => rfl
  | raise x => rfl
  | call e k ih => exact congrArg (Prog.call (Sum.inl e)) (funext ih)

end Prog

/-! ## Hosts as machines -/

/-- The machine of a host: its calls to the machine are answered there, and its
side calls by `answer`. -/
def Machine.host (M : Machine R ε W Op Edit Choice) (answer : (f : F) → Side → Option (P f))
    (prog : HostOp → Prog (HostResp R P) ε Unit) :
    Machine (HostResp R P) ε W HostOp Edit (Choice ⊕ Side) where
  edit := M.edit
  exec
    | .inl e, .inl choice, w => M.exec e choice w
    | .inr f, .inr s, w => (answer f s).map fun r => (r, w)
    | _, _, _ => none
  quiet := Sum.elim M.quiet fun _ => false
  prog := prog

/-- The assumptions on the machine's answers, for a host. -/
def Machine.Assumption.host (allow : Machine.Assumption E W Choice) :
    Machine.Assumption (E ⊕ F) W (Choice ⊕ Side)
  | .inl e, .inl choice, w => allow e choice w
  | _, _, _ => True

/-- The program runs operations of the machine one after the other, with side
calls in between. -/
inductive Script (M : Machine R ε W Op Edit Choice) : Prog (HostResp R P) ε α → Prop
  | ret (a : α) : Script M (.ret a)
  | raise (x : ε) : Script M (.raise x)
  | side (f : F) (k : P f → Prog (HostResp R P) ε α) (h : ∀ r, Script M (k r)) :
      Script M (.call (.inr f) k)
  | op (o : Op) (k : Unit → Prog (HostResp R P) ε α) (h : Script M (k ())) :
      Script M ((M.prog o).hosted >>= k)

variable {M : Machine R ε W Op Edit Choice} {answer : (f : F) → Side → Option (P f)}
variable {prog : HostOp → Prog (HostResp R P) ε Unit}

theorem Script.bind {p : Prog (HostResp R P) ε α} {f : α → Prog (HostResp R P) ε β}
    (hp : Script M p) (hf : ∀ a, Script M (f a)) : Script M (p >>= f) := by
  induction hp with
  | ret a => exact hf a
  | raise x => exact .raise x
  | side f' k _ ih => exact .side f' _ ih
  | op o k _ ih =>
    rw [Prog.bind_assoc]
    exact .op o _ ih

theorem script_side (f : F) : Script M (Prog.side f : Prog (HostResp R P) ε (P f)) :=
  .side f _ .ret

/-- A hosted operation whose result is dropped. -/
theorem script_op {p : Prog R ε β} {o : Op} (ho : M.prog o = (p >>= fun _ => .ret ()))
    {q : Prog (HostResp R P) ε α} (hq : Script M q) : Script M (p.hosted >>= fun _ => q) := by
  have hdrop : (p.hosted >>= fun _ => q) =
      ((M.prog o).hosted >>= fun _ : Unit => q : Prog (HostResp R P) ε α) := by
    rw [ho, Prog.hosted_bind, Prog.bind_assoc]
    rfl
  rw [hdrop]
  exact .op o _ hq

/-! ## A host only does what the machine does -/

/-- What is left of the operation that the host is in, and of the host. -/
inductive Hosts (M : Machine R ε W Op Edit Choice) :
    Option (Prog R ε Unit) → Option (Prog (HostResp R P) ε Unit) → Prop
  | idle : Hosts M none none
  | between {p : Prog (HostResp R P) ε Unit} (h : Script M p) : Hosts M none (some p)
  | within (q : Prog R ε Unit) (k : Unit → Prog (HostResp R P) ε Unit) (h : Script M (k ())) :
      Hosts M (some q) (some (q.hosted >>= k))

section simulation

variable {allow : Machine.Assumption E W Choice} {init : W → Prop}

/-- The machine is where the host is. -/
structure Follows (M : Machine R ε W Op Edit Choice) (allow : Machine.Assumption E W Choice)
    (init : W → Prop) (c : Config R ε W) (w : W) (p : Option (Prog (HostResp R P) ε Unit)) :
    Prop where
  reach : M.Reach allow init c
  world : c.world = w
  hosts : Hosts M c.task p

/-- A call of the operation the host is in. -/
theorem follows_call_within {w w' : W} {e : E} {k : R e → Prog R ε Unit} {choice : Choice}
    {r : R e} {k' : Unit → Prog (HostResp R P) ε Unit} (hk : Script M (k' ()))
    (hc : M.Reach allow init ⟨w, some (.call e k)⟩) (ha : allow e choice w)
    (he : M.exec e choice w = some (r, w')) :
    ∃ d, Follows M allow init d w' (some ((k r).hosted >>= k')) := by
  refine ⟨⟨w', some (k r)⟩, hc.step (a := .call choice) ha ?_, rfl, .within (k r) k' hk⟩
  simp [Machine.next, he]

/-- A call of a host between two operations: a side call, or the first call of
an operation that is started for it. -/
theorem follows_call_between {p : Prog (HostResp R P) ε Unit} (hp : Script M p) {w w' : W}
    (hc : M.Reach allow init ⟨w, none⟩) {e : E ⊕ F}
    {k : HostResp R P e → Prog (HostResp R P) ε Unit} (hcall : p = .call e k)
    {choice : Choice ⊕ Side} (ha : Machine.Assumption.host allow e choice w)
    {r : HostResp R P e} (he : (M.host answer prog).exec e choice w = some (r, w')) :
    ∃ d, Follows M allow init d w' (some (k r)) := by
  induction hp with
  -- a return and a raise make no call
  | ret a => cases hcall
  | raise x => cases hcall
  | side f k₀ h _ =>
    -- a call of the host itself leaves the machine where it is
    cases hcall
    cases choice with
    | inl choice => cases he
    | inr s =>
      rcases Option.map_eq_some_iff.mp he with ⟨r', -, heq⟩
      cases heq
      exact ⟨⟨w, none⟩, hc, rfl, .between (h _)⟩
  | op o k₀ h ih =>
    -- the first call of an operation starts it
    have hstart : M.Reach allow init ⟨w, some (M.prog o)⟩ :=
      hc.step (a := .start o) trivial rfl
    cases hprog : M.prog o with
    | ret u =>
      rw [hprog] at hcall
      -- an operation without calls: what follows it makes the call
      exact ih hcall
    | raise x =>
      rw [hprog] at hcall
      cases hcall
    | call e₀ k₁ =>
      rw [hprog] at hcall hstart
      cases hcall
      cases choice with
      | inr s => cases he
      | inl choice => exact follows_call_within h hstart ha he

/-- Ending or losing the program of a host leaves the world alone. -/
theorem next_drop {h h' : Config (HostResp R P) ε W} {a : Act HostOp Edit (Choice ⊕ Side)}
    (ha : a = .finish ∨ a = .crash) (hn : (M.host answer prog).next h a = some h') :
    h' = ⟨h.world, none⟩ := by
  obtain ⟨w, p⟩ := h
  rcases ha with rfl | rfl
  · rcases p with _ | ⟨_ | _ | _⟩ <;> cases hn <;> rfl
  · rcases p with _ | ⟨_ | _ | _⟩ <;> try cases hn
    simp only [Machine.next] at hn
    split at hn <;> cases hn
    rfl

/-- An operation is over where its host can end, and is lost where its host
is. -/
theorem exists_drop {w : W} {q : Prog R ε Unit} {k : Unit → Prog (HostResp R P) ε Unit}
    (hc : M.Reach allow init ⟨w, some q⟩) {a : Act HostOp Edit (Choice ⊕ Side)}
    (ha : a = .finish ∨ a = .crash) {h' : Config (HostResp R P) ε W}
    (hn : (M.host answer prog).next ⟨w, some (q.hosted >>= k)⟩ a = some h') :
    M.Reach allow init ⟨w, none⟩ := by
  cases q with
  | ret u => exact hc.step (a := .finish) trivial rfl
  | raise x => exact hc.step (a := .finish) trivial rfl
  | call e k₁ =>
    rcases ha with rfl | rfl
    · cases hn
    · refine hc.step (a := .crash) trivial ?_
      have hquiet : ¬ M.quiet e = true := by
        intro hquiet
        have hnone : (M.host answer prog).next ⟨w, some ((Prog.call e k₁).hosted >>= k)⟩ .crash =
            none := if_pos hquiet
        rw [hnone] at hn
        cases hn
      exact if_neg hquiet

/-- What the host does next, the machine does in some steps. -/
theorem Follows.step {c : Config R ε W} {h h' : Config (HostResp R P) ε W}
    (hscript : ∀ o, Script M (prog o)) (hf : Follows M allow init c h.world h.task)
    {a : Act HostOp Edit (Choice ⊕ Side)}
    (ha : Machine.Allowed (Machine.Assumption.host allow) h a)
    (hn : (M.host answer prog).next h a = some h') :
    ∃ d, Follows M allow init d h'.world h'.task := by
  obtain ⟨w, task⟩ := c
  obtain ⟨w₀, p⟩ := h
  obtain ⟨hreach, hworld, hhosts⟩ := hf
  subst hworld
  -- between two operations the script makes the next call
  have hbetween : ∀ choice (p : Prog (HostResp R P) ε Unit), Script M p →
      M.Reach allow init ⟨w, none⟩ →
      Machine.Allowed (Machine.Assumption.host allow) ⟨w, some p⟩
        (.call choice : Act HostOp Edit (Choice ⊕ Side)) →
      (M.host answer prog).next ⟨w, some p⟩ (.call choice) = some h' →
      ∃ d, Follows M allow init d h'.world h'.task := by
    intro choice p hp hreach ha hn
    cases p with
    | ret u => cases hn
    | raise x => cases hn
    | call e k =>
      rcases Option.map_eq_some_iff.mp hn with ⟨⟨r, w'⟩, he, rfl⟩
      exact follows_call_between hp hreach rfl ha he
  cases a with
  | edit x =>
    -- an edit is one of the machine
    rcases Option.map_eq_some_iff.mp hn with ⟨w', hx, rfl⟩
    exact ⟨⟨w', task⟩, hreach.step (a := .edit x) trivial (by simp [Machine.next]; exact hx), rfl,
      hhosts⟩
  | start o =>
    cases hhosts with
    | idle =>
      cases hn
      exact ⟨_, hreach, rfl, .between (hscript o)⟩
    | between h => cases hn
    | within q k h => cases hn
  | call choice =>
    cases hhosts with
    | idle => cases hn
    | between h => exact hbetween choice _ h hreach ha hn
    | within q k h =>
      cases q with
      -- the operation has returned
      | ret u => exact hbetween choice _ h (hreach.step (a := .finish) trivial rfl) ha hn
      | raise x => cases hn
      | call e k₁ =>
        -- the call of an operation that is under way
        rcases Option.map_eq_some_iff.mp hn with ⟨⟨r, w'⟩, he, rfl⟩
        cases choice with
        | inr s => cases he
        | inl choice => exact follows_call_within h hreach ha he
  | finish =>
    cases hhosts with
    | idle => cases hn
    | between h =>
      -- what is dropped between two operations leaves the machine idle
      rw [next_drop (.inl rfl) hn]
      exact ⟨_, hreach, rfl, .idle⟩
    | within q k h =>
      -- an operation under way is dropped with it
      have hdrop := exists_drop hreach (.inl rfl) hn
      rw [next_drop (.inl rfl) hn]
      exact ⟨_, hdrop, rfl, .idle⟩
  | crash =>
    cases hhosts with
    | idle => cases hn
    | between h =>
      rw [next_drop (.inr rfl) hn]
      exact ⟨_, hreach, rfl, .idle⟩
    | within q k h =>
      have hdrop := exists_drop hreach (.inr rfl) hn
      rw [next_drop (.inr rfl) hn]
      exact ⟨_, hdrop, rfl, .idle⟩

/-- Every world that the host reaches, the machine reaches. -/
theorem Machine.reach_of_host (hscript : ∀ o, Script M (prog o))
    {h : Config (HostResp R P) ε W}
    (hh : (M.host answer prog).Reach (Machine.Assumption.host allow) init h) :
    ∃ c, M.Reach allow init c ∧ c.world = h.world := by
  have hfollows : ∃ c, Follows M allow init c h.world h.task := by
    induction hh with
    | init hw => exact ⟨_, .init hw, rfl, .idle⟩
    | step _ ha hn ih =>
      rcases ih with ⟨c, hc⟩
      exact hc.step hscript ha hn
  rcases hfollows with ⟨c, hc⟩
  exact ⟨c, hc.reach, hc.world⟩

end simulation

end Effects
