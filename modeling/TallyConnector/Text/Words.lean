import Mathlib.Data.List.Infix
import Mathlib.Tactic.Common

/-! # The words of a text

A word is a run of word symbols. A text is thinned by leaving symbols out and
by putting others than word symbols in, where no two words come together that
stood apart. The words of what remains stood in the text before.
-/

namespace Words

variable {α : Type*} (word : α → Bool)

/-- Whether a word ends with the text, where `open'` says it for what stands
before. -/
def ends : Bool → List α → Bool
  | open', [] => open'
  | _, a :: l => ends (word a) l

/-- `n` is what remains of `m` after a text that ends with a word or does not. -/
inductive Thins : Bool → List α → List α → Prop
  | nil {open' : Bool} : Thins open' [] []
  | keep {open' : Bool} {a : α} {m n : List α} (h : Thins (word a) m n) :
      Thins open' (a :: m) (a :: n)
  | put {open' : Bool} {a : α} {m n : List α} (ha : word a = false) (h : Thins false m n) :
      Thins open' m (a :: n)
  | drop {open' : Bool} {a : α} {m n : List α}
      (hapart : open' = true → ∀ c ∈ n.head?, word c = false) (h : Thins open' m n) :
      Thins open' (a :: m) n

variable {word} {open' : Bool} {l m n v : List α}

@[simp] theorem ends_nil : ends word open' [] = open' := rfl

@[simp] theorem ends_cons {a : α} : ends word open' (a :: l) = ends word (word a) l := rfl

theorem ends_append : ends word open' (l ++ m) = ends word (ends word open' l) m := by
  induction l generalizing open' with
  | nil => rfl
  | cons a l ih => exact ih

/-- The text before does not matter to a text that is not empty. -/
theorem ends_of_ne_nil (h : l ≠ []) (open₁ open₂ : Bool) :
    ends word open₁ l = ends word open₂ l := by
  cases l with
  | nil => exact absurd rfl h
  | cons a l => rfl

theorem ends_blank (h : ∀ a ∈ l, word a = false) (hopen : open' = true → l ≠ []) :
    ends word open' l = false := by
  induction l generalizing open' with
  | nil =>
    rw [ends_nil, Bool.eq_false_iff]
    exact fun htrue => hopen htrue rfl
  | cons a l ih =>
    rw [ends_cons, h a List.mem_cons_self]
    exact ih (fun b hb => h b (List.mem_cons_of_mem a hb)) nofun

/-- No word begins where no word symbol stands. -/
theorem not_begins (hne : v ≠ []) (hv : ∀ a ∈ v, word a = true)
    (hn : ∀ c ∈ n.head?, word c = false) : ¬ v <+: n := by
  intro hstart
  cases v with
  | nil => exact hne rfl
  | cons a v =>
    obtain ⟨t, rfl⟩ := hstart
    have ha := hn a rfl
    rw [hv a List.mem_cons_self] at ha
    cases ha

namespace Thins

theorem keepAll (h : Thins word (ends word open' l) m n) : Thins word open' (l ++ m) (l ++ n) := by
  induction l generalizing open' with
  | nil => exact h
  | cons a l ih => exact .keep (ih h)

theorem putAll (hl : ∀ a ∈ l, word a = false) (h : Thins word (ends word open' l) m n) :
    Thins word open' m (l ++ n) := by
  induction l generalizing open' with
  | nil => exact h
  | cons a l ih =>
    have ha := hl a List.mem_cons_self
    refine .put ha (ih (fun b hb => hl b (List.mem_cons_of_mem a hb)) ?_)
    rw [ends_cons, ha] at h
    exact h

theorem dropAll (hapart : l ≠ [] → open' = true → ∀ c ∈ n.head?, word c = false)
    (h : Thins word open' m n) : Thins word open' (l ++ m) n := by
  induction l with
  | nil => exact h
  | cons a l ih =>
    have hapart' := hapart (List.cons_ne_nil a l)
    exact .drop hapart' (ih fun _ => hapart')

/-- A word of what remains stood in the text, and at its start if a word goes on
there. -/
theorem words (h : Thins word open' m n) (hne : v ≠ []) (hv : ∀ a ∈ v, word a = true) :
    (v <:+: n → v <:+: m) ∧ (open' = true → v <+: n → v <+: m) := by
  induction h generalizing v with
  | nil => exact ⟨id, fun _ => id⟩
  | @keep open' a m n h ih =>
    have hstart : v <+: a :: n → v <+: a :: m := by
      intro hbegins
      cases v with
      | nil => exact absurd rfl hne
      | cons b v =>
        obtain ⟨rfl, hrest⟩ := List.cons_prefix_cons.mp hbegins
        refine List.cons_prefix_cons.mpr ⟨rfl, ?_⟩
        by_cases hnil : v = []
        · exact hnil ▸ List.nil_prefix
        · -- the word goes on after its first symbol
          have hv' : ∀ a ∈ v, word a = true := fun a ha => hv a (List.mem_cons_of_mem b ha)
          exact (ih hnil hv').2 (hv b List.mem_cons_self) hrest
    refine ⟨fun hin => ?_, fun _ => hstart⟩
    rcases List.infix_cons_iff.mp hin with hbegins | hin
    · exact (hstart hbegins).isInfix
    · exact ((ih hne hv).1 hin).trans (List.suffix_cons a m).isInfix
  | @put open' a m n ha h ih =>
    have hnot : ¬ v <+: a :: n := not_begins hne hv fun c hc => Option.some.inj hc ▸ ha
    refine ⟨fun hin => ?_, fun _ hbegins => absurd hbegins hnot⟩
    exact (ih hne hv).1 ((List.infix_cons_iff.mp hin).resolve_left hnot)
  | drop hapart h ih =>
    refine ⟨fun hin => ((ih hne hv).1 hin).trans (List.suffix_cons _ _).isInfix,
      fun hopen hbegins => ?_⟩
    exact absurd hbegins (not_begins hne hv (hapart hopen))

end Thins

end Words
