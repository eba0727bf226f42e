import Mathlib.Data.List.Infix
import Mathlib.Logic.Relation

/-! # Deleting pieces of a text

A text is a list of symbols, a piece a short text that is taken out of it.
Where the pieces are separated (the first symbol of a piece never stands
inside a piece, and no piece begins another one), deleting is confluent: the
order in which pieces are taken out does not matter.

`Sweeps` is the deletion that regular expression engines do: one pass from the
left, taking out the pieces it meets. The symbols on the two sides of a piece
come together and may form a new one; `Spells` says which stretches of the
text do that, and `sweeps_clean_iff` says when a pass leaves no piece behind.
-/

namespace Deletion

open Relation

variable {α : Type*} (P Q : List α → Prop)

/-- One piece is taken out. -/
inductive Step : List α → List α → Prop
  | mk (pre : List α) {piece : List α} (post : List α) (h : P piece) :
      Step (pre ++ piece ++ post) (pre ++ post)

/-- The second text is the first one without some of its pieces. -/
inductive Deletes : List α → List α → Prop
  | nil : Deletes [] []
  | keep (a : α) {l m : List α} (h : Deletes l m) : Deletes (a :: l) (a :: m)
  | drop {piece l m : List α} (hpiece : P piece) (h : Deletes l m) : Deletes (piece ++ l) m

/-- No piece stands in the text. -/
def Clean (l : List α) : Prop := ∀ piece, piece <:+: l → ¬ P piece

/-- What keeps two pieces of a text from overlapping. -/
structure Separated : Prop where
  nonempty : ¬ P []
  /-- The first symbol of a piece stands nowhere else in a piece. -/
  head : ∀ {a b : α} {s t : List α}, P (a :: s) → P (b :: t) → a ∉ t
  /-- No piece begins another one. -/
  prefixFree : ∀ {s t : List α}, P s → P (s ++ t) → t = []

variable {P Q}

theorem Separated.mono (h : Separated P) (hle : ∀ s, Q s → P s) : Separated Q where
  nonempty := fun hq => h.nonempty (hle _ hq)
  head := fun hs ht => h.head (hle _ hs) (hle _ ht)
  prefixFree := fun hs ht => h.prefixFree (hle _ hs) (hle _ ht)

theorem Deletes.mono (hle : ∀ s, Q s → P s) {l m : List α} (h : Deletes Q l m) :
    Deletes P l m := by
  induction h with
  | nil => exact .nil
  | keep a _ ih => exact .keep a ih
  | drop hpiece _ ih => exact .drop (hle _ hpiece) ih

theorem Step.cons (a : α) {l m : List α} (h : Step P l m) : Step P (a :: l) (a :: m) := by
  rcases h with ⟨pre, post, hpiece⟩
  exact .mk (a :: pre) post hpiece

theorem Deletes.steps {l m : List α} (h : Deletes P l m) : ReflTransGen (Step P) l m := by
  induction h with
  | nil => exact .refl
  | keep a _ ih => exact ih.lift (a :: ·) fun _ _ => Step.cons a
  | drop hpiece _ ih => exact .head (.mk [] _ hpiece) ih

/-! ## Confluence -/

/-- A piece at the start of a text and a later one lie apart. -/
theorem Separated.apart_of_prefix (hP : Separated P) {s₁ q₁ pre s₂ q₂ : List α} (hs₁ : P s₁)
    (hs₂ : P s₂) (heq : s₁ ++ q₁ = pre ++ (s₂ ++ q₂)) :
    (pre = [] ∧ s₁ = s₂ ∧ q₁ = q₂) ∨
      ∃ mid, pre = s₁ ++ mid ∧ q₁ = mid ++ (s₂ ++ q₂) := by
  rcases List.append_eq_append_iff.mp heq with ⟨mid, hpre, hq₁⟩ | ⟨extra, hs, hq₂⟩
  · exact .inr ⟨mid, hpre, hq₁⟩
  cases extra with
  | nil => exact .inr ⟨[], by simpa using hs.symm, by simpa using hq₂.symm⟩
  | cons x extra =>
    cases s₂ with
    | nil => exact absurd hs₂ hP.nonempty
    | cons y s₂ =>
      have hxy : y = x := by simpa using congrArg List.head? hq₂
      subst hxy
      cases pre with
      | nil =>
        -- one of the two begins the other
        left
        rw [List.nil_append] at hs heq
        rcases List.append_eq_append_iff.mp heq with ⟨t, ht, hq⟩ | ⟨t, ht, hq⟩
        · have hnil : t = [] := hP.prefixFree hs₁ (ht ▸ hs₂)
          subst hnil
          exact ⟨rfl, by simpa using ht.symm, by simpa using hq⟩
        · have hnil : t = [] := hP.prefixFree hs₂ (ht ▸ hs₁)
          subst hnil
          exact ⟨rfl, by simpa using ht, by simpa using hq.symm⟩
      | cons z pre =>
        -- the second piece would begin inside the first
        rw [hs, List.cons_append] at hs₁
        exact absurd (by simp) (hP.head hs₂ hs₁)

/-- Two pieces of a text coincide or lie apart. -/
theorem Separated.apart (hP : Separated P) {p₁ s₁ q₁ p₂ s₂ q₂ : List α} (hs₁ : P s₁)
    (hs₂ : P s₂) (heq : p₁ ++ (s₁ ++ q₁) = p₂ ++ (s₂ ++ q₂)) :
    (p₁ = p₂ ∧ q₁ = q₂) ∨ (∃ mid, p₂ = p₁ ++ (s₁ ++ mid) ∧ q₁ = mid ++ (s₂ ++ q₂)) ∨
      ∃ mid, p₁ = p₂ ++ (s₂ ++ mid) ∧ q₂ = mid ++ (s₁ ++ q₁) := by
  rcases List.append_eq_append_iff.mp heq with ⟨gap, hp₂, hrest⟩ | ⟨gap, hp₁, hrest⟩
  · rcases hP.apart_of_prefix hs₁ hs₂ hrest with ⟨hnil, -, hq⟩ | ⟨mid, hgap, hq⟩
    · left
      exact ⟨by rw [hp₂, hnil, List.append_nil], hq⟩
    · right; left
      exact ⟨mid, by rw [hp₂, hgap], hq⟩
  · rcases hP.apart_of_prefix hs₂ hs₁ hrest with ⟨hnil, -, hq⟩ | ⟨mid, hgap, hq⟩
    · left
      exact ⟨by rw [hp₁, hnil, List.append_nil], hq.symm⟩
    · right; right
      exact ⟨mid, by rw [hp₁, hgap], hq⟩

/-- Pieces that lie apart can be taken out in either order. -/
theorem Step.swap (pre mid post : List α) {s₁ s₂ : List α} (hs₁ : P s₁) (hs₂ : P s₂) :
    Step P (pre ++ (mid ++ (s₂ ++ post))) (pre ++ (mid ++ post)) ∧
      Step P (pre ++ (s₁ ++ (mid ++ post))) (pre ++ (mid ++ post)) := by
  constructor
  · simpa using Step.mk (pre ++ mid) post hs₂
  · simpa using Step.mk pre (mid ++ post) hs₁

theorem Separated.diamond (hP : Separated P) (l m n : List α) (hm : Step P l m)
    (hn : Step P l n) : ∃ d, ReflGen (Step P) m d ∧ ReflTransGen (Step P) n d := by
  rcases hm with ⟨p₁, q₁, hs₁⟩
  rename_i s₁
  generalize hl : p₁ ++ s₁ ++ q₁ = l at hn
  rcases hn with ⟨p₂, q₂, hs₂⟩
  rw [List.append_assoc, List.append_assoc] at hl
  rcases hP.apart hs₁ hs₂ hl with ⟨hp, hq⟩ | ⟨mid, hp, hq⟩ | ⟨mid, hp, hq⟩
  · rw [hp, hq]
    exact ⟨_, .refl, .refl⟩
  · have hswap := Step.swap p₁ mid q₂ hs₁ hs₂
    refine ⟨p₁ ++ (mid ++ q₂), .single ?_, .single ?_⟩
    · simpa [hq] using hswap.1
    · simpa [hp] using hswap.2
  · have hswap := Step.swap p₂ mid q₁ hs₂ hs₁
    refine ⟨p₂ ++ (mid ++ q₁), .single ?_, .single ?_⟩
    · simpa [hp] using hswap.2
    · simpa [hq] using hswap.1

/-- The clean texts are the ends of deletion. -/
theorem Clean.eq_of_steps {l m : List α} (hl : Clean P l) (h : ReflTransGen (Step P) l m) :
    m = l := by
  rcases h.cases_head with heq | ⟨n, hstep, -⟩
  · exact heq.symm
  · rcases hstep with ⟨pre, post, hpiece⟩
    exact absurd hpiece (hl _ ⟨pre, post, rfl⟩)

/-- There is one clean text that deletion leads to. -/
theorem Separated.clean_unique (hP : Separated P) {l m n : List α}
    (hm : ReflTransGen (Step P) l m) (hn : ReflTransGen (Step P) l n) (hcm : Clean P m)
    (hcn : Clean P n) : m = n := by
  rcases church_rosser hP.diamond hm hn with ⟨d, hmd, hnd⟩
  rw [← hcm.eq_of_steps hmd, hcn.eq_of_steps hnd]

/-! ## One pass from the left -/

/-- The text after a pass that takes out every piece it meets. -/
inductive Sweeps (Q : List α → Prop) : List α → List α → Prop
  | nil : Sweeps Q [] []
  | keep {a : α} {l m : List α} (hfirst : ∀ piece, piece <+: a :: l → ¬ Q piece)
      (h : Sweeps Q l m) : Sweeps Q (a :: l) (a :: m)
  | drop {piece l m : List α} (hpiece : Q piece) (h : Sweeps Q l m) : Sweeps Q (piece ++ l) m

/-- The stretch reads like the second text once the pieces between its
symbols are taken out. -/
inductive Spells (Q : List α → Prop) : List α → List α → Prop
  | last (a : α) : Spells Q [a] [a]
  | cons (a : α) {pieces : List (List α)} {w s : List α} (hpieces : ∀ piece ∈ pieces, Q piece)
      (h : Spells Q w s) : Spells Q (a :: (pieces.flatten ++ w)) (a :: s)

theorem Spells.refl {s : List α} (hs : s ≠ []) : Spells Q s s := by
  induction s with
  | nil => exact absurd rfl hs
  | cons a s ih =>
    cases s with
    | nil => exact .last a
    | cons b s => exact .cons a (List.forall_mem_nil _) (ih (List.cons_ne_nil b s))

theorem Spells.ne_nil {w s : List α} (h : Spells Q w s) : s ≠ [] := by
  cases h <;> exact List.cons_ne_nil _ _

theorem Sweeps.deletes {l m : List α} (h : Sweeps Q l m) : Deletes Q l m := by
  induction h with
  | nil => exact .nil
  | keep _ _ ih => exact .keep _ ih
  | drop hpiece _ ih => exact .drop hpiece ih

/-! ### What a pass leaves comes from the text -/

theorem Sweeps.split {l m₁ m₂ : List α} (h : Sweeps Q l (m₁ ++ m₂)) :
    ∃ l₁ l₂, l = l₁ ++ l₂ ∧ Sweeps Q l₂ m₂ := by
  generalize hm : m₁ ++ m₂ = m at h
  induction h generalizing m₁ with
  | nil =>
    rw [(List.append_eq_nil_iff.mp hm).2]
    exact ⟨[], [], rfl, .nil⟩
  | @keep a l m hfirst h ih =>
    cases m₁ with
    | nil =>
      rw [List.nil_append] at hm
      exact ⟨[], a :: l, rfl, hm ▸ .keep hfirst h⟩
    | cons b m₁ =>
      injection hm with _ hm
      rcases ih hm with ⟨l₁, l₂, hl, hsweeps⟩
      exact ⟨a :: l₁, l₂, by rw [hl, List.cons_append], hsweeps⟩
  | @drop piece l m hpiece h ih =>
    rcases ih hm with ⟨l₁, l₂, hl, hsweeps⟩
    exact ⟨piece ++ l₁, l₂, by rw [hl, List.append_assoc], hsweeps⟩

/-- What the pass left was spelled out, and no piece began there. -/
theorem Sweeps.spelled {l s m : List α} (hs : s ≠ []) (h : Sweeps Q l (s ++ m)) :
    ∃ (pieces : List (List α)) (w post : List α), (∀ piece ∈ pieces, Q piece) ∧
      l = pieces.flatten ++ (w ++ post) ∧
      Spells Q w s ∧ ∀ piece, piece <+: w ++ post → ¬ Q piece := by
  generalize hm : s ++ m = m' at h
  induction h generalizing s with
  | nil => exact absurd (List.append_eq_nil_iff.mp hm).1 hs
  | @keep a l m' hfirst h ih =>
    cases s with
    | nil => exact absurd rfl hs
    | cons b s =>
      injection hm with hb hm
      subst hb
      -- the character is kept: it is the first of `s`
      by_cases hnil : s = []
      · subst hnil
        exact ⟨[], [b], l, List.forall_mem_nil _, rfl, .last b, hfirst⟩
      · rcases ih hnil hm with ⟨pieces, w, post, hpieces, hl, hspells, -⟩
        refine ⟨[], b :: (pieces.flatten ++ w), post, List.forall_mem_nil _, ?_,
          .cons b hpieces hspells, ?_⟩
        · simp [hl]
        · simpa [hl] using hfirst
  | @drop piece l m' hpiece h ih =>
    -- the piece is dropped before `s` starts
    rcases ih hs hm with ⟨pieces, w, post, hpieces, hl, hspells, hfirst⟩
    refine ⟨piece :: pieces, w, post, ?_, by simp [hl], hspells, hfirst⟩
    intro other hother
    rcases List.mem_cons.mp hother with heq | hmem
    · exact heq ▸ hpiece
    · exact hpieces other hmem

/-! ### What is spelled in the text is left by a pass -/

/-- A piece at the start is taken out. -/
theorem Sweeps.of_piece (hQ : Separated Q) {piece l m : List α} (hpiece : Q piece)
    (h : Sweeps Q (piece ++ l) m) : Sweeps Q l m := by
  generalize hl : piece ++ l = l' at h
  cases h with
  | nil => exact absurd (List.append_eq_nil_iff.mp hl).1 fun hnil => hQ.nonempty (hnil ▸ hpiece)
  | @keep a l'' m hfirst h => exact absurd hpiece (hfirst piece (hl ▸ List.prefix_append _ _))
  | @drop other l'' m hother h =>
    have hl : piece ++ l = [] ++ (other ++ l'') := hl
    rcases hQ.apart_of_prefix hpiece hother hl with ⟨-, -, heq⟩ | ⟨mid, hnil, -⟩
    · exact heq ▸ h
    · have hnil : piece = [] := (List.append_eq_nil_iff.mp hnil.symm).1
      exact absurd (hnil ▸ hpiece) hQ.nonempty

theorem Sweeps.of_pieces (hQ : Separated Q) {pieces : List (List α)} {l m : List α}
    (hpieces : ∀ piece ∈ pieces, Q piece) (h : Sweeps Q (pieces.flatten ++ l) m) :
    Sweeps Q l m := by
  induction pieces with
  | nil => simpa using h
  | cons piece pieces ih =>
    rw [List.flatten_cons, List.append_assoc] at h
    exact ih (fun other hother => hpieces other (List.mem_cons_of_mem _ hother))
      (h.of_piece hQ (hpieces piece List.mem_cons_self))

/-- A symbol at which no piece begins is left. -/
theorem Sweeps.of_keep {a : α} {l m : List α} (hfirst : ∀ piece, piece <+: a :: l → ¬ Q piece)
    (h : Sweeps Q (a :: l) m) :
    ∃ m', m = a :: m' ∧ Sweeps Q l m' := by
  generalize hl : a :: l = l' at h
  cases h with
  | nil => exact absurd hl (List.cons_ne_nil a l)
  | @keep b l'' m' _ h =>
    injection hl with hb hl
    subst hb hl
    exact ⟨m', rfl, h⟩
  | @drop piece l'' m hpiece h =>
    exact absurd hpiece (hfirst piece (hl ▸ List.prefix_append _ _))

/-- No piece begins with the symbol. -/
def NoHead (Q : List α → Prop) (a : α) : Prop := ∀ s, ¬ Q (a :: s)

theorem NoHead.begins_none (hQ : ¬ Q []) {a : α} (ha : NoHead Q a) {l : List α} :
    ∀ piece, piece <+: a :: l → ¬ Q piece := by
  intro piece hpre hpiece
  cases piece with
  | nil => exact hQ hpiece
  | cons b piece =>
    rcases hpre with ⟨rest, hrest⟩
    injection hrest with hb _
    exact ha piece (hb ▸ hpiece)

theorem Sweeps.of_spells_tail (hQ : Separated Q) {w s post m : List α} (hspells : Spells Q w s)
    (htail : ∀ a ∈ s, NoHead Q a) (h : Sweeps Q (w ++ post) m) : s <+: m := by
  induction hspells generalizing m with
  | last a =>
    rcases h.of_keep ((htail a List.mem_cons_self).begins_none hQ.nonempty) with
      ⟨m', hm, -⟩
    exact ⟨m', by rw [hm, List.singleton_append]⟩
  | @cons a pieces w s hpieces hspells ih =>
    rw [List.cons_append, List.append_assoc] at h
    rcases h.of_keep ((htail a List.mem_cons_self).begins_none hQ.nonempty) with
      ⟨m', hm, hrest⟩
    have hpre := ih (fun b hb => htail b (List.mem_cons_of_mem a hb)) (hrest.of_pieces hQ hpieces)
    rw [hm]
    exact (List.prefix_cons_inj a).mpr hpre

/-- A text without heads inside that begins where a spelling does ends before
the first piece between its symbols. -/
theorem Spells.prefix_of_prefix (hQ : ¬ Q []) {w s t post : List α} (h : Spells Q w s)
    (ht : t <+: w ++ post) (htail : ∀ a ∈ t.tail, NoHead Q a) :
    (t <+: s ∧ t ≠ s) ∨ (w = s ∧ s <+: t) := by
  induction h generalizing t with
  | last a =>
    cases t with
    | nil => exact .inl ⟨List.nil_prefix, (List.cons_ne_nil a []).symm⟩
    | cons b t =>
      rcases ht with ⟨rest, hrest⟩
      injection hrest with hb _
      subst hb
      exact .inr ⟨rfl, by simp⟩
  | @cons a pieces w s hpieces h ih =>
    cases t with
    | nil => exact .inl ⟨List.nil_prefix, (List.cons_ne_nil a s).symm⟩
    | cons b t =>
      have hb : b = a := by
        rcases ht with ⟨rest, hrest⟩
        injection hrest
      subst hb
      rw [List.cons_append, List.append_assoc, List.prefix_cons_inj] at ht
      rw [List.tail_cons] at htail
      cases pieces with
      | nil =>
        have hstep := ih (by simpa using ht) fun c hc => htail c (List.mem_of_mem_tail hc)
        rcases hstep with ⟨hpre, hne⟩ | ⟨heq, hpre⟩
        · exact .inl ⟨(List.prefix_cons_inj b).mpr hpre, by simpa using hne⟩
        · exact .inr ⟨by simp [heq], (List.prefix_cons_inj b).mpr hpre⟩
      | cons piece pieces =>
        left
        cases t with
        | nil => exact ⟨by simp, by simpa using h.ne_nil.symm⟩
        | cons c t =>
          -- the text would reach the head of the piece
          have hpiece := hpieces piece List.mem_cons_self
          cases piece with
          | nil => exact absurd hpiece hQ
          | cons d piece =>
            rcases ht with ⟨rest, hrest⟩
            injection hrest with hcd _
            exact absurd hpiece (hcd ▸ htail c List.mem_cons_self piece)

section

variable (hP : Separated P) (hle : ∀ s, Q s → P s)
include hP hle

theorem Separated.noHead {a b : α} {s : List α} (hs : P (b :: s)) (ha : a ∈ s) : NoHead Q a :=
  fun _ ht => hP.head (hle _ ht) hs ha

/-- A pass leaves a spelled piece that it does not know. -/
theorem Sweeps.of_spells {w s post m : List α} (hs : P s) (hspells : Spells Q w s)
    (hw : ¬ Q w) (h : Sweeps Q (w ++ post) m) : s <+: m := by
  have hQ : Separated Q := hP.mono hle
  -- no piece is a prefix: it would be one of `w`, or `w` one of it
  have hfirst : ∀ piece, piece <+: w ++ post → ¬ Q piece := by
    intro piece hpre hpiece
    have htail : ∀ a ∈ piece.tail, NoHead Q a := by
      intro a ha
      cases piece with
      | nil => exact absurd ha (List.not_mem_nil)
      | cons b piece => exact hP.noHead hle (hle _ hpiece) ha
    rcases hspells.prefix_of_prefix hQ.nonempty hpre htail with ⟨⟨t, ht⟩, hne⟩ | ⟨heq, ⟨t, ht⟩⟩
    · have hnil : t = [] := hP.prefixFree (hle _ hpiece) (ht ▸ hs)
      exact hne (by rw [← ht, hnil, List.append_nil])
    · have hnil : t = [] := hP.prefixFree hs (ht ▸ hle _ hpiece)
      rw [hnil, List.append_nil] at ht
      exact hw (heq ▸ ht ▸ hpiece)
  cases hspells with
  | last a =>
    rcases h.of_keep hfirst with ⟨m', hm, -⟩
    exact ⟨m', by rw [hm, List.singleton_append]⟩
  | @cons a pieces w s hpieces hspells =>
    -- the first character is kept, and the pieces behind it are dropped
    rw [List.cons_append, List.append_assoc] at h hfirst
    rcases h.of_keep hfirst with ⟨m', hm, hrest⟩
    have hpre : s <+: m' := (hrest.of_pieces hQ hpieces).of_spells_tail hQ hspells fun b hb =>
      hP.noHead hle hs hb
    rw [hm]
    exact (List.prefix_cons_inj a).mpr hpre

/-- A pass comes to the head of every stretch that begins like a piece. -/
theorem Sweeps.of_head {a : α} {s pre l m : List α} (hs : P (a :: s))
    (h : Sweeps Q (pre ++ a :: l) m) : ∃ m₁ m₂, m = m₁ ++ m₂ ∧ Sweeps Q (a :: l) m₂ := by
  generalize hl : pre ++ a :: l = l' at h
  induction h generalizing pre with
  | nil => exact absurd (List.append_eq_nil_iff.mp hl).2 (List.cons_ne_nil a l)
  | @keep b l' m hfirst h ih =>
    cases pre with
    | nil =>
      rw [List.nil_append] at hl
      exact ⟨[], b :: m, rfl, hl ▸ .keep hfirst h⟩
    | cons c pre =>
      injection hl with _ hl
      rcases ih hl with ⟨m₁, m₂, hm, hsweeps⟩
      exact ⟨b :: m₁, m₂, by rw [hm, List.cons_append], hsweeps⟩
  | @drop piece l' m hpiece h ih =>
    rcases List.append_eq_append_iff.mp hl with ⟨extra, hpre, hrest⟩ | ⟨gap, hpre, hrest⟩
    · cases pre with
      | nil =>
        rw [List.nil_append] at hl
        exact ⟨[], m, rfl, hl ▸ .drop hpiece h⟩
      | cons c pre =>
        cases extra with
        | nil => exact ih (show [] ++ a :: l = l' from hrest)
        | cons d extra =>
          -- the head would stand inside the piece
          injection hrest with had _
          rw [hpre, List.cons_append] at hpiece
          exact absurd (by simp [had]) (hP.head hs (hle _ hpiece))
    · exact ih hrest.symm

/-- What is spelled and not known to the pass stands in what the pass leaves. -/
theorem Sweeps.infix_of_spells {pre w s post m : List α} (hs : P s) (hspells : Spells Q w s)
    (hw : ¬ Q w) (h : Sweeps Q (pre ++ w ++ post) m) : s <:+: m := by
  have hhead : ∃ a s' w', s = a :: s' ∧ w = a :: w' := by
    cases hspells with
    | last a => exact ⟨a, [], [], rfl, rfl⟩
    | cons a => exact ⟨a, _, _, rfl, rfl⟩
  rcases hhead with ⟨a, s', w', rfl, rfl⟩
  rw [List.append_assoc, List.cons_append] at h
  rcases h.of_head hP hle hs with ⟨m₁, m₂, hm, hsweeps⟩
  have hpre : a :: s' <+: m₂ := Sweeps.of_spells hP hle hs hspells hw hsweeps
  rw [hm]
  exact hpre.isInfix.trans (List.suffix_append m₁ m₂).isInfix

/-- A pass leaves no piece behind exactly when every stretch that spells one is
a piece that the pass knows. -/
theorem sweeps_clean_iff {l m : List α} (h : Sweeps Q l m) :
    Clean P m ↔ ∀ pre w post s, l = pre ++ w ++ post → Spells Q w s → P s → Q w := by
  constructor
  · intro hclean pre w post s hl hspells hs
    by_contra hw
    exact hclean s (Sweeps.infix_of_spells hP hle hs hspells hw (hl ▸ h)) hs
  · intro hknown s hinfix hs
    rcases hinfix with ⟨m₁, m₂, hm⟩
    rw [← hm, List.append_assoc] at h
    rcases h.split with ⟨l₁, l₂, hl, hrest⟩
    have hne : s ≠ [] := fun hnil => hP.nonempty (hnil ▸ hs)
    rcases hrest.spelled hne with ⟨pieces, w, post, -, hl₂, hspells, hfirst⟩
    refine hfirst w (List.prefix_append w post) (hknown (l₁ ++ pieces.flatten) w post s ?_ hspells hs)
    rw [hl, hl₂]
    simp

end

end Deletion
