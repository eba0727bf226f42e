import Mathlib.Data.List.Infix
import Mathlib.Data.List.TakeWhile
import Mathlib.Tactic.Common

/-! # Masking the values of a text

A text holds keys with their values. A masker goes through it once from the
left; where it meets an opening, a key with its separator, and a value after
it, it puts a fixed text in the place of the value. A value is the longest run
of value symbols after its opening.

Masking is idempotent (`mask_mask`): what stands in the place of a value is
read as a value again. Texts that are put together are masked piece by piece,
unless one part ends inside a value (`pieces_append`,
`pieces_append_of_endsOpen`).
-/

namespace Masking

/-- What opens a value, what a value is made of, and what takes its place. -/
structure Masker (α : Type*) where
  Opens : List α → Prop
  /-- The opening that the text starts with. -/
  opening : List α → Option (List α)
  value : α → Bool
  hole : List α
  not_opens_nil : ¬ Opens []
  head_value : ∀ {a l}, Opens (a :: l) → value a = true
  opening_sound : ∀ {l k}, opening l = some k → Opens k ∧ k <+: l
  /-- An opening is read as far as it goes, whatever value follows. -/
  opening_complete : ∀ {k rest}, Opens k → (∀ a ∈ rest.head?, value a = true) →
    opening (k ++ rest) = some k
  hole_ne_nil : hole ≠ []
  hole_value : ∀ a ∈ hole, value a = true
  /-- No opening runs into what takes the place of a value. -/
  hole_fresh : ∀ {k}, Opens k → ∀ a ∈ hole.head?, a ∉ k

/-- A part of a text as the masker reads it. -/
inductive Piece (α : Type*) where
  | plain (a : α)
  | hidden (opening value : List α)
deriving DecidableEq

namespace Masker

variable {α : Type*} (M : Masker α)

/-- The opening and the value at the start of the text. -/
def next (l : List α) : Option (List α × List α) :=
  match M.opening l with
  | none => none
  | some k =>
      let v := (l.drop k.length).takeWhile M.value
      if v.isEmpty then none else some (k, v)

/-- The pieces of the text after the symbols the last match has consumed. -/
def piecesFrom : Nat → List α → List (Piece α)
  | _, [] => []
  | n + 1, _ :: l => piecesFrom n l
  | 0, a :: l =>
      match M.next (a :: l) with
      | none => .plain a :: piecesFrom 0 l
      | some (k, v) => .hidden k v :: piecesFrom (k.length + v.length - 1) l

abbrev pieces (l : List α) : List (Piece α) := M.piecesFrom 0 l

def masked : Piece α → List α
  | .plain a => [a]
  | .hidden k _ => k ++ M.hole

def mask (l : List α) : List α := (M.pieces l).flatMap M.masked

def Piece.hidden? : Piece α → Option (List α)
  | .plain _ => none
  | .hidden _ v => some v

/-- The values that are masked. -/
def values (l : List α) : List (List α) := (M.pieces l).filterMap Piece.hidden?

/-- The text stands in `l` outside the matches. -/
def Outside (t l : List α) : Prop := t.map .plain <:+: M.pieces l

/-- Whether an opening starts the text and all that follows is its value so far. -/
def opensToEnd (l : List α) : Bool :=
  match M.opening l with
  | none => false
  | some k => (l.drop k.length).all M.value

/-- Whether the text ends inside a value. -/
def endsOpenFrom : Nat → List α → Bool
  | _, [] => false
  | n + 1, _ :: l => endsOpenFrom n l
  | 0, a :: l =>
      if M.opensToEnd (a :: l) then true
      else
        match M.next (a :: l) with
        | none => endsOpenFrom 0 l
        | some (k, v) => endsOpenFrom (k.length + v.length - 1) l

abbrev endsOpen (l : List α) : Bool := M.endsOpenFrom 0 l

/-! ## What the masker finds -/

/-- The text starts with this opening and this value. -/
structure Match (l k v rest : List α) : Prop where
  text : l = k ++ (v ++ rest)
  opens : M.Opens k
  nonempty : v ≠ []
  value : ∀ a ∈ v, M.value a = true
  ends : ∀ a ∈ rest.head?, M.value a = false

variable {M}

theorem takeWhile_value {v rest : List α} (hv : ∀ a ∈ v, M.value a = true)
    (hrest : ∀ a ∈ rest.head?, M.value a = false) :
    (v ++ rest).takeWhile M.value = v := by
  rw [List.takeWhile_append_of_pos hv]
  cases rest with
  | nil => simp
  | cons a rest =>
    have ha : M.value a = false := hrest a rfl
    simp [ha]

theorem head?_value {v t : List α} (hne : v ≠ []) (hv : ∀ a ∈ v, M.value a = true) :
    ∀ a ∈ (v ++ t).head?, M.value a = true := by
  cases v with
  | nil => exact absurd rfl hne
  | cons b v =>
    intro a ha
    have hab : b = a := Option.some.inj ha
    exact hab ▸ hv b List.mem_cons_self

theorem head?_dropWhile (p : α → Bool) (l : List α) : ∀ a ∈ (l.dropWhile p).head?, p a = false := by
  intro a ha
  have hhead := List.head?_dropWhile_not p l
  rw [Option.mem_def.mp ha] at hhead
  exact hhead

theorem Match.next_eq {l k v rest : List α} (h : M.Match l k v rest) : M.next l = some (k, v) := by
  have hopening : M.opening l = some k := by
    rw [h.text]
    exact M.opening_complete h.opens (head?_value h.nonempty h.value)
  have hrun : (l.drop k.length).takeWhile M.value = v := by
    rw [h.text, List.drop_left]
    exact takeWhile_value h.value h.ends
  simp only [next, hopening, hrun]
  rw [if_neg (by simpa using h.nonempty)]

theorem exists_match {l k v : List α} (h : M.next l = some (k, v)) :
    ∃ rest, M.Match l k v rest := by
  unfold next at h
  split at h
  · cases h
  next k' hopening =>
  dsimp only at h
  split at h
  · cases h
  next hne =>
  simp only [Option.some.injEq, Prod.mk.injEq] at h
  rcases h with ⟨rfl, rfl⟩
  rcases M.opening_sound hopening with ⟨hopens, t, rfl⟩
  simp only [List.drop_left] at hne ⊢
  refine ⟨t.dropWhile M.value, ?_, hopens, by simpa using hne, ?_, head?_dropWhile _ _⟩
  · rw [List.takeWhile_append_dropWhile]
  · intro a ha
    exact List.all_eq_true.mp List.all_takeWhile a ha

/-- Wherever a value symbol follows an opening, there is a match. -/
theorem Opens.exists_match {k l : List α} {a : α} (hk : M.Opens k) (ha : M.value a = true) :
    ∃ v rest, M.Match (k ++ a :: l) k v rest := by
  refine ⟨a :: l.takeWhile M.value, l.dropWhile M.value, ?_, hk, List.cons_ne_nil _ _, ?_,
    head?_dropWhile _ _⟩
  · rw [List.cons_append, List.takeWhile_append_dropWhile]
  · intro b hb
    rcases List.mem_cons.mp hb with rfl | hb
    · exact ha
    · exact List.all_eq_true.mp List.all_takeWhile b hb

theorem next_eq_none_iff {l : List α} : M.next l = none ↔ ∀ k v rest, ¬ M.Match l k v rest := by
  constructor
  · intro hnone k v rest h
    rw [h.next_eq] at hnone
    cases hnone
  · intro h
    cases hnext : M.next l with
    | none => rfl
    | some kv =>
      rcases exists_match hnext with ⟨rest, hmatch⟩
      exact absurd hmatch (h kv.1 kv.2 rest)

/-- A text that starts with no value symbol opens nothing. -/
theorem next_of_head {a : α} {l : List α} (ha : M.value a = false) : M.next (a :: l) = none := by
  rw [next_eq_none_iff]
  intro k v rest h
  cases k with
  | nil => exact M.not_opens_nil h.opens
  | cons b k =>
    have hab : a = b := (List.cons.inj h.text).1
    have hb := M.head_value h.opens
    rw [← hab, ha] at hb
    cases hb

/-! ## The pass -/

@[simp] theorem pieces_nil : M.pieces [] = [] := by
  rw [pieces, piecesFrom]

theorem piecesFrom_skip (w l : List α) : M.piecesFrom w.length (w ++ l) = M.pieces l := by
  induction w with
  | nil => rfl
  | cons a w ih => rw [List.cons_append, List.length_cons, piecesFrom, ih]

theorem pieces_plain {a : α} {l : List α} (h : M.next (a :: l) = none) :
    M.pieces (a :: l) = .plain a :: M.pieces l := by
  rw [pieces, piecesFrom, h]

theorem Match.pieces_eq {l k v rest : List α} (h : M.Match l k v rest) :
    M.pieces l = .hidden k v :: M.pieces rest := by
  cases hk : k with
  | nil => exact absurd (hk ▸ h.opens) M.not_opens_nil
  | cons a k' =>
    have htext : l = a :: ((k' ++ v) ++ rest) := by
      rw [h.text, hk, List.append_assoc]
      rfl
    have hnext := h.next_eq
    rw [htext] at hnext ⊢
    have hlength : k.length + v.length - 1 = (k' ++ v).length := by
      rw [hk, List.length_cons, List.length_append]
      omega
    rw [pieces, piecesFrom, hnext]
    show .hidden k v :: M.piecesFrom (k.length + v.length - 1) (k' ++ v ++ rest) = _
    rw [hlength, piecesFrom_skip, hk]

/-- The masker goes through every text symbol by symbol and match by match. -/
theorem scan_induction {motive : List α → Prop} (nil : motive [])
    (plain : ∀ a l, M.next (a :: l) = none → motive l → motive (a :: l))
    (hidden : ∀ l k v rest, M.Match l k v rest → motive rest → motive l) :
    ∀ l, motive l := by
  intro l
  induction hn : l.length using Nat.strong_induction_on generalizing l with
  | _ n ih =>
    cases l with
    | nil => exact nil
    | cons a l =>
      cases hnext : M.next (a :: l) with
      | none =>
        refine plain a l hnext (ih l.length ?_ l rfl)
        rw [← hn, List.length_cons]
        omega
      | some kv =>
        rcases exists_match hnext with ⟨rest, hmatch⟩
        refine hidden _ _ _ rest hmatch (ih rest.length ?_ rest rfl)
        have hpos : 0 < kv.2.length := List.length_pos_iff.mpr hmatch.nonempty
        rw [← hn, hmatch.text, List.length_append, List.length_append]
        omega

@[simp] theorem mask_nil : M.mask [] = [] := by
  rw [mask, pieces_nil, List.flatMap_nil]

theorem mask_plain {a : α} {l : List α} (h : M.next (a :: l) = none) :
    M.mask (a :: l) = a :: M.mask l := by
  rw [mask, pieces_plain h]
  rfl

theorem Match.mask_eq {l k v rest : List α} (h : M.Match l k v rest) :
    M.mask l = k ++ (M.hole ++ M.mask rest) := by
  rw [mask, h.pieces_eq, List.flatMap_cons, masked, List.append_assoc]
  rfl

theorem mask_ne_nil {l : List α} (h : l ≠ []) : M.mask l ≠ [] := by
  cases l with
  | nil => exact absurd rfl h
  | cons a l =>
    cases hnext : M.next (a :: l) with
    | none =>
      rw [mask_plain hnext]
      exact List.cons_ne_nil _ _
    | some kv =>
      rcases exists_match hnext with ⟨rest, hmatch⟩
      rw [hmatch.mask_eq]
      intro hnil
      exact M.hole_ne_nil (List.append_eq_nil_iff.mp (List.append_eq_nil_iff.mp hnil).2).1

/-! ## Masking twice -/

/-- The masked text starts like the text, up to the first value. -/
theorem exists_of_mask_eq {l k m : List α} {b : α} (hk : ∀ a ∈ M.hole.head?, a ∉ k)
    (hb : M.value b = true) (h : M.mask l = k ++ b :: m) :
    ∃ c l', l = k ++ c :: l' ∧ M.value c = true := by
  induction l using M.scan_induction generalizing k with
  | nil => simp at h
  | plain a l hnext ih =>
    rw [mask_plain hnext] at h
    cases k with
    | nil => exact ⟨a, l, rfl, (List.cons.inj h).1 ▸ hb⟩
    | cons a' k =>
      rcases List.cons.inj h with ⟨rfl, htail⟩
      have hk' : ∀ c ∈ M.hole.head?, c ∉ k := fun c hc hmem =>
        hk c hc (List.mem_cons_of_mem a hmem)
      rcases ih hk' htail with ⟨c, l', rfl, hc⟩
      exact ⟨c, l', rfl, hc⟩
  | hidden l k₁ v rest hmatch ih =>
    rw [hmatch.mask_eq] at h
    rw [hmatch.text]
    cases v with
    | nil => exact absurd rfl hmatch.nonempty
    | cons c v =>
      have hc : M.value c = true := hmatch.value c List.mem_cons_self
      rcases List.append_eq_append_iff.mp h with ⟨x, rfl, hx⟩ | ⟨x, rfl, hx⟩
      · cases x with
        | nil => exact ⟨c, v ++ rest, by simp, hc⟩
        | cons a x =>
          -- the hole would start inside `k`
          exfalso
          cases hhole : M.hole with
          | nil => exact M.hole_ne_nil hhole
          | cons a' hole =>
            rw [hhole] at hx
            have haa : a' = a := (List.cons.inj hx).1
            exact hk a' (by rw [hhole]; rfl) (by rw [haa]; simp)
      · cases x with
        | nil => exact ⟨c, v ++ rest, by simp, hc⟩
        | cons a x =>
          have hab : b = a := (List.cons.inj hx).1
          exact ⟨a, x ++ (c :: v ++ rest), by simp, hab ▸ hb⟩

/-- Masking what comes after a symbol opens nothing there. -/
theorem next_mask {a : α} {l : List α} (h : M.next (a :: l) = none) :
    M.next (a :: M.mask l) = none := by
  rw [next_eq_none_iff]
  intro k v rest hmatch
  cases k with
  | nil => exact M.not_opens_nil hmatch.opens
  | cons a' k =>
    cases v with
    | nil => exact hmatch.nonempty rfl
    | cons b v =>
      rcases List.cons.inj hmatch.text with ⟨rfl, htext⟩
      have hfresh : ∀ c ∈ M.hole.head?, c ∉ k := fun c hc hmem =>
        M.hole_fresh hmatch.opens c hc (List.mem_cons_of_mem a hmem)
      rcases exists_of_mask_eq hfresh (hmatch.value b List.mem_cons_self) htext with
        ⟨c, l', rfl, hc⟩
      rcases Opens.exists_match (l := l') hmatch.opens hc with ⟨v', rest', hmatch'⟩
      exact next_eq_none_iff.mp h _ v' rest' hmatch'

theorem head?_mask {l : List α} (h : ∀ a ∈ l.head?, M.value a = false) :
    ∀ a ∈ (M.mask l).head?, M.value a = false := by
  cases l with
  | nil => simp
  | cons b l =>
    rw [mask_plain (next_of_head (h b rfl))]
    exact h

/-- Masking is idempotent. -/
theorem mask_mask (l : List α) : M.mask (M.mask l) = M.mask l := by
  induction l using M.scan_induction with
  | nil => simp
  | plain a l hnext ih => rw [mask_plain hnext, mask_plain (next_mask hnext), ih]
  | hidden l k v rest hmatch ih =>
    -- the hole is the value that the second pass finds
    have hmatch' : M.Match (k ++ (M.hole ++ M.mask rest)) k M.hole (M.mask rest) :=
      ⟨rfl, hmatch.opens, M.hole_ne_nil, M.hole_value, head?_mask hmatch.ends⟩
    rw [hmatch.mask_eq, hmatch'.mask_eq, ih]

/-! ## Texts put together -/

theorem opensToEnd_iff {l : List α} :
    M.opensToEnd l = true ↔
      ∃ k w, l = k ++ w ∧ M.Opens k ∧ ∀ a ∈ w, M.value a = true := by
  constructor
  · intro h
    unfold opensToEnd at h
    split at h
    · cases h
    next k hopening =>
    rcases M.opening_sound hopening with ⟨hopens, w, rfl⟩
    rw [List.drop_left] at h
    exact ⟨k, w, rfl, hopens, List.all_eq_true.mp h⟩
  · rintro ⟨k, w, rfl, hopens, hw⟩
    have hopening : M.opening (k ++ w) = some k :=
      M.opening_complete hopens fun a ha => hw a (List.mem_of_mem_head? ha)
    unfold opensToEnd
    rw [hopening]
    show ((k ++ w).drop k.length).all M.value = true
    rw [List.drop_left]
    exact List.all_eq_true.mpr hw

theorem endsOpenFrom_skip (w l : List α) : M.endsOpenFrom w.length (w ++ l) = M.endsOpen l := by
  induction w with
  | nil => rfl
  | cons a w ih => rw [List.cons_append, List.length_cons, endsOpenFrom, ih]

theorem endsOpen_plain {a : α} {l : List α} (hnext : M.next (a :: l) = none)
    (h : M.opensToEnd (a :: l) = false) : M.endsOpen (a :: l) = M.endsOpen l := by
  rw [endsOpen, endsOpenFrom, h, hnext]
  rfl

theorem Match.endsOpen_eq {l k v rest : List α} (hmatch : M.Match l k v rest)
    (h : M.opensToEnd l = false) : M.endsOpen l = M.endsOpen rest := by
  cases hk : k with
  | nil => exact absurd (hk ▸ hmatch.opens) M.not_opens_nil
  | cons a k' =>
    have htext : l = a :: ((k' ++ v) ++ rest) := by
      rw [hmatch.text, hk, List.append_assoc]
      rfl
    have hnext := hmatch.next_eq
    rw [htext] at hnext h ⊢
    have hlength : k.length + v.length - 1 = (k' ++ v).length := by
      rw [hk, List.length_cons, List.length_append]
      omega
    rw [endsOpen, endsOpenFrom, h, hnext]
    show M.endsOpenFrom (k.length + v.length - 1) (k' ++ v ++ rest) = _
    rw [hlength, endsOpenFrom_skip]

theorem endsOpen_of_opensToEnd {l : List α} (h : M.opensToEnd l = true) :
    M.endsOpen l = true := by
  cases l with
  | nil =>
    rcases opensToEnd_iff.mp h with ⟨k, w, hnil, hopens, -⟩
    have hk : k = [] := (List.append_eq_nil_iff.mp hnil.symm).1
    exact absurd (hk ▸ hopens) M.not_opens_nil
  | cons a l => rw [endsOpen, endsOpenFrom, if_pos h]

variable (M) in
/-- Nothing that begins before `t` opens a value inside it, and a value symbol
comes first. -/
structure Fresh (t : List α) : Prop where
  head : ∃ a l, t = a :: l ∧ M.value a = true
  apart : ∀ {p k : List α}, p ≠ [] → M.Opens k → k <+: p ++ t → k <+: p

theorem Fresh.next_append {t : List α} (ht : M.Fresh t) {l : List α} (hne : l ≠ [])
    (hnext : M.next l = none) (hopen : M.opensToEnd l = false) : M.next (l ++ t) = none := by
  rw [next_eq_none_iff]
  intro k v rest hmatch
  have hbegins : k <+: l ++ t := ⟨v ++ rest, hmatch.text.symm⟩
  rcases ht.apart hne hmatch.opens hbegins with ⟨q, rfl⟩
  have hq : v ++ rest = q ++ t := by
    have htext := hmatch.text
    rw [List.append_assoc] at htext
    exact (List.append_cancel_left htext).symm
  cases q with
  | nil =>
    -- the opening ends the text
    have htrue : M.opensToEnd (k ++ []) = true :=
      opensToEnd_iff.mpr ⟨k, [], rfl, hmatch.opens, List.forall_mem_nil _⟩
    rw [htrue] at hopen
    cases hopen
  | cons b q =>
    have hb : M.value b = true := by
      have hhead := head?_value (t := rest) hmatch.nonempty hmatch.value
      rw [hq] at hhead
      exact hhead b rfl
    rcases Opens.exists_match (l := q) hmatch.opens hb with ⟨v', rest', hmatch'⟩
    exact next_eq_none_iff.mp hnext _ v' rest' hmatch'

theorem Match.append {l k v rest : List α} (hmatch : M.Match l k v rest)
    (h : M.opensToEnd l = false) (t : List α) : M.Match (l ++ t) k v (rest ++ t) := by
  refine ⟨by rw [hmatch.text]; simp, hmatch.opens, hmatch.nonempty, hmatch.value, ?_⟩
  cases rest with
  | nil =>
    have htrue : M.opensToEnd l = true :=
      opensToEnd_iff.mpr ⟨k, v, by simpa using hmatch.text, hmatch.opens, hmatch.value⟩
    rw [htrue] at h
    cases h
  | cons a rest => exact hmatch.ends

theorem opensToEnd_eq_false {l : List α} (h : M.endsOpen l = false) :
    M.opensToEnd l = false := by
  rw [Bool.eq_false_iff]
  intro htrue
  rw [endsOpen_of_opensToEnd htrue] at h
  cases h

/-- A text that does not end inside a value is masked on its own. -/
theorem Fresh.pieces_append {t : List α} (ht : M.Fresh t) {p : List α}
    (hp : M.endsOpen p = false) : M.pieces (p ++ t) = M.pieces p ++ M.pieces t := by
  have hopen := opensToEnd_eq_false hp
  induction p using M.scan_induction with
  | nil => rw [pieces_nil]; rfl
  | plain a l hnext ih =>
    rw [endsOpen_plain hnext hopen] at hp
    have hnext' : M.next (a :: (l ++ t)) = none :=
      ht.next_append (List.cons_ne_nil a l) hnext hopen
    rw [pieces_plain hnext, List.cons_append, pieces_plain hnext',
      ih hp (opensToEnd_eq_false hp)]
    rfl
  | hidden l k v rest hmatch ih =>
    rw [hmatch.endsOpen_eq hopen] at hp
    rw [hmatch.pieces_eq, (hmatch.append hopen t).pieces_eq, ih hp (opensToEnd_eq_false hp)]
    rfl

/-- A text that ends inside a value takes the value symbols after it along. -/
theorem pieces_append_of_endsOpen {p : List α} (hp : M.endsOpen p = true) :
    ∃ ps k w, ∀ t, M.Fresh t → M.pieces (p ++ t) =
      ps ++ .hidden k (w ++ t.takeWhile M.value) :: M.pieces (t.dropWhile M.value) := by
  -- the opening at which the text ends takes the head of `t` for its value
  have hend : ∀ {l : List α}, M.opensToEnd l = true → ∃ ps k w, ∀ t, M.Fresh t →
      M.pieces (l ++ t) =
        ps ++ .hidden k (w ++ t.takeWhile M.value) :: M.pieces (t.dropWhile M.value) := by
    intro l h
    rcases opensToEnd_iff.mp h with ⟨k, w, rfl, hopens, hw⟩
    refine ⟨[], k, w, fun t ht => ?_⟩
    have hmatch : M.Match (k ++ w ++ t) k (w ++ t.takeWhile M.value) (t.dropWhile M.value) := by
      refine ⟨?_, hopens, ?_, ?_, head?_dropWhile _ _⟩
      · rw [List.append_assoc w, List.takeWhile_append_dropWhile, List.append_assoc]
      · rcases ht.head with ⟨a, l, rfl, ha⟩
        simp [ha]
      · intro a ha
        rcases List.mem_append.mp ha with ha | ha
        · exact hw a ha
        · exact List.all_eq_true.mp List.all_takeWhile a ha
    exact hmatch.pieces_eq
  induction p using M.scan_induction with
  | nil => cases hp
  | plain a l hnext ih =>
    cases hopen : M.opensToEnd (a :: l) with
    | true => exact hend hopen
    | false =>
      rw [endsOpen_plain hnext hopen] at hp
      rcases ih hp with ⟨ps, k, w, h⟩
      refine ⟨.plain a :: ps, k, w, fun t ht => ?_⟩
      have hnext' : M.next (a :: (l ++ t)) = none :=
        ht.next_append (List.cons_ne_nil a l) hnext hopen
      rw [List.cons_append, pieces_plain hnext', h t ht]
      rfl
  | hidden l k v rest hmatch ih =>
    cases hopen : M.opensToEnd l with
    | true => exact hend hopen
    | false =>
      rw [hmatch.endsOpen_eq hopen] at hp
      rcases ih hp with ⟨ps, k', w, h⟩
      refine ⟨.hidden k v :: ps, k', w, fun t ht => ?_⟩
      rw [(hmatch.append hopen t).pieces_eq, h t ht]
      rfl

theorem Fresh.mask_append {t : List α} (ht : M.Fresh t) {p : List α}
    (hp : M.endsOpen p = false) : M.mask (p ++ t) = M.mask p ++ M.mask t := by
  rw [mask, ht.pieces_append hp, List.flatMap_append]
  rfl

theorem mask_append_of_endsOpen {p : List α} (hp : M.endsOpen p = true) :
    ∃ m, ∀ t, M.Fresh t → M.mask (p ++ t) = m ++ M.mask (t.dropWhile M.value) := by
  rcases pieces_append_of_endsOpen hp with ⟨ps, k, w, h⟩
  refine ⟨ps.flatMap M.masked ++ (k ++ M.hole), fun t ht => ?_⟩
  rw [mask, h t ht, List.flatMap_append, List.flatMap_cons, masked, List.append_assoc _ (k ++ _)]
  rfl

/-- Where nothing is found, nothing is masked. -/
theorem mask_append_plain {w l : List α}
    (h : ∀ q, q <:+ w → q ≠ [] → M.next (q ++ l) = none) : M.mask (w ++ l) = w ++ M.mask l := by
  induction w with
  | nil => rfl
  | cons a w ih =>
    have hnext : M.next (a :: (w ++ l)) = none :=
      h (a :: w) List.suffix_rfl (List.cons_ne_nil a w)
    rw [List.cons_append, mask_plain hnext,
      ih fun q hq hne => h q (hq.trans (List.suffix_cons a w)) hne]
    rfl

end Masker

end Masking
