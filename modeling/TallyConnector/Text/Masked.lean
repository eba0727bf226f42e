import Mathlib.Algebra.GroupWithZero.Nat
import TallyConnector.Text.Masking
import TallyConnector.Text.Words

/-! # Masked texts

What a masked text has in common with the text: its length but for the values,
its start up to the first value, and the places where its words end. A word of
the masked text stood outside the matches, or it stands in the rest of a match
and what leads up to it (`outside_or_leads`). Doubling a symbol that stands in
no opening is not seen by the masker (`mask_double`).
-/

namespace Masking

namespace Masker

variable {α : Type*} {M : Masker α}

/-! ## Values -/

@[simp] theorem values_nil : M.values [] = [] := by
  rw [values, pieces_nil, List.filterMap_nil]

theorem values_plain {a : α} {l : List α} (h : M.next (a :: l) = none) :
    M.values (a :: l) = M.values l := by
  rw [values, pieces_plain h]
  rfl

theorem Match.values_eq {l k v rest : List α} (h : M.Match l k v rest) :
    M.values l = v :: M.values rest := by
  rw [values, h.pieces_eq]
  rfl

theorem Match.values_ne_nil {l k v rest : List α} (h : M.Match l k v rest) :
    M.values l ≠ [] := by
  rw [h.values_eq]
  exact List.cons_ne_nil _ _

/-- A value is a word. -/
theorem value_of_mem_values {l v : List α} (h : v ∈ M.values l) :
    v ≠ [] ∧ ∀ a ∈ v, M.value a = true := by
  induction l using M.scan_induction with
  | nil => simp at h
  | plain a l hnext ih =>
    rw [values_plain hnext] at h
    exact ih h
  | hidden l k v' rest hmatch ih =>
    rw [hmatch.values_eq] at h
    rcases List.mem_cons.mp h with rfl | h
    · exact ⟨hmatch.nonempty, hmatch.value⟩
    · exact ih h

/-- Every value is replaced by the hole. -/
theorem length_mask (l : List α) :
    (M.mask l).length + ((M.values l).map List.length).sum =
      l.length + (M.values l).length * M.hole.length := by
  induction l using M.scan_induction with
  | nil => simp
  | plain a l hnext ih =>
    rw [mask_plain hnext, values_plain hnext, List.length_cons, List.length_cons]
    omega
  | hidden l k v rest hmatch ih =>
    rw [hmatch.mask_eq, hmatch.values_eq, hmatch.text]
    simp only [List.length_append, List.length_cons, List.map_cons, List.sum_cons,
      Nat.add_mul, Nat.one_mul]
    omega

/-- What comes before the first value is not touched. -/
theorem take_mask {l : List α} {n : Nat} (h : M.values (l.take n) = []) :
    (M.mask l).take n = l.take n := by
  induction l using M.scan_induction generalizing n with
  | nil => simp
  | plain a l hnext ih =>
    cases n with
    | zero => rfl
    | succ n =>
      rw [mask_plain hnext, List.take_succ_cons, List.take_succ_cons]
      refine congrArg (a :: ·) (ih ?_)
      rw [List.take_succ_cons] at h
      cases hnext' : M.next (a :: l.take n) with
      | none => exact (values_plain hnext').symm.trans h
      | some kv =>
        obtain ⟨rest, hmatch⟩ := exists_match hnext'
        exact absurd h hmatch.values_ne_nil
  | hidden l k v rest hmatch ih =>
    rw [hmatch.mask_eq]
    rcases Nat.lt_or_ge k.length n with hlt | hle
    · -- the value begins before the cut
      exfalso
      obtain ⟨m, rfl⟩ := Nat.exists_eq_add_of_lt hlt
      cases hv : v with
      | nil => exact hmatch.nonempty hv
      | cons b v' =>
        have hb : M.value b = true := hmatch.value b (by rw [hv]; exact List.mem_cons_self)
        obtain ⟨w, rest', hmatch'⟩ :=
          Opens.exists_match (l := (v' ++ rest).take m) hmatch.opens hb
        refine hmatch'.values_ne_nil ?_
        rw [hmatch.text, hv, Nat.add_assoc, List.take_length_add_append] at h
        exact h
    · rw [hmatch.text, List.take_append_of_le_length hle, List.take_append_of_le_length hle]

/-- A text without values is its own masking. -/
theorem mask_of_values_nil {l : List α} (h : M.values l = []) : M.mask l = l := by
  have hlength := M.length_mask l
  rw [h] at hlength
  have htake := take_mask (n := l.length) (by rwa [List.take_length])
  rw [List.take_length, List.take_of_length_le (by simp at hlength; omega)] at htake
  exact htake

/-! ### Where a text ends -/

theorem not_value_of_head? {l t : List α} (h : ∀ a ∈ t, M.value a = false) {k v rest : List α}
    (hmatch : M.Match (l ++ t) k v rest) : ∃ b l', l = k ++ b :: l' ∧ M.value b = true := by
  cases hv : v with
  | nil => exact absurd hv hmatch.nonempty
  | cons b v' =>
    have hb : M.value b = true := hmatch.value b (by rw [hv]; exact List.mem_cons_self)
    have htext : l ++ t = k ++ (b :: (v' ++ rest)) := by rw [hmatch.text, hv]; rfl
    rcases List.append_eq_append_iff.mp htext with ⟨x, -, hx⟩ | ⟨x, rfl, hx⟩
    · have hmem : b ∈ t := by rw [hx]; simp
      rw [h b hmem] at hb
      cases hb
    · cases x with
      | nil =>
        have hmem : b ∈ t := by rw [← List.nil_append t, ← hx]; exact List.mem_cons_self
        rw [h b hmem] at hb
        cases hb
      | cons c x => exact ⟨b, x, by rw [(List.cons.inj hx).1], hb⟩

/-- Symbols that stand in no value are left alone at the end of a text. -/
theorem pieces_append_blank {l t : List α} (h : ∀ a ∈ t, M.value a = false) :
    M.pieces (l ++ t) = M.pieces l ++ t.map .plain := by
  induction l using M.scan_induction with
  | nil =>
    rw [pieces_nil, List.nil_append, List.nil_append]
    induction t with
    | nil => exact pieces_nil
    | cons a t ih =>
      rw [pieces_plain (next_of_head (h a List.mem_cons_self)), List.map_cons,
        ih fun b hb => h b (List.mem_cons_of_mem a hb)]
  | plain a l hnext ih =>
    -- a match would end before the blanks
    have hnext' : M.next (a :: (l ++ t)) = none := by
      rw [next_eq_none_iff]
      intro k v rest hmatch
      obtain ⟨b, l', hl, hb⟩ := not_value_of_head? (l := a :: l) h hmatch
      obtain ⟨v', rest', hmatch'⟩ := Opens.exists_match (l := l') hmatch.opens hb
      rw [← hl] at hmatch'
      exact next_eq_none_iff.mp hnext _ v' rest' hmatch'
    rw [List.cons_append, pieces_plain hnext', pieces_plain hnext, ih, List.cons_append]
  | hidden l k v rest hmatch ih =>
    -- the blanks do not lengthen the value
    have hmatch' : M.Match (l ++ t) k v (rest ++ t) := by
      refine ⟨by rw [hmatch.text]; simp, hmatch.opens, hmatch.nonempty, hmatch.value, ?_⟩
      cases rest with
      | nil => exact fun a ha => h a (List.mem_of_mem_head? ha)
      | cons b rest => exact hmatch.ends
    rw [hmatch'.pieces_eq, hmatch.pieces_eq, ih, List.cons_append]

/-- ... and at its start. -/
theorem pieces_blank_append {l t : List α} (h : ∀ a ∈ t, M.value a = false) :
    M.pieces (t ++ l) = t.map .plain ++ M.pieces l := by
  induction t with
  | nil => rfl
  | cons a t ih =>
    rw [List.cons_append, pieces_plain (next_of_head (h a List.mem_cons_self)),
      ih fun b hb => h b (List.mem_cons_of_mem a hb)]
    rfl

theorem flatMap_masked_plain (l : List α) : (l.map Piece.plain).flatMap M.masked = l := by
  induction l with
  | nil => rfl
  | cons a l ih => exact congrArg (a :: ·) ih

theorem mask_blanks {s l t : List α} (hs : ∀ a ∈ s, M.value a = false)
    (ht : ∀ a ∈ t, M.value a = false) : M.mask (s ++ l ++ t) = s ++ M.mask l ++ t := by
  rw [mask, pieces_append_blank ht, pieces_blank_append hs, List.flatMap_append,
    List.flatMap_append, flatMap_masked_plain, flatMap_masked_plain]
  rfl

theorem values_blanks {s l t : List α} (hs : ∀ a ∈ s, M.value a = false)
    (ht : ∀ a ∈ t, M.value a = false) : M.values (s ++ l ++ t) = M.values l := by
  have hplain : ∀ l : List α, (l.map Piece.plain).filterMap (Piece.hidden? (α := α)) = [] := by
    intro l
    simp [Piece.hidden?]
  rw [values, pieces_append_blank ht, pieces_blank_append hs, List.filterMap_append,
    List.filterMap_append, hplain, hplain]
  simp [values]

/-- A text ends inside a word after masking if it did before. -/
theorem ends_mask (l : List α) (open' : Bool) :
    Words.ends M.value open' (M.mask l) = Words.ends M.value open' l := by
  have hword : ∀ {w : List α}, w ≠ [] → (∀ a ∈ w, M.value a = true) → ∀ open',
      Words.ends M.value open' w = true := by
    intro w hne hw open'
    induction w generalizing open' with
    | nil => exact absurd rfl hne
    | cons a w ih =>
      rw [Words.ends_cons, hw a List.mem_cons_self]
      by_cases hnil : w = []
      · rw [hnil]
        rfl
      · exact ih hnil (fun b hb => hw b (List.mem_cons_of_mem a hb)) true
  induction l using M.scan_induction generalizing open' with
  | nil => rw [mask_nil]
  | plain a l hnext ih => rw [mask_plain hnext, Words.ends_cons, Words.ends_cons, ih]
  | hidden l k v rest hmatch ih =>
    rw [hmatch.mask_eq, hmatch.text, Words.ends_append, Words.ends_append, Words.ends_append,
      Words.ends_append, hword M.hole_ne_nil M.hole_value, hword hmatch.nonempty hmatch.value, ih]

/-- Masking keeps the first symbol, unless it has nothing to keep. -/
theorem head?_mask_eq (l : List α) : (M.mask l).head? = l.head? := by
  cases l with
  | nil => rw [mask_nil]
  | cons a l =>
    cases hnext : M.next (a :: l) with
    | none => rw [mask_plain hnext]; rfl
    | some kv =>
      obtain ⟨rest, hmatch⟩ := exists_match hnext
      cases hk : kv.1 with
      | nil => exact absurd (hk ▸ hmatch.opens) M.not_opens_nil
      | cons b k =>
        have htext := hmatch.text
        rw [hk] at htext
        rw [hmatch.mask_eq, hk]
        exact congrArg some (List.cons.inj htext).1.symm

/-! ### Doubled symbols -/

section double

variable [DecidableEq α] {d : α}

/-- The text with every `d` twice. -/
def double (d : α) (l : List α) : List α := l.flatMap fun a => if a = d then [a, a] else [a]

@[simp] theorem double_nil : double d [] = [] := rfl

theorem double_append (l m : List α) : double d (l ++ m) = double d l ++ double d m :=
  List.flatMap_append

theorem double_of_notMem {l : List α} (h : d ∉ l) : double d l = l := by
  induction l with
  | nil => rfl
  | cons a l ih =>
    have ha : a ≠ d := fun heq => h (heq ▸ List.mem_cons_self)
    show (if a = d then [a, a] else [a]) ++ double d l = a :: l
    rw [if_neg ha, ih fun hmem => h (List.mem_cons_of_mem a hmem)]
    rfl

theorem head?_double (l : List α) : (double d l).head? = l.head? := by
  cases l with
  | nil => rfl
  | cons a l =>
    show ((if a = d then [a, a] else [a]) ++ double d l).head? = some a
    split <;> rfl

theorem mem_double {a : α} {l : List α} : a ∈ double d l ↔ a ∈ l := by
  unfold double
  rw [List.mem_flatMap]
  constructor
  · rintro ⟨b, hb, hmem⟩
    split at hmem <;> simp_all
  · intro ha
    refine ⟨a, ha, ?_⟩
    split <;> exact List.mem_cons_self

/-- A text without `d` at the start of the doubled text starts the text as well. -/
theorem exists_of_double_eq {k l m : List α} (hk : d ∉ k) (h : double d l = k ++ m) :
    ∃ l', l = k ++ l' ∧ double d l' = m := by
  induction k generalizing l with
  | nil => exact ⟨l, rfl, h⟩
  | cons a k ih =>
    cases l with
    | nil => cases h
    | cons b l =>
      have hsplit : (if b = d then [b, b] else [b]) ++ double d l = a :: (k ++ m) := h
      have hb : b ≠ d := by
        intro heq
        rw [if_pos heq] at hsplit
        exact hk ((List.cons.inj hsplit).1 ▸ heq ▸ List.mem_cons_self)
      rw [if_neg hb] at hsplit
      obtain ⟨rfl, hrest⟩ := List.cons.inj hsplit
      obtain ⟨l', rfl, hl'⟩ := ih (fun hmem => hk (List.mem_cons_of_mem b hmem)) hrest
      exact ⟨l', rfl, hl'⟩

/-- Doubling a symbol that stands in no opening is not seen by the masker. -/
theorem mask_double (hopens : ∀ k, M.Opens k → d ∉ k) (hhole : d ∉ M.hole) (l : List α) :
    M.mask (double d l) = double d (M.mask l) := by
  have hnone : ∀ {l : List α}, M.next (d :: l) = none := by
    intro l
    rw [next_eq_none_iff]
    intro k v rest hmatch
    cases k with
    | nil => exact M.not_opens_nil hmatch.opens
    | cons a k =>
      have ha : d = a := (List.cons.inj hmatch.text).1
      exact hopens _ hmatch.opens (ha ▸ List.mem_cons_self)
  induction l using M.scan_induction with
  | nil => rw [mask_nil, double_nil, mask_nil]
  | plain a l hnext ih =>
    rw [mask_plain hnext]
    show M.mask ((if a = d then [a, a] else [a]) ++ double d l) =
      (if a = d then [a, a] else [a]) ++ double d (M.mask l)
    by_cases ha : a = d
    · subst ha
      rw [if_pos rfl]
      show M.mask (a :: (a :: double a l)) = a :: a :: double a (M.mask l)
      rw [mask_plain hnone, mask_plain hnone, ih]
    · have hnext' : M.next (a :: double d l) = none := by
        rw [next_eq_none_iff]
        intro k v rest hmatch
        have heq : double d (a :: l) = k ++ (v ++ rest) := by
          rw [← hmatch.text]
          show (if a = d then [a, a] else [a]) ++ double d l = a :: double d l
          rw [if_neg ha]
          rfl
        obtain ⟨l', hl', hdouble⟩ := exists_of_double_eq (hopens k hmatch.opens) heq
        -- the value in the doubled text begins with a symbol of the text
        have hhead := head?_value (t := rest) hmatch.nonempty hmatch.value
        rw [← hdouble, head?_double] at hhead
        cases l' with
        | nil =>
          have hnil := hdouble.symm.trans double_nil
          exact hmatch.nonempty (List.append_eq_nil_iff.mp hnil).1
        | cons b l' =>
          obtain ⟨v', rest', hmatch'⟩ :=
            Opens.exists_match (l := l') hmatch.opens (hhead b rfl)
          rw [← hl'] at hmatch'
          exact next_eq_none_iff.mp hnext _ v' rest' hmatch'
      rw [if_neg ha]
      show M.mask (a :: double d l) = a :: double d (M.mask l)
      rw [mask_plain hnext', ih]
  | hidden l k v rest hmatch ih =>
    have hmatch' : M.Match (double d l) k (double d v) (double d rest) := by
      refine ⟨?_, hmatch.opens, ?_, fun a ha => hmatch.value a (mem_double.mp ha), ?_⟩
      · rw [hmatch.text, double_append, double_append, double_of_notMem (hopens k hmatch.opens)]
      · intro hnil
        have hhead := head?_double (d := d) v
        rw [hnil] at hhead
        exact hmatch.nonempty (List.head?_eq_none_iff.mp hhead.symm)
      · rw [head?_double]
        exact hmatch.ends
    rw [hmatch'.mask_eq, hmatch.mask_eq, double_append, double_append,
      double_of_notMem (hopens k hmatch.opens), double_of_notMem hhole, ih]

end double

/-! ### Words that masking leaves -/

variable (M) in
/-- The word stands in a match without its value, or in the text that leads up to it. -/
def Leads (v l : List α) : Prop :=
  ∃ head k w, head.map Piece.plain ++ [.hidden k w] <:+: M.pieces l ∧ v <:+: head ++ (k ++ M.hole)

variable (M) in
/-- A piece after a value begins with a symbol that stands in none. -/
inductive Settled : List (Piece α) → Prop
  | nil : Settled []
  | plain {a : α} {ps : List (Piece α)} (h : Settled ps) : Settled (.plain a :: ps)
  | last {k v : List α} : Settled [.hidden k v]
  | hidden {k v : List α} {a : α} {ps : List (Piece α)} (ha : M.value a = false)
      (h : Settled (.plain a :: ps)) : Settled (.hidden k v :: .plain a :: ps)

theorem settled_pieces (l : List α) : M.Settled (M.pieces l) := by
  induction l using M.scan_induction with
  | nil =>
    rw [pieces_nil]
    exact .nil
  | plain a l hnext ih =>
    rw [pieces_plain hnext]
    exact .plain ih
  | hidden l k v rest hmatch ih =>
    rw [hmatch.pieces_eq]
    cases rest with
    | nil =>
      rw [pieces_nil]
      exact .last
    | cons a rest =>
      have ha := hmatch.ends a rfl
      rw [pieces_plain (next_of_head ha)] at ih ⊢
      exact .hidden ha ih

/-- No word reaches across another symbol. -/
theorem infix_of_infix_append_cons {v x y : List α} {c : α} (hv : ∀ a ∈ v, M.value a = true)
    (hc : M.value c = false) (h : v <:+: x ++ c :: y) : v <:+: x ∨ v <:+: c :: y := by
  induction x with
  | nil => exact .inr h
  | cons a x ih =>
    rcases List.infix_cons_iff.mp h with hbegins | hin
    · refine .inl (List.IsPrefix.isInfix ?_)
      rcases List.prefix_or_prefix_of_prefix hbegins (List.prefix_append (a :: x) (c :: y)) with
        hle | ⟨t, rfl⟩
      · exact hle
      · cases t with
        | nil => rw [List.append_nil]
        | cons b t =>
          have hb : b = c :=
            (List.cons_prefix_cons.mp ((List.prefix_append_right_inj (a :: x)).mp hbegins)).1
          rw [← hb, hv b (by simp)] at hc
          cases hc
    · exact (ih hin).imp_left fun hin => hin.trans (List.suffix_cons a x).isInfix

/-- A word that masking leaves stood outside the matches, or it stands in a
match without its value and what leads up to it. -/
theorem outside_or_leads {v l : List α} (hv : ∀ a ∈ v, M.value a = true)
    (h : v <:+: M.mask l) : M.Outside v l ∨ M.Leads v l := by
  have hpieces : ∀ {ps : List (Piece α)}, M.Settled ps → ∀ head : List α,
      v <:+: head ++ ps.flatMap M.masked → v.map Piece.plain <:+: head.map .plain ++ ps ∨
        ∃ head' k w, head'.map Piece.plain ++ [.hidden k w] <:+: head.map .plain ++ ps ∧
          v <:+: head' ++ (k ++ M.hole) := by
    intro ps hps
    -- the induction is on the pieces, with the plain characters before them
    induction hps with
    | nil =>
      intro head hin
      rw [List.flatMap_nil, List.append_nil] at hin
      rw [List.append_nil]
      exact .inl (hin.map _)
    | @plain a ps _ ih =>
      intro head hin
      have hhead := ih (head ++ [a]) (by simpa [masked] using hin)
      simpa using hhead
    | @last k w =>
      -- the text ends with a masked value
      intro head hin
      refine .inr ⟨head, k, w, List.infix_rfl, ?_⟩
      simpa [masked] using hin
    | @hidden k w a ps ha _ ih =>
      intro head hin
      have hsplit : v <:+: (head ++ (k ++ M.hole)) ++ a :: ps.flatMap M.masked := by
        simpa [masked] using hin
      have hsuffix : ∀ t : List (Piece α), t <:+: .plain a :: ps →
          t <:+: head.map .plain ++ .hidden k w :: .plain a :: ps := fun t ht =>
        ht.trans ((List.suffix_cons (Piece.hidden k w) _).trans (List.suffix_append _ _)).isInfix
      -- the character behind a value is in no word
      rcases infix_of_infix_append_cons hv ha hsplit with hin | hin
      · refine .inr ⟨head, k, w, ?_, hin⟩
        exact ⟨[], .plain a :: ps, by simp⟩
      · rcases ih [] (by simpa [masked] using hin) with hout | ⟨head', k', w', hmem, hin'⟩
        · exact .inl (hsuffix _ (by simpa using hout))
        · exact .inr ⟨head', k', w', hsuffix _ (by simpa using hmem), hin'⟩
  simpa [Outside, Leads] using hpieces (settled_pieces l) [] (by simpa [mask] using h)

/-- What stands in a match without its value is left by masking. -/
theorem infix_mask_of_leads {v l : List α} (h : M.Leads v l) : v <:+: M.mask l := by
  obtain ⟨head, k, w, ⟨ps, qs, hpieces⟩, hin⟩ := h
  refine hin.trans ⟨ps.flatMap M.masked, qs.flatMap M.masked, ?_⟩
  rw [mask, ← hpieces]
  simp [flatMap_masked_plain, masked]

end Masker

end Masking
