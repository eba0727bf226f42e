import TallyConnector.Tally.XmlParser
import TallyConnector.Text.Deletion

/-! # Character references

How a document spells a character, which characters XML 1.0 forbids, and
which references `_CONTROL_CHAR_ENTITY_PATTERN` matches.
-/

namespace TallyConnector

open Deletion

/-! ## Spellings -/

def IsDigit (b : UInt8) : Prop := 0x30 ≤ b.toNat ∧ b.toNat ≤ 0x39

def IsHexDigit (b : UInt8) : Prop :=
  IsDigit b ∨ (0x41 ≤ b.toNat ∧ b.toNat ≤ 0x46) ∨ (0x61 ≤ b.toNat ∧ b.toNat ≤ 0x66)

instance (b : UInt8) : Decidable (IsDigit b) := inferInstanceAs (Decidable (_ ∧ _))

instance (b : UInt8) : Decidable (IsHexDigit b) := inferInstanceAs (Decidable (_ ∨ _))

def hexDigit (b : UInt8) : Nat :=
  if b.toNat ≤ 0x39 then b.toNat - 0x30
  else if b.toNat ≤ 0x46 then b.toNat - 0x37
  else b.toNat - 0x57

/-- The number that digits of a base write. -/
def numeral (base : Nat) (digits : Bytes) : Nat :=
  digits.foldl (fun n b => base * n + hexDigit b) 0

/-- `&#…;` around its digits. -/
def reference (body : Bytes) : Bytes := 0x26 :: 0x23 :: (body ++ [0x3B])

/-- A reference to the character with that code. -/
inductive Reference : Bytes → Nat → Prop
  | decimal {digits : Bytes} (hne : digits ≠ []) (h : ∀ b ∈ digits, IsDigit b) :
      Reference (reference digits) (numeral 10 digits)
  | hexadecimal {digits : Bytes} (hne : digits ≠ []) (h : ∀ b ∈ digits, IsHexDigit b) :
      Reference (reference (0x78 :: digits)) (numeral 16 digits)

/-- The ways to write a low character: the byte itself, or a reference. -/
inductive Spelling : Bytes → Nat → Prop
  | raw (b : UInt8) : Spelling [b] b.toNat
  | reference {s : Bytes} {n : Nat} (h : Reference s n) : Spelling s n

/-- The codes below 32 that XML 1.0 forbids. -/
def Forbidden (n : Nat) : Prop := n < 32 ∧ n ≠ 9 ∧ n ≠ 10 ∧ n ≠ 13

instance (n : Nat) : Decidable (Forbidden n) := inferInstanceAs (Decidable (_ ∧ _))

/-- A stray control character, in any spelling. -/
def Stray (s : Bytes) : Prop := ∃ n, Spelling s n ∧ Forbidden n

/-- A stray control character or a reference. -/
def Token (s : Bytes) : Prop := Stray s ∨ ∃ n, Reference s n

/-- The bytes inside references. -/
def Inner (b : UInt8) : Prop := 32 ≤ b.toNat ∧ b ≠ 0x26 ∧ b ≠ 0x3B

instance (b : UInt8) : Decidable (Inner b) := inferInstanceAs (Decidable (_ ∧ _))

theorem IsHexDigit.inner {b : UInt8} (h : IsHexDigit b) : Inner b := by
  unfold IsHexDigit IsDigit at h
  refine ⟨by omega, ?_, ?_⟩
  · rintro rfl
    revert h
    decide
  · rintro rfl
    revert h
    decide

theorem Reference.shape {s : Bytes} {n : Nat} (h : Reference s n) :
    ∃ body, s = 0x26 :: (body ++ [0x3B]) ∧ ∀ b ∈ body, Inner b := by
  cases h with
  | @decimal digits _ hdigits =>
    refine ⟨0x23 :: digits, rfl, List.forall_mem_cons.mpr ⟨by decide, ?_⟩⟩
    intro b hb
    exact IsHexDigit.inner (.inl (hdigits b hb))
  | @hexadecimal digits _ hdigits =>
    refine ⟨0x23 :: 0x78 :: digits, rfl,
      List.forall_mem_cons.mpr ⟨by decide, List.forall_mem_cons.mpr ⟨by decide, ?_⟩⟩⟩
    intro b hb
    exact (hdigits b hb).inner

theorem reference_injective {body body' : Bytes} (h : reference body = reference body') :
    body = body' := by
  injection h with _ h
  injection h with _ h
  exact (List.append_inj' h rfl).1

/-- A reference names one character. -/
theorem Reference.unique {s : Bytes} {n k : Nat} (hn : Reference s n) (hk : Reference s k) :
    n = k := by
  have hx : ¬ IsDigit 0x78 := by decide
  generalize hs : s = s' at hk
  cases hn with
  | decimal _ hdigits =>
    cases hk with
    | decimal => rw [reference_injective hs]
    | hexadecimal =>
      rw [reference_injective hs] at hdigits
      exact absurd (hdigits 0x78 List.mem_cons_self) hx
  | hexadecimal =>
    cases hk with
    | decimal _ hdigits =>
      rw [← reference_injective hs] at hdigits
      exact absurd (hdigits 0x78 List.mem_cons_self) hx
    | hexadecimal =>
      injection reference_injective hs with _ hbody
      rw [hbody]

/-- A reference to an allowed character is no stray one. -/
theorem Reference.not_stray {s : Bytes} {n : Nat} (h : Reference s n) (hn : ¬ Forbidden n) :
    ¬ Stray s := by
  rintro ⟨k, hspelling, hforbidden⟩
  cases hspelling with
  | raw b =>
    rcases h.shape with ⟨body, hbody, -⟩
    injection hbody with _ hnil
    exact absurd hnil.symm (List.append_ne_nil_of_right_ne_nil body (List.cons_ne_nil _ []))
  | reference hk => exact hn (h.unique hk ▸ hforbidden)

theorem Token.shape {s : Bytes} (h : Token s) :
    (∃ b : UInt8, s = [b] ∧ b.toNat < 32) ∨
      ∃ body, s = 0x26 :: (body ++ [0x3B]) ∧ ∀ b ∈ body, Inner b := by
  rcases h with ⟨n, hspelling, hforbidden⟩ | ⟨n, href⟩
  · cases hspelling with
    | raw b => exact .inl ⟨b, rfl, hforbidden.1⟩
    | reference href => exact .inr href.shape
  · exact .inr href.shape

/-- References and stray control characters do not overlap. -/
theorem token_separated : Separated Token where
  nonempty := by
    intro h
    rcases h.shape with ⟨b, hb, -⟩ | ⟨body, hbody, -⟩
    · exact absurd hb.symm (List.cons_ne_nil b [])
    · exact absurd hbody.symm (List.cons_ne_nil _ _)
  head := by
    intro a b s t hs ht hmem
    rcases ht.shape with ⟨c, hc, -⟩ | ⟨body, hbody, hinner⟩
    · injection hc with _ hnil
      exact List.not_mem_nil (hnil ▸ hmem)
    injection hbody with _ htail
    rw [htail, List.mem_append, List.mem_singleton] at hmem
    rcases hs.shape with ⟨c, hc, hlow⟩ | ⟨body', hbody', -⟩
    · injection hc with hac _
      subst hac
      rcases hmem with hin | hsemi
      · exact absurd hlow (by have := (hinner a hin).1; omega)
      · exact absurd hlow (by subst hsemi; decide)
    · injection hbody' with hamp _
      subst hamp
      rcases hmem with hin | hsemi
      · exact (hinner _ hin).2.1 rfl
      · exact absurd hsemi (by decide)
  prefixFree := by
    intro s t hs ht
    rcases hs.shape with ⟨b, rfl, hlow⟩ | ⟨body, rfl, -⟩
    · rcases ht.shape with ⟨c, hc, -⟩ | ⟨body', hbody', -⟩
      · injection hc with _ hnil
      · injection hbody' with hamp _
        exact absurd hlow (by rw [hamp]; decide)
    · rcases ht.shape with ⟨c, hc, -⟩ | ⟨body', hbody', hinner⟩
      · simp at hc
      · rcases List.eq_nil_or_concat t with rfl | ⟨t, last, rfl⟩
        · rfl
        · -- the semicolon that ends the first one would stand inside the second
          have hcat : (body ++ 0x3B :: t) ++ [last] = body' ++ [0x3B] := by
            simpa using hbody'
          have hbody : body ++ 0x3B :: t = body' := (List.append_inj' hcat rfl).1
          exact absurd rfl (hinner 0x3B (hbody ▸ by simp)).2.2

theorem Stray.token {s : Bytes} (h : Stray s) : Token s := .inl h

theorem Reference.token {s : Bytes} {n : Nat} (h : Reference s n) : Token s := .inr ⟨n, h⟩

theorem stray_separated : Separated Stray := token_separated.mono fun _ => Stray.token

/-! ## What the pattern matches -/

/-- The pattern matches all of it. -/
def Fullmatch (s : Bytes) : Prop := s ≠ [] ∧ controlCharEntity s = s.length

/-- The numbers `[0-8]|1[124-9]|2[0-9]|3[01]`. -/
inductive ShortCode : Bytes → Prop
  | one {a : UInt8} (h : 0x30 ≤ a ∧ a ≤ 0x38) : ShortCode [a]
  | teen {b : UInt8} (h : b = 0x31 ∨ b = 0x32 ∨ (0x34 ≤ b ∧ b ≤ 0x39)) : ShortCode [0x31, b]
  | twenty {b : UInt8} (h : 0x30 ≤ b ∧ b ≤ 0x39) : ShortCode [0x32, b]
  | thirty {b : UInt8} (h : b = 0x30 ∨ b = 0x31) : ShortCode [0x33, b]

theorem ShortCode.digits {code : Bytes} (h : ShortCode code) : ∀ b ∈ code, IsDigit b := by
  cases h with
  | one h =>
    rw [UInt8.le_iff_toNat_le, UInt8.le_iff_toNat_le] at h
    refine List.forall_mem_singleton.mpr ⟨h.1, ?_⟩
    have hle := h.2
    simp at hle
    omega
  | teen h =>
    refine List.forall_mem_cons.mpr ⟨by decide, List.forall_mem_singleton.mpr ?_⟩
    rcases h with rfl | rfl | h
    · decide
    · decide
    · rw [UInt8.le_iff_toNat_le, UInt8.le_iff_toNat_le] at h
      have hle := h.1
      simp at hle
      exact ⟨by omega, h.2⟩
  | twenty h =>
    rw [UInt8.le_iff_toNat_le, UInt8.le_iff_toNat_le] at h
    exact List.forall_mem_cons.mpr ⟨by decide, List.forall_mem_singleton.mpr h⟩
  | thirty h =>
    refine List.forall_mem_cons.mpr ⟨by decide, List.forall_mem_singleton.mpr ?_⟩
    rcases h with rfl | rfl <;> decide

theorem IsDigit.hexDigit {b : UInt8} (h : IsDigit b) : hexDigit b = b.toNat - 0x30 :=
  if_pos h.2

/-- The numbers are the codes that XML 1.0 forbids. -/
theorem ShortCode.forbidden {code : Bytes} (h : ShortCode code) :
    Forbidden (numeral 10 code) := by
  have hdigits := h.digits
  unfold numeral Forbidden
  -- each kind of code is a number below 32, tab and line breaks apart
  cases h with
  | one h =>
    rw [UInt8.le_iff_toNat_le, UInt8.le_iff_toNat_le] at h
    have hle := h.2
    simp at hle
    simp only [List.foldl_cons, List.foldl_nil, (hdigits _ List.mem_cons_self).hexDigit]
    omega
  | @teen b h =>
    have hb : b.toNat = 0x31 ∨ b.toNat = 0x32 ∨ (0x34 ≤ b.toNat ∧ b.toNat ≤ 0x39) := by
      rcases h with rfl | rfl | h
      · exact .inl rfl
      · exact .inr (.inl rfl)
      · rw [UInt8.le_iff_toNat_le, UInt8.le_iff_toNat_le] at h
        exact .inr (.inr h)
    have hdigit := (hdigits b (by simp)).hexDigit
    have htens : TallyConnector.hexDigit 0x31 = 1 := rfl
    simp only [List.foldl_cons, List.foldl_nil, hdigit, htens]
    omega
  | @twenty b h =>
    have hb := hdigits b (by simp)
    have htens : TallyConnector.hexDigit 0x32 = 2 := rfl
    simp only [List.foldl_cons, List.foldl_nil, hb.hexDigit, htens]
    have := hb.1
    have := hb.2
    omega
  | thirty h =>
    rcases h with rfl | rfl <;> decide

/-- The pattern matches a short reference wherever it stands. -/
theorem ShortCode.controlCharEntity {code : Bytes} (h : ShortCode code) (rest : Bytes) :
    controlCharEntity (reference code ++ rest) = (reference code).length := by
  cases h with
  | @one a h =>
    simp [reference, TallyConnector.controlCharEntity, h]
  | @teen b h =>
    have hb : b ≠ 0x3B := by
      rintro rfl
      revert h
      decide
    simpa [reference, TallyConnector.controlCharEntity, hb, or_iff_not_imp_left] using h
  | @twenty b h =>
    have hb : b ≠ 0x3B := by
      rintro rfl
      revert h
      decide
    simp [reference, TallyConnector.controlCharEntity, h, hb]
  | @thirty b h =>
    have hb : b ≠ 0x3B := by
      rintro rfl
      revert h
      decide
    simp [reference, TallyConnector.controlCharEntity, h, hb]

/-- Every match is a short reference. -/
theorem controlCharEntity_match {l : Bytes} (h : controlCharEntity l ≠ 0) :
    ∃ code rest, ShortCode code ∧ l = reference code ++ rest := by
  unfold controlCharEntity at h
  split at h
  · rename_i a rest
    split at h
    · rename_i b rest'
      split at h
      · rename_i hb
        split at h
        · -- one digit and the semicolon
          rename_i ha
          refine ⟨[a], rest', .one (by simpa using ha), ?_⟩
          rw [eq_of_beq hb]
          rfl
        · exact absurd rfl h
      · simp only at h
        split at h
        · -- two digits and the semicolon
          rename_i htwo
          rw [Bool.and_eq_true, beq_iff_eq, List.head?_eq_some_iff] at htwo
          rcases htwo with ⟨hcode, rest'', hrest⟩
          simp only [Bool.or_eq_true, Bool.and_eq_true, beq_iff_eq, decide_eq_true_eq] at hcode
          have hshort : ShortCode [a, b] := by
            rcases hcode with (⟨rfl, hb⟩ | ⟨⟨rfl, hge⟩, hle⟩) | ⟨rfl, hb⟩
            · exact .teen (or_assoc.mp hb)
            · exact .twenty ⟨hge, hle⟩
            · exact .thirty hb
          exact ⟨[a, b], rest'', hshort, by rw [hrest]; rfl⟩
        · exact absurd rfl h
    · exact absurd rfl h
  · exact absurd rfl h

theorem fullmatch_iff {s : Bytes} : Fullmatch s ↔ ∃ code, ShortCode code ∧ s = reference code := by
  constructor
  · intro ⟨hne, hmatch⟩
    have hpos : controlCharEntity s ≠ 0 := by
      rw [hmatch]
      exact fun hlen => hne (List.length_eq_zero_iff.mp hlen)
    rcases controlCharEntity_match hpos with ⟨code, rest, hcode, hs⟩
    have hlen : rest.length = 0 := by
      have hwhole := hcode.controlCharEntity rest
      rw [← hs, hmatch, hs, List.length_append] at hwhole
      omega
    exact ⟨code, hcode, by rw [hs, List.length_eq_zero_iff.mp hlen, List.append_nil]⟩
  · rintro ⟨code, hcode, rfl⟩
    exact ⟨List.cons_ne_nil _ _, by simpa using hcode.controlCharEntity []⟩

/-- What the pattern matches is a stray control character. -/
theorem Fullmatch.stray {s : Bytes} (h : Fullmatch s) : Stray s := by
  rcases fullmatch_iff.mp h with ⟨code, hcode, rfl⟩
  have hne : code ≠ [] := by
    cases hcode <;> exact List.cons_ne_nil _ _
  exact ⟨_, .reference (.decimal hne hcode.digits), hcode.forbidden⟩

theorem Fullmatch.length_eq {s : Bytes} (h : Fullmatch s) (rest : Bytes) :
    controlCharEntity (s ++ rest) = s.length := by
  rcases fullmatch_iff.mp h with ⟨code, hcode, rfl⟩
  exact hcode.controlCharEntity rest

theorem scrubControlChars_skip (n : Nat) (l : Bytes) :
    scrubControlChars n l = scrubControlChars 0 (l.drop n) := by
  induction n generalizing l with
  | zero => rfl
  | succ n ih =>
    cases l with
    | nil => rfl
    | cons b l => exact ih l

/-- The substitution is a pass that takes out what the pattern matches. -/
theorem scrub_sweeps (l : Bytes) : Sweeps Fullmatch l (scrubControlChars 0 l) := by
  induction hlen : l.length using Nat.strong_induction_on generalizing l with
  | _ len ih =>
    subst hlen
    cases l with
    | nil => exact .nil
    | cons b bs =>
      -- no reference starts here: the byte is kept
      by_cases hzero : controlCharEntity (b :: bs) = 0
      · have hkeep : scrubControlChars 0 (b :: bs) = b :: scrubControlChars 0 bs := by
          simp only [scrubControlChars, hzero]
        rw [hkeep]
        refine .keep ?_ (ih bs.length (by simp) bs rfl)
        rintro piece ⟨rest, hrest⟩ hpiece
        have hlen := hpiece.length_eq rest
        rw [hrest, hzero] at hlen
        exact hpiece.1 (List.length_eq_zero_iff.mp hlen.symm)
      · -- a reference starts here, and is dropped
        rcases controlCharEntity_match hzero with ⟨code, rest, hcode, hl⟩
        have hlen : controlCharEntity (b :: bs) = (reference code).length := by
          rw [hl]
          exact hcode.controlCharEntity rest
        have hdrop : scrubControlChars 0 (b :: bs) = scrubControlChars 0 rest := by
          obtain ⟨n, hn⟩ := Nat.exists_eq_succ_of_ne_zero hzero
          have hrest : bs.drop n = rest := by
            have hdrop : (b :: bs).drop (n + 1) = (reference code ++ rest).drop (n + 1) :=
              congrArg _ hl
            rwa [List.drop_succ_cons, List.drop_left' (hlen.symm.trans hn)] at hdrop
          simp only [scrubControlChars, hn]
          rw [scrubControlChars_skip, hrest]
        rw [hdrop, hl]
        refine .drop (fullmatch_iff.mpr ⟨code, hcode, rfl⟩) (ih rest.length ?_ rest rfl)
        rw [hl, List.length_append]
        simp [reference]

end TallyConnector
