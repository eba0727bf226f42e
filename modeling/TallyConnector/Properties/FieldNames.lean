import TallyConnector.Tally.XmlParser

/-! # Field names and record keys

`_pascal_to_snake` turns the name of a Tally field into the key of a record.
A name is read as a list of words, each a capitalised word or an acronym. Two
passes of substitution put an underscore between two words: the first in front
of capitalised words, as long as the character before them is not part of the
match before, the second in front of what is left.
-/

namespace TallyConnector

/-- A word of a field name. -/
inductive Word where
  /-- A capital letter and small letters after it. -/
  | capitalised (initial : Char) (small : List Char) (hinitial : initial.isUpper)
      (hne : small ≠ []) (hsmall : ∀ c ∈ small, c.isLower)
  /-- Capital letters, or only one. -/
  | acronym (capitals : List Char) (hne : capitals ≠ []) (hcapitals : ∀ c ∈ capitals, c.isUpper)

namespace Word

def text : Word → List Char
  | capitalised initial small _ _ _ => initial :: small
  | acronym capitals _ _ => capitals

def lower (w : Word) : List Char := w.text.map Char.toLower

def IsAcronym : Word → Prop
  | capitalised .. => False
  | acronym .. => True

/-- Two words that may stand next to each other. -/
def Apart (w v : Word) : Prop := ¬ (w.IsAcronym ∧ v.IsAcronym)

/-- The name that these words make. -/
def spell (words : List Word) : List Char := words.flatMap text

/-- The words in small letters, with underscores between them. -/
def snake (words : List Word) : List Char := ['_'].intercalate (words.map lower)

@[simp] theorem spell_nil : spell [] = [] := rfl

@[simp] theorem spell_cons (w : Word) (words : List Word) :
    spell (w :: words) = w.text ++ spell words := rfl

end Word

open Word

/-! ## Letters -/

theorem not_isLower_of_isUpper {c : Char} (h : c.isUpper = true) : c.isLower = false := by
  delta Char.isUpper Char.isLower at *
  grind

theorem not_isUpper_of_isLower {c : Char} (h : c.isLower = true) : c.isUpper = false := by
  delta Char.isUpper Char.isLower at *
  grind

theorem ne_of_isUpper {c d : Char} (h : c.isUpper = true) (hd : d.isUpper = false) : c ≠ d := by
  intro heq
  rw [heq, hd] at h
  cases h

/-- The text is empty or starts with a capital letter. -/
def Fresh (t : List Char) : Prop := ∀ c rest, t = c :: rest → c.isUpper = true

theorem fresh_nil : Fresh [] := by
  intro c rest h
  cases h

theorem Word.fresh (w : Word) (t : List Char) : Fresh (w.text ++ t) := by
  intro c rest h
  cases w with
  | capitalised initial small hinitial _ _ =>
    have hc : initial = c := (List.cons.inj h).1
    rwa [← hc]
  | acronym capitals hne hcapitals =>
    cases capitals with
    | nil => exact absurd rfl hne
    | cons d capitals =>
      have hc : d = c := (List.cons.inj h).1
      rw [← hc]
      exact hcapitals d List.mem_cons_self

theorem fresh_spell (words : List Word) : Fresh (spell words) := by
  cases words with
  | nil => exact fresh_nil
  | cons w words => exact w.fresh _

/-! ## The first pass -/

/-- Characters that a match has consumed stay as they are. -/
theorem acronymBoundary_skip (s t : List Char) :
    acronymBoundary s.length (s ++ t) = s ++ acronymBoundary 0 t := by
  induction s with
  | nil => rfl
  | cons c s ih =>
    show c :: acronymBoundary s.length (s ++ t) = c :: (s ++ acronymBoundary 0 t)
    rw [ih]

/-- Nothing happens in front of what is not a capitalised word. -/
theorem acronymBoundary_keep (c : Char) {t : List Char}
    (h : ∀ a b rest, t = a :: b :: rest → a.isUpper = true → b.isLower = false) :
    acronymBoundary 0 (c :: t) = c :: acronymBoundary 0 t := by
  rw [acronymBoundary]
  refine if_neg ?_
  simp only [Bool.and_eq_true, Bool.not_eq_true', List.isEmpty_eq_false_iff]
  rintro ⟨⟨-, hhead⟩, hlower⟩
  match t, h with
  | [], _ => cases hhead
  | [a], _ => exact hlower rfl
  | a :: b :: rest, h =>
    have hb : b.isLower = false := h a b rest rfl hhead
    exact hlower (by simp [hb])

/-- A capitalised word is set off from the character before it. -/
theorem acronymBoundary_split {c initial : Char} {small t : List Char} (hc : c ≠ '\n')
    (hinitial : initial.isUpper = true) (hne : small ≠ []) (hsmall : ∀ c ∈ small, c.isLower = true)
    (ht : Fresh t) :
    acronymBoundary 0 (c :: (initial :: small ++ t)) =
      c :: '_' :: (initial :: small ++ acronymBoundary 0 t) := by
  have hrun : (small ++ t).takeWhile Char.isLower = small := by
    rw [List.takeWhile_append_of_pos hsmall]
    cases t with
    | nil => simp
    | cons a t => simp [not_isLower_of_isUpper (ht a t rfl)]
  have hskip := acronymBoundary_skip (initial :: small) t
  rw [acronymBoundary]
  simp only [List.cons_append, List.drop_succ_cons, List.drop_zero, hrun, List.head?_cons,
    Option.any_some, hinitial] at hskip ⊢
  rw [if_pos (by simp [hc, hne])]
  exact congrArg (c :: '_' :: ·) hskip

/-- Nothing happens in front of a small letter. -/
theorem acronymBoundary_small (c : Char) (s : List Char) {l : Char} (t : List Char)
    (hs : ∀ c ∈ s, c.isLower = true) (hl : l.isLower = true) :
    acronymBoundary 0 (c :: (s ++ l :: t)) = c :: (s ++ acronymBoundary 0 (l :: t)) := by
  induction s generalizing c with
  | nil =>
    refine acronymBoundary_keep c ?_
    intro a b rest heq ha
    rw [← (List.cons.inj heq).1, not_isUpper_of_isLower hl] at ha
    cases ha
  | cons d s ih =>
    have hd : d.isLower = true := hs d List.mem_cons_self
    have hkeep := acronymBoundary_keep c (t := d :: (s ++ l :: t)) (by
      intro a b rest heq ha
      rw [← (List.cons.inj heq).1, not_isUpper_of_isLower hd] at ha
      cases ha)
    rw [ih d fun e he => hs e (List.mem_cons_of_mem d he)] at hkeep
    exact hkeep

/-- The character after a capital letter is no small one, as long as the word
after the capitals starts with one. -/
theorem acronym_second {a b : Char} {s t rest : List Char} (hne : s ≠ [])
    (hs : ∀ c ∈ s, c.isUpper = true) (ht : Fresh t) (heq : s ++ t = a :: b :: rest) :
    b.isLower = false := by
  refine not_isLower_of_isUpper ?_
  match s, hne with
  | [_], _ => exact ht b rest (List.cons.inj heq).2
  | _ :: e :: s, _ =>
    rw [← (List.cons.inj (List.cons.inj heq).2).1]
    exact hs e (by simp)

theorem acronymBoundary_capitals (s : List Char) {l : Char} {t : List Char}
    (hs : ∀ c ∈ s ++ [l], c.isUpper = true) (ht : Fresh t) :
    acronymBoundary 0 (s ++ l :: t) = s ++ acronymBoundary 0 (l :: t) := by
  induction s with
  | nil => rfl
  | cons c s ih =>
    have hs' : ∀ d ∈ s ++ [l], d.isUpper = true := fun d hd => hs d (List.mem_cons_of_mem c hd)
    have hkeep := acronymBoundary_keep c (t := s ++ l :: t) (by
      intro a b rest heq _
      exact acronym_second (s := s ++ [l]) (by simp) hs' ht (by simpa using heq))
    rw [List.cons_append, hkeep, ih hs']
    rfl

/-- The pass comes to the last character of a word. -/
theorem acronymBoundary_word (w : Word) {t : List Char} (ht : Fresh t) :
    ∃ s l, w.text = s ++ [l] ∧ l ≠ '\n' ∧
      acronymBoundary 0 (w.text ++ t) = s ++ acronymBoundary 0 (l :: t) := by
  cases w with
  | capitalised initial small hinitial hne hsmall =>
    rcases List.eq_nil_or_concat' small with hnil | ⟨s, l, rfl⟩
    · exact absurd hnil hne
    have hl : l.isLower = true := hsmall l (by simp)
    refine ⟨initial :: s, l, rfl, ?_, ?_⟩
    · intro heq
      rw [heq] at hl
      cases hl
    · show acronymBoundary 0 (initial :: (s ++ [l] ++ t)) = _
      rw [List.append_assoc]
      exact acronymBoundary_small initial s t (fun c hc => hsmall c (by simp [hc])) hl
  | acronym capitals hne hcapitals =>
    rcases List.eq_nil_or_concat' capitals with hnil | ⟨s, l, rfl⟩
    · exact absurd hnil hne
    refine ⟨s, l, rfl, ne_of_isUpper (hcapitals l (by simp)) (by decide), ?_⟩
    show acronymBoundary 0 (s ++ [l] ++ t) = _
    rw [List.append_assoc]
    exact acronymBoundary_capitals s hcapitals ht

/-- The text after the first pass. A capitalised word that the pass has set off
takes part in no further match, so the word after it is not set off. -/
def firstPass : List Word → List Char
  | [] => []
  | [w] => w.text
  | w :: v :: words =>
      match v with
      | .capitalised .. => w.text ++ '_' :: (v.text ++ firstPass words)
      | .acronym .. => w.text ++ firstPass (v :: words)

theorem acronymBoundary_spell (words : List Word) :
    acronymBoundary 0 (spell words) = firstPass words := by
  induction words using firstPass.induct with
  | case1 => rfl
  | case2 w =>
    rcases acronymBoundary_word w fresh_nil with ⟨s, l, htext, -, hword⟩
    have hlast : acronymBoundary 0 [l] = [l] := acronymBoundary_keep l nofun
    rw [spell_cons, spell_nil, hword, hlast, ← htext]
    rfl
  | case3 w words initial small hinitial hne hsmall ih =>
    -- the word is set off, and the pass goes on behind it
    rcases acronymBoundary_word w
      (fresh_spell (.capitalised initial small hinitial hne hsmall :: words)) with
      ⟨s, l, htext, hl, hword⟩
    have hsplit := acronymBoundary_split hl hinitial hne hsmall (fresh_spell words)
    rw [spell_cons, hword]
    show s ++ acronymBoundary 0 (l :: (initial :: small ++ spell words)) = _
    rw [hsplit, ih, firstPass, htext, List.append_assoc]
    rfl
  | case4 w words capitals hne hcapitals ih =>
    -- the pass goes on at the acronym
    rcases acronymBoundary_word w
      (fresh_spell (.acronym capitals hne hcapitals :: words)) with ⟨s, l, htext, -, hword⟩
    have hkeep := acronymBoundary_keep l
      (t := spell (.acronym capitals hne hcapitals :: words))
      fun a b rest heq _ => acronym_second hne hcapitals (fresh_spell words) heq
    rw [spell_cons, hword, hkeep, ih, firstPass, htext, List.append_assoc]
    rfl

/-! ## The second pass -/

theorem lowerUpperBoundary_keep {c : Char} (hc : c.isUpper = true ∨ c = '_') (cs : List Char) :
    lowerUpperBoundary 0 (c :: cs) = c :: lowerUpperBoundary 0 cs := by
  rw [lowerUpperBoundary]
  refine if_neg ?_
  rcases hc with hc | rfl
  · have hdigit : c.isDigit = false := by
      delta Char.isUpper at hc
      simp [Char.isDigit, UInt32.le_iff_toNat_le] at hc ⊢
      omega
    simp [not_isLower_of_isUpper hc, hdigit]
  · simp

/-- Nothing happens in front of a small letter or an underscore. -/
theorem lowerUpperBoundary_before {a : Char} (c : Char) {cs : List Char}
    (ha : a.isUpper = false) :
    lowerUpperBoundary 0 (c :: a :: cs) = c :: lowerUpperBoundary 0 (a :: cs) := by
  rw [lowerUpperBoundary]
  exact if_neg (by simp [ha])

/-- A capital letter is set off from the small letter before it. -/
theorem lowerUpperBoundary_split {l a : Char} (hl : l.isLower = true) (ha : a.isUpper = true)
    (cs : List Char) :
    lowerUpperBoundary 0 (l :: a :: cs) = l :: '_' :: lowerUpperBoundary 0 (a :: cs) := by
  rw [lowerUpperBoundary_keep (.inl ha), lowerUpperBoundary]
  exact if_pos (by simp [hl, ha])

theorem lowerUpperBoundary_capitals (s t : List Char) (hs : ∀ c ∈ s, c.isUpper = true) :
    lowerUpperBoundary 0 (s ++ t) = s ++ lowerUpperBoundary 0 t := by
  induction s with
  | nil => rfl
  | cons c s ih =>
    rw [List.cons_append, lowerUpperBoundary_keep (.inl (hs c List.mem_cons_self)),
      ih fun d hd => hs d (List.mem_cons_of_mem c hd)]
    rfl

theorem lowerUpperBoundary_small (s : List Char) {l : Char} (t : List Char)
    (hs : ∀ c ∈ s, c.isLower = true) (hl : l.isLower = true) :
    lowerUpperBoundary 0 (s ++ l :: t) = s ++ lowerUpperBoundary 0 (l :: t) := by
  induction s with
  | nil => rfl
  | cons c s ih =>
    have hbefore : lowerUpperBoundary 0 (c :: (s ++ l :: t)) =
        c :: lowerUpperBoundary 0 (s ++ l :: t) := by
      cases s with
      | nil => exact lowerUpperBoundary_before c (not_isUpper_of_isLower hl)
      | cons d s =>
        exact lowerUpperBoundary_before c (not_isUpper_of_isLower (hs d (by simp)))
    rw [List.cons_append, hbefore, ih fun d hd => hs d (List.mem_cons_of_mem c hd)]
    rfl

/-- The pass comes to the last letter of a capitalised word, and past an
acronym. -/
theorem lowerUpperBoundary_word (w : Word) (t : List Char) :
    ∃ s l, w.text = s ++ [l] ∧ (¬ w.IsAcronym → l.isLower = true) ∧
      lowerUpperBoundary 0 (w.text ++ t) = s ++ lowerUpperBoundary 0 (l :: t) := by
  cases w with
  | capitalised initial small hinitial hne hsmall =>
    rcases List.eq_nil_or_concat' small with hnil | ⟨s, l, rfl⟩
    · exact absurd hnil hne
    have hl : l.isLower = true := hsmall l (by simp)
    refine ⟨initial :: s, l, rfl, fun _ => hl, ?_⟩
    show lowerUpperBoundary 0 (initial :: (s ++ [l] ++ t)) = _
    rw [lowerUpperBoundary_keep (.inl hinitial), List.append_assoc]
    exact congrArg (initial :: ·)
      (lowerUpperBoundary_small s t (fun c hc => hsmall c (by simp [hc])) hl)
  | acronym capitals hne hcapitals =>
    rcases List.eq_nil_or_concat' capitals with hnil | ⟨s, l, rfl⟩
    · exact absurd hnil hne
    refine ⟨s, l, rfl, fun h => absurd trivial h, ?_⟩
    show lowerUpperBoundary 0 (s ++ [l] ++ t) = _
    rw [List.append_assoc]
    exact lowerUpperBoundary_capitals s _ fun c hc => hcapitals c (by simp [hc])

/-- A word in front of an underscore. -/
theorem lowerUpperBoundary_underscore (w : Word) (t : List Char) :
    lowerUpperBoundary 0 (w.text ++ '_' :: t) = w.text ++ '_' :: lowerUpperBoundary 0 t := by
  rcases lowerUpperBoundary_word w ('_' :: t) with ⟨s, l, htext, -, hword⟩
  rw [hword, lowerUpperBoundary_before l (by decide), lowerUpperBoundary_keep (.inr rfl), htext,
    List.append_assoc]
  rfl

theorem lowerUpperBoundary_text (w : Word) : lowerUpperBoundary 0 w.text = w.text := by
  rcases lowerUpperBoundary_word w [] with ⟨s, l, htext, -, hword⟩
  have hlast : lowerUpperBoundary 0 [l] = [l] := by
    rw [lowerUpperBoundary]
    exact if_neg (by simp)
  rw [List.append_nil, hlast, ← htext] at hword
  exact hword

theorem firstPass_cons (w : Word) (words : List Word) :
    ∃ t, firstPass (w :: words) = w.text ++ t := by
  match words with
  | [] => exact ⟨[], (List.append_nil _).symm⟩
  | .capitalised .. :: _ => exact ⟨_, rfl⟩
  | .acronym .. :: _ => exact ⟨_, rfl⟩

theorem Word.exists_text (w : Word) : ∃ a s, w.text = a :: s ∧ a.isUpper = true := by
  cases w with
  | capitalised initial small hinitial _ _ => exact ⟨initial, small, rfl, hinitial⟩
  | acronym capitals hne hcapitals =>
    rcases List.exists_cons_of_ne_nil hne with ⟨a, s, rfl⟩
    exact ⟨a, s, rfl, hcapitals a List.mem_cons_self⟩

/-- A capitalised word in front of words that the first pass has gone over. -/
theorem lowerUpperBoundary_capitalised {w : Word} (hw : ¬ w.IsAcronym) {words : List Word}
    (ih : lowerUpperBoundary 0 (firstPass words) = ['_'].intercalate (words.map text)) :
    lowerUpperBoundary 0 (w.text ++ firstPass words) =
      ['_'].intercalate ((w :: words).map text) := by
  cases words with
  | nil =>
    show lowerUpperBoundary 0 (w.text ++ []) = _
    rw [List.append_nil, lowerUpperBoundary_text]
    simp
  | cons v words =>
    rcases lowerUpperBoundary_word w (firstPass (v :: words)) with ⟨s, l, htext, hl, hword⟩
    rcases firstPass_cons v words with ⟨t, ht⟩
    rcases v.exists_text with ⟨a, rest, hv, ha⟩
    have hcapital : firstPass (v :: words) = a :: (rest ++ t) := by
      rw [ht, hv]
      rfl
    rw [hcapital, lowerUpperBoundary_split (hl hw) ha, ← hcapital, ih] at hword
    rw [hword]
    simp [List.intercalate_cons_cons, htext]

/-- The second pass sets off the words that the first one has left. -/
theorem lowerUpperBoundary_firstPass {words : List Word} (h : words.IsChain Apart) :
    lowerUpperBoundary 0 (firstPass words) = ['_'].intercalate (words.map text) := by
  induction words using firstPass.induct with
  | case1 => rfl
  | case2 w => exact (lowerUpperBoundary_text w).trans (by simp)
  | case3 w words initial small hinitial hne hsmall ih =>
    -- the second word has an underscore before it, and none behind it yet
    have hwords : words.IsChain Apart := (List.isChain_cons_cons.mp h).2.tail
    have hrest := lowerUpperBoundary_capitalised
      (w := .capitalised initial small hinitial hne hsmall) (fun hv => hv) (ih hwords)
    rw [firstPass, lowerUpperBoundary_underscore, hrest]
    simp [List.intercalate_cons_cons]
  | case4 w words capitals hne hcapitals ih =>
    -- the word before the acronym is capitalised
    rcases List.isChain_cons_cons.mp h with ⟨hapart, hwords⟩
    exact lowerUpperBoundary_capitalised (fun hw => hapart ⟨hw, trivial⟩) (ih hwords)

/-! ## The conversion -/

theorem map_intercalate {α β : Type} (f : α → β) (sep : List α) (parts : List (List α)) :
    (sep.intercalate parts).map f = (sep.map f).intercalate (parts.map (List.map f)) := by
  induction parts with
  | nil => rfl
  | cons part parts ih =>
    cases parts with
    | nil => simp
    | cons next parts =>
      rw [List.intercalate_cons_cons, List.map_append, List.map_append, ih]
      simp [List.intercalate_cons_cons]

theorem pascalToSnake_spell {words : List Word} (h : words.IsChain Apart) :
    pascalToSnake (String.ofList (spell words)) = String.ofList (snake words) := by
  have hpasses : lowerUpperBoundary 0 (acronymBoundary 0 (spell words)) =
      ['_'].intercalate (words.map text) := by
    rw [acronymBoundary_spell, lowerUpperBoundary_firstPass h]
  simp only [pascalToSnake, pyLower, String.toList_ofList, hpasses, map_intercalate, List.map_map]
  rfl

theorem toLower_ne_underscore {c : Char} (h : c.isUpper = true ∨ c.isLower = true) :
    c.toLower ≠ '_' := by
  intro heq
  have hnat : c.toLower.toNat = 95 := congrArg Char.toNat heq
  unfold Char.toLower at hnat
  split at hnat
  · next hupper =>
    have hval : (c.val + 32).toNat = 95 := hnat
    simp [UInt32.le_iff_toNat_le, UInt32.toNat_add] at hupper hval
    omega
  · delta Char.isUpper Char.isLower at h
    simp [UInt32.le_iff_toNat_le] at h
    omega

theorem Word.underscore_notMem_lower (w : Word) : '_' ∉ w.lower := by
  intro hmem
  rcases List.mem_map.mp hmem with ⟨c, hc, heq⟩
  refine toLower_ne_underscore ?_ heq
  cases w with
  | capitalised initial small hinitial _ hsmall =>
    rcases List.mem_cons.mp hc with rfl | hc
    · exact .inl hinitial
    · exact .inr (hsmall c hc)
  | acronym capitals _ hcapitals => exact .inl (hcapitals c hc)

/-- The words can be read off the key. -/
theorem snake_injective {words words' : List Word} (hne : words ≠ []) (hne' : words' ≠ [])
    (h : snake words = snake words') : words.map lower = words'.map lower := by
  have hread : ∀ ws : List Word, ws ≠ [] → (snake ws).splitOn '_' = ws.map lower := by
    intro ws hws
    refine List.splitOn_intercalate '_' ?_ (by simpa using hws)
    intro part hpart
    rcases List.mem_map.mp hpart with ⟨w, -, rfl⟩
    exact w.underscore_notMem_lower
  rw [← hread words hne, ← hread words' hne', h]

/-- The key of a field name is its words in small letters, joined by
underscores, and names with the same key have the same words up to the case of
their letters. -/
theorem key_splits_words (words : List Word) (hne : words ≠ []) (h : words.IsChain Apart) :
    pascalToSnake (String.ofList (spell words)) = String.ofList (snake words) ∧
      ∀ words' : List Word, words' ≠ [] → words'.IsChain Apart →
        pascalToSnake (String.ofList (spell words)) =
          pascalToSnake (String.ofList (spell words')) →
        words.map lower = words'.map lower := by
  refine ⟨pascalToSnake_spell h, ?_⟩
  intro words' hne' h' heq
  rw [pascalToSnake_spell h, pascalToSnake_spell h'] at heq
  exact snake_injective hne hne' (String.ofList_injective heq)

/-- The words of `GSTRegistrationNumber`. -/
def gstRegistrationNumber : List Word :=
  [.acronym ['G', 'S', 'T'] (List.cons_ne_nil _ _) (List.all_eq_true.mp rfl),
    .capitalised 'R' ['e', 'g', 'i', 's', 't', 'r', 'a', 't', 'i', 'o', 'n'] rfl
      (List.cons_ne_nil _ _) (List.all_eq_true.mp rfl),
    .capitalised 'N' ['u', 'm', 'b', 'e', 'r'] rfl (List.cons_ne_nil _ _)
      (List.all_eq_true.mp rfl)]

theorem key_splits_words_gst :
    pascalToSnake "GSTRegistrationNumber" = "gst_registration_number" ∧
      ∀ words' : List Word, words' ≠ [] → words'.IsChain Apart →
        pascalToSnake "GSTRegistrationNumber" = pascalToSnake (String.ofList (spell words')) →
        gstRegistrationNumber.map lower = words'.map lower :=
  key_splits_words gstRegistrationNumber (List.cons_ne_nil _ _)
    (by simp [gstRegistrationNumber, Apart, IsAcronym])

end TallyConnector
