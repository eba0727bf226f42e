import TallyConnector.Models.Vouchers

/-! # Compound quantities

What `_coerce_tally_decimal` makes of a string: the number it begins with,
whatever follows, and the string itself if there is none.
-/

namespace TallyConnector

/-! ## Characters -/

/-- No digit is white space. -/
theorem not_space_of_digit {c : Char} (h : isDecimalDigit c = true) : isPySpace c = false := by
  have hdigits : ∀ start ∈ decimalZeros, ∀ k < 10, isPySpace (Char.ofNat (start + k)) = false := by
    decide +kernel
  obtain ⟨value, hvalue⟩ := Option.isSome_iff_exists.mp h
  obtain ⟨start, hfind, -⟩ := Option.map_eq_some_iff.mp hvalue
  have hrange := List.find?_some hfind
  simp only [Bool.and_eq_true, decide_eq_true_eq] at hrange
  have hspace := hdigits start (List.mem_of_find?_eq_some hfind) (c.toNat - start) (by omega)
  rwa [Nat.add_sub_cancel' hrange.1, Char.ofNat_toNat] at hspace

theorem ne_of_digit {c c' : Char} (h : isDecimalDigit c = true)
    (h' : isDecimalDigit c' = false) : c ≠ c' := by
  rintro rfl
  rw [h] at h'
  cases h'

theorem not_space_of_run {c : Char} (h : isRunChar c = true) : isPySpace c = false := by
  rcases Bool.or_eq_true_iff.mp h with hdigit | hcomma
  · exact not_space_of_digit hdigit
  · obtain rfl := eq_of_beq hcomma
    decide

/-! ## Numerals -/

/-- An optional minus sign, a run of digits and commas, and the digits of a
fraction, if there is one. -/
structure Numeral where
  negative : Bool
  run : List Char
  digits : List Char
  run_ne : run ≠ []
  run_all : ∀ c ∈ run, isRunChar c = true
  digits_all : ∀ c ∈ digits, isDecimalDigit c = true

namespace Numeral

variable (n : Numeral)

def sign : List Char := if n.negative then ['-'] else []

def fraction : List Char := if n.digits = [] then [] else '.' :: n.digits

/-- The numeral as it is written. -/
def text : List Char := n.sign ++ n.run ++ n.fraction

/-- The run without its commas. -/
def whole : List Char := n.run.filter (· != ',')

/-- The number it stands for. -/
def value : ℚ :=
  (if n.negative then -1 else 1) * (ofDigits n.whole + ofDigits n.digits / 10 ^ n.digits.length)

/-- The `Decimal` of that value with the same number of fraction digits. -/
def decimal : Decimal := ⟨n.negative, ofDigits (n.whole ++ n.digits), n.digits.length⟩

def HasDigit : Prop := ∃ c ∈ n.run, isDecimalDigit c = true

/-- The numeral does not go on in what follows it. -/
def Ends : List Char → Prop
  | [] => True
  | c :: s => isDecimalDigit c = false ∧
      (n.digits = [] → c ≠ ',' ∧ (c = '.' → ∀ d ∈ s.head?, isDecimalDigit d = false))

theorem toRat_decimal : n.decimal.toRat = n.value := by
  simp only [decimal, Decimal.toRat, value, ofDigits_append]
  push_cast
  have hpow : (10 : ℚ) ^ n.digits.length ≠ 0 := by positivity
  field_simp

theorem mem_whole {c : Char} : c ∈ n.whole ↔ c ∈ n.run ∧ isDecimalDigit c = true := by
  rw [whole, List.mem_filter]
  refine and_congr_right fun hmem => ?_
  have hrun := n.run_all c hmem
  rw [isRunChar] at hrun
  constructor
  · intro hne
    simpa [bne_iff_ne.mp hne] using hrun
  · intro hdigit
    exact bne_iff_ne.mpr (ne_of_digit hdigit (by decide))

theorem hasDigit_iff : n.HasDigit ↔ n.whole ≠ [] := by
  constructor
  · rintro ⟨c, hrun, hdigit⟩ hempty
    have hmem := n.mem_whole.mpr ⟨hrun, hdigit⟩
    rw [hempty] at hmem
    cases hmem
  · intro hne
    obtain ⟨c, hmem⟩ := List.exists_mem_of_ne_nil _ hne
    exact ⟨c, n.mem_whole.mp hmem⟩

/-! ## Reading a numeral -/

variable {n}

theorem exists_head : ∃ c rest, n.run = c :: rest ∧ isRunChar c = true := by
  cases hrun : n.run with
  | nil => exact absurd hrun n.run_ne
  | cons c rest => exact ⟨c, rest, rfl, n.run_all c (hrun ▸ List.mem_cons_self)⟩

/-- The run is read to its end. -/
theorem takeWhile_run {suffix : List Char} (h : n.Ends suffix) :
    (n.run ++ (n.fraction ++ suffix)).takeWhile isRunChar = n.run := by
  rw [List.takeWhile_append_of_pos n.run_all]
  suffices hnone : (n.fraction ++ suffix).takeWhile isRunChar = [] by rw [hnone, List.append_nil]
  by_cases hdigits : n.digits = []
  · simp only [fraction, if_pos hdigits, List.nil_append]
    cases suffix with
    | nil => rfl
    | cons c s =>
        obtain ⟨hdigit, hrest⟩ := h
        refine List.takeWhile_cons_of_neg ?_
        simp [isRunChar, hdigit, (hrest hdigits).1]
  · simp only [fraction, if_neg hdigits, List.cons_append]
    exact List.takeWhile_cons_of_neg (by decide)

/-- So is the fraction. -/
theorem fractionPart_fraction {suffix : List Char} (h : n.Ends suffix) :
    fractionPart (n.fraction ++ suffix) = n.fraction := by
  by_cases hdigits : n.digits = []
  · simp only [fraction, if_pos hdigits, List.nil_append]
    unfold fractionPart
    split
    · next s =>
      have hnone : s.takeWhile isDecimalDigit = [] := by
        cases s with
        | nil => rfl
        | cons d s =>
            have hd := ((h.2 hdigits).2 rfl) d rfl
            exact List.takeWhile_cons_of_neg (by simp [hd])
      simp [hnone]
    · rfl
  · simp only [fraction, if_neg hdigits, List.cons_append]
    have htake : (n.digits ++ suffix).takeWhile isDecimalDigit = n.digits := by
      rw [List.takeWhile_append_of_pos n.digits_all]
      cases suffix with
      | nil => simp
      | cons c s => rw [List.takeWhile_cons_of_neg (by simp [h.1]), List.append_nil]
    simp [fractionPart, htake, hdigits]

theorem head_text (suffix : List Char) : ∃ c rest, n.text ++ suffix = c :: rest ∧
    isPySpace c = false := by
  obtain ⟨c, rest, hrun, hc⟩ := n.exists_head
  cases hneg : n.negative with
  | true => exact ⟨'-', n.run ++ n.fraction ++ suffix, by simp [text, sign, hneg], by decide⟩
  | false =>
      exact ⟨c, rest ++ n.fraction ++ suffix, by simp [text, sign, hneg, hrun],
        not_space_of_run hc⟩

/-- The pattern finds the numeral at the start of a text. -/
theorem leadingNumber_text {suffix : List Char} (h : n.Ends suffix) :
    leadingNumber (n.text ++ suffix) = some n.text := by
  have hstart : (n.text ++ suffix).dropWhile isPySpace = n.text ++ suffix := by
    obtain ⟨c, rest, heq, hc⟩ := n.head_text suffix
    rw [heq]
    exact List.dropWhile_cons_of_neg (by simp [hc])
  have hsign : (if (n.text ++ suffix).head? = some '-' then ['-'] else []) = n.sign := by
    obtain ⟨c, rest, hrun, hc⟩ := n.exists_head
    cases hneg : n.negative with
    | true => simp [text, sign, hneg]
    | false =>
        have hne : c ≠ '-' := by
          rintro rfl
          exact absurd hc (by decide)
        simp [text, sign, hneg, hrun, hne]
  have hdrop : (n.text ++ suffix).drop n.sign.length = n.run ++ (n.fraction ++ suffix) := by
    simp [text]
  have hrest : (n.run ++ (n.fraction ++ suffix)).drop n.run.length = n.fraction ++ suffix := by
    simp
  unfold leadingNumber
  simp only [hstart, hsign, hdrop, takeWhile_run h, hrest, fractionPart_fraction h]
  rw [if_neg (by simpa using n.run_ne)]
  rfl

theorem filter_text : n.text.filter (· != ',') = n.sign ++ (n.whole ++ n.fraction) := by
  have hsign : n.sign.filter (· != ',') = n.sign := by
    cases hneg : n.negative <;> simp [sign, hneg]
  have hfraction : n.fraction.filter (· != ',') = n.fraction := by
    refine List.filter_eq_self.mpr fun c hmem => bne_iff_ne.mpr ?_
    unfold fraction at hmem
    split at hmem
    · cases hmem
    · rcases List.mem_cons.mp hmem with rfl | hmem
      · decide
      · exact ne_of_digit (n.digits_all c hmem) (by decide)
  rw [text, List.filter_append, List.filter_append, hsign, hfraction, List.append_assoc]
  rfl

/-- The sign is read off first. -/
theorem parse_sign : Decimal.parse (n.sign ++ (n.whole ++ n.fraction)) =
    Decimal.parseUnsigned n.negative (n.whole ++ n.fraction) := by
  cases hneg : n.negative with
  | true => simp [sign, hneg, Decimal.parse]
  | false =>
      simp only [sign, hneg, Bool.false_eq_true, if_false, List.nil_append]
      have hhead : ∀ c ∈ (n.whole ++ n.fraction).head?, c ≠ '-' ∧ c ≠ '+' := by
        intro c hc
        have hmem : c ∈ n.whole ++ n.fraction := List.mem_of_mem_head? hc
        have hdigit : ∀ c, isDecimalDigit c = true → c ≠ '-' ∧ c ≠ '+' :=
          fun c h => ⟨ne_of_digit h (by decide), ne_of_digit h (by decide)⟩
        rcases List.mem_append.mp hmem with hmem | hmem
        · exact hdigit c (n.mem_whole.mp hmem).2
        · unfold fraction at hmem
          split at hmem
          · cases hmem
          · rcases List.mem_cons.mp hmem with rfl | hmem
            · decide
            · exact hdigit c (n.digits_all c hmem)
      unfold Decimal.parse
      split
      · next s heq => exact absurd rfl (hhead '-' (by simp [heq])).1
      · next s heq => exact absurd rfl (hhead '+' (by simp [heq])).2
      · rfl

/-- The group without commas is a number, unless no digit is left. -/
theorem parse_text : Decimal.parse (n.text.filter (· != ',')) =
    if n.whole = [] ∧ n.digits = [] then none else some n.decimal := by
  have hwhole : ∀ c ∈ n.whole, isDecimalDigit c = true := fun c hmem => (n.mem_whole.mp hmem).2
  rw [filter_text, parse_sign]
  by_cases hdigits : n.digits = []
  · have hfraction : n.fraction = [] := if_pos hdigits
    rw [hfraction, List.append_nil, Decimal.parseUnsigned_whole hwhole]
    simp [decimal, hdigits]
  · have hfraction : n.fraction = '.' :: n.digits := if_neg hdigits
    rw [hfraction, Decimal.parseUnsigned_append hwhole n.digits_all hdigits]
    simp [decimal, hdigits]

/-- A numeral does not end with white space. -/
theorem last_text : ∃ start c, n.text = start ++ [c] ∧ isPySpace c = false := by
  by_cases hdigits : n.digits = []
  · have hfraction : n.fraction = [] := if_pos hdigits
    obtain ⟨start, c, hrun⟩ := (List.eq_nil_or_concat n.run).resolve_left n.run_ne
    refine ⟨n.sign ++ start, c, by simp [text, hfraction, hrun], ?_⟩
    exact not_space_of_run (n.run_all c (by simp [hrun]))
  · have hfraction : n.fraction = '.' :: n.digits := if_neg hdigits
    obtain ⟨start, c, heq⟩ := (List.eq_nil_or_concat n.digits).resolve_left hdigits
    refine ⟨n.sign ++ n.run ++ '.' :: start, c, by simp [text, hfraction, heq], ?_⟩
    exact not_space_of_digit (n.digits_all c (by simp [heq]))

end Numeral

/-! ## Reading a string -/

/-- White space apart, the string is a numeral and what follows it. -/
structure Reads (value : String) (n : Numeral) (suffix : List Char) : Prop where
  ends : n.Ends suffix
  eq : ∃ space, (∀ c ∈ space, isPySpace c = true) ∧ value.toList = space ++ n.text ++ suffix

/-- Characters removed at the end do not make the numeral go on. -/
theorem Numeral.Ends.of_prefix {n : Numeral} {suffix suffix' : List Char} (h : n.Ends suffix)
    (hpre : suffix' <+: suffix) : n.Ends suffix' := by
  obtain ⟨rest, rfl⟩ := hpre
  cases suffix' with
  | nil => trivial
  | cons c s =>
      refine ⟨h.1, fun hdigits => ⟨(h.2 hdigits).1, fun hdot d hd => ?_⟩⟩
      refine (h.2 hdigits).2 hdot d ?_
      cases s with
      | nil => cases hd
      | cons d' s => exact hd

/-- White space added at the end does not either. -/
theorem Numeral.Ends.append {n : Numeral} {suffix space : List Char} (h : n.Ends suffix)
    (hspace : ∀ c ∈ space, isPySpace c = true) : n.Ends (suffix ++ space) := by
  have hdigit : ∀ c ∈ space, isDecimalDigit c = false := by
    intro c hmem
    by_contra hdigit
    have hnot := not_space_of_digit (by simpa using hdigit)
    rw [hspace c hmem] at hnot
    cases hnot
  cases suffix with
  | nil =>
      cases space with
      | nil => trivial
      | cons c space =>
          have hc := hspace c List.mem_cons_self
          refine ⟨hdigit c List.mem_cons_self, fun _ => ⟨?_, ?_⟩⟩
          · rintro rfl
            exact absurd hc (by decide)
          · rintro rfl
            exact absurd hc (by decide)
  | cons c s =>
      refine ⟨h.1, fun hdigits => ⟨(h.2 hdigits).1, fun hdot d hd => ?_⟩⟩
      cases s with
      | nil => exact hdigit d (List.mem_of_mem_head? hd)
      | cons d' s => exact (h.2 hdigits).2 hdot d hd

/-- `cleaned`, for a string that begins with a numeral. -/
theorem Reads.strip {value : String} {n : Numeral} {suffix : List Char}
    (h : Reads value n suffix) :
    ∃ suffix', n.Ends suffix' ∧ (pyStrip value).toList = n.text ++ suffix' := by
  obtain ⟨space, hspace, heq⟩ := h.eq
  have hfront : value.toList.dropWhile isPySpace = n.text ++ suffix := by
    obtain ⟨c, rest, hhead, hc⟩ := n.head_text suffix
    rw [heq, List.append_assoc, List.dropWhile_append_of_pos hspace, hhead]
    exact List.dropWhile_cons_of_neg (by simp [hc])
  have hback : n.text.reverse.dropWhile isPySpace = n.text.reverse := by
    obtain ⟨start, c, htext, hc⟩ := n.last_text
    rw [htext, List.reverse_append, List.reverse_singleton, List.singleton_append]
    exact List.dropWhile_cons_of_neg (by simp [hc])
  refine ⟨(suffix.reverse.dropWhile isPySpace).reverse, h.ends.of_prefix ?_, ?_⟩
  · have hsuffix := List.reverse_prefix.mpr (List.dropWhile_suffix (l := suffix.reverse) isPySpace)
    rwa [List.reverse_reverse] at hsuffix
  · unfold pyStrip
    rw [String.toList_ofList, hfront, List.reverse_append, List.dropWhile_append]
    split
    · next hempty =>
      rw [hback, List.isEmpty_iff.mp hempty, List.reverse_reverse, List.reverse_nil,
        List.append_nil]
    · rw [List.reverse_append, List.reverse_reverse]

theorem Reads.coerce {value : String} {n : Numeral} {suffix : List Char}
    (h : Reads value n suffix) : coerceTallyDecimal value =
      if n.whole = [] ∧ n.digits = [] then .text value else .decimal n.decimal := by
  obtain ⟨suffix', hends, hstrip⟩ := h.strip
  have hne : pyStrip value ≠ "" := by
    intro hempty
    obtain ⟨c, rest, hhead, -⟩ := n.head_text suffix'
    rw [hempty, hhead] at hstrip
    cases hstrip
  unfold coerceTallyDecimal
  simp only [if_neg hne, hstrip, Numeral.leadingNumber_text hends, Numeral.parse_text]
  by_cases hempty : n.whole = [] ∧ n.digits = []
  · simp only [if_pos hempty]
  · simp only [if_neg hempty]

theorem head_dropWhile {p : Char → Bool} {s : List Char} :
    ∀ c ∈ (s.dropWhile p).head?, p c = false := by
  intro c hc
  have hnot := List.head?_dropWhile_not p s
  rw [Option.mem_def.mp hc] at hnot
  simpa using hnot

/-- A fraction that is there is read. -/
theorem exists_fraction {rest : List Char} (hrest : ∀ c ∈ rest.head?, isRunChar c = false) :
    ∃ digits suffix, (∀ c ∈ digits, isDecimalDigit c = true) ∧
      rest = (if digits = [] then [] else '.' :: digits) ++ suffix ∧
      ∀ n : Numeral, n.digits = digits → n.Ends suffix := by
  have hnot : ∀ c, isRunChar c = false → isDecimalDigit c = false ∧ c ≠ ',' := by
    intro c hc
    rw [isRunChar, Bool.or_eq_false_iff] at hc
    exact ⟨hc.1, by simpa using hc.2⟩
  cases rest with
  | nil => exact ⟨[], [], by simp, rfl, fun _ _ => trivial⟩
  | cons c t =>
      obtain ⟨hdigit, hcomma⟩ := hnot c (hrest c rfl)
      by_cases hfraction : c = '.' ∧ t.takeWhile isDecimalDigit ≠ []
      · -- a point with digits behind it belongs to the number
        obtain ⟨rfl, hne⟩ := hfraction
        refine ⟨t.takeWhile isDecimalDigit, t.dropWhile isDecimalDigit,
          List.all_eq_true.mp List.all_takeWhile, ?_, fun n hn => ?_⟩
        · rw [if_neg hne, List.cons_append, List.takeWhile_append_dropWhile]
        · have hhead := head_dropWhile (p := isDecimalDigit) (s := t)
          cases hdrop : t.dropWhile isDecimalDigit with
          | nil => trivial
          | cons d u =>
              rw [hdrop] at hhead
              exact ⟨hhead d rfl, fun hempty => absurd (hn.symm.trans hempty) hne⟩
      · -- what follows the number is no digit, no comma and no such point
        refine ⟨[], c :: t, by simp, rfl, fun n _ => ⟨hdigit, fun _ => ⟨hcomma, ?_⟩⟩⟩
        rintro rfl d hd
        have hnone : t.takeWhile isDecimalDigit = [] := by
          by_contra hne
          exact hfraction ⟨rfl, hne⟩
        cases t with
        | nil => cases hd
        | cons d' u =>
            -- a digit behind the point would be part of the fraction
            cases hd
            by_contra hdigit'
            rw [List.takeWhile_cons_of_pos (by simpa using hdigit')] at hnone
            cases hnone

/-- Where the pattern finds a run, there is a numeral. -/
theorem exists_numeral {s : List Char}
    (hne : (s.drop (if s.head? = some '-' then ['-'] else []).length).takeWhile isRunChar ≠ []) :
    ∃ n : Numeral, ∃ suffix, n.Ends suffix ∧ s = n.text ++ suffix := by
  let body := s.drop (if s.head? = some '-' then ['-'] else []).length
  let run := body.takeWhile isRunChar
  have hsign : ∃ negative, s = (if negative = true then ['-'] else []) ++ body := by
    by_cases hhead : s.head? = some '-'
    · obtain ⟨rest, hs⟩ := List.head?_eq_some_iff.mp hhead
      exact ⟨true, by simp [body, hs]⟩
    · exact ⟨false, by simp [body, hhead]⟩
  obtain ⟨negative, hs⟩ := hsign
  have hbody : run ++ body.dropWhile isRunChar = body := List.takeWhile_append_dropWhile
  have hrun : ∀ c ∈ run, isRunChar c = true := List.all_eq_true.mp List.all_takeWhile
  have hrest : ∀ c ∈ (body.dropWhile isRunChar).head?, isRunChar c = false := head_dropWhile
  obtain ⟨digits, suffix, hdigits, heq, hends⟩ := exists_fraction hrest
  let n : Numeral := ⟨negative, run, digits, hne, hrun, hdigits⟩
  refine ⟨n, suffix, hends n rfl, ?_⟩
  rw [hs, ← hbody, heq]
  simp only [Numeral.text, Numeral.sign, Numeral.fraction, n, List.append_assoc]

/-- A string without a numeral is blank or is returned as it is. -/
theorem coerce_of_not_reads {value : String} (h : ∀ n suffix, ¬ Reads value n suffix) :
    coerceTallyDecimal value = if pyStrip value = "" then .none else .text value := by
  unfold coerceTallyDecimal
  by_cases hempty : pyStrip value = ""
  · simp only [if_pos hempty]
  simp only [if_neg hempty]
  suffices hnone : leadingNumber (pyStrip value).toList = none by rw [hnone]
  unfold leadingNumber
  refine if_pos (List.isEmpty_iff.mpr ?_)
  by_contra hne
  obtain ⟨n, suffix, hends, hs⟩ := exists_numeral hne
  -- white space around what was read
  let front := value.toList.takeWhile isPySpace
  let inner := value.toList.dropWhile isPySpace
  let back := (inner.reverse.takeWhile isPySpace).reverse
  have hinner : inner = (pyStrip value).toList ++ back := by
    have hsplit : inner.reverse.takeWhile isPySpace ++ inner.reverse.dropWhile isPySpace =
        inner.reverse := List.takeWhile_append_dropWhile
    have hreverse := congrArg List.reverse hsplit
    rw [List.reverse_append, List.reverse_reverse] at hreverse
    rw [← hreverse]
    simp [pyStrip, back, inner]
  let front' := (pyStrip value).toList.takeWhile isPySpace
  refine h n (suffix ++ back) ⟨hends.append ?_, front ++ front', ?_, ?_⟩
  · intro c hc
    exact List.all_eq_true.mp List.all_takeWhile c (List.mem_reverse.mp hc)
  · intro c hc
    rcases List.mem_append.mp hc with hc | hc
    · exact List.all_eq_true.mp List.all_takeWhile c hc
    · exact List.all_eq_true.mp List.all_takeWhile c hc
  · have hvalue : front ++ inner = value.toList := List.takeWhile_append_dropWhile
    have hcleaned : front' ++ (pyStrip value).toList.dropWhile isPySpace =
        (pyStrip value).toList := List.takeWhile_append_dropWhile
    rw [← hvalue, hinner, ← hcleaned, hs]
    simp only [List.append_assoc]

/-- The decimal of the numeral, with its fraction digits. -/
def Coerced.Decodes (r : Coerced) (n : Numeral) : Prop :=
  ∃ d, r = .decimal d ∧ d.toRat = n.value ∧ d.places = n.digits.length

theorem Reads.decodes {value : String} {n : Numeral} {suffix : List Char}
    (h : Reads value n suffix) (hne : ¬ (n.whole = [] ∧ n.digits = [])) :
    (coerceTallyDecimal value).Decodes n :=
  ⟨n.decimal, by rw [h.coerce, if_neg hne], n.toRat_decimal, rfl⟩

/-- A string that begins with a numeral decodes to its exact value, whatever
follows. Of the other strings the blank ones are `None`, those that begin with
commas and a fraction decode to the fraction, and the rest is unchanged. -/
theorem quantity_decoded :
    (∀ value n suffix, Reads value n suffix → n.HasDigit →
      (coerceTallyDecimal value).Decodes n) ∧
    ∀ value, (¬ ∃ n suffix, Reads value n suffix ∧ n.HasDigit) →
      (pyStrip value = "" ∧ coerceTallyDecimal value = .none) ∨
      (∃ n suffix, Reads value n suffix ∧ n.digits ≠ [] ∧
        (coerceTallyDecimal value).Decodes n) ∨
      coerceTallyDecimal value = .text value := by
  refine ⟨fun value n suffix hreads hdigit => ?_, fun value hnone => ?_⟩
  · exact hreads.decodes fun hempty => n.hasDigit_iff.mp hdigit hempty.1
  · by_cases hreads : ∃ n suffix, Reads value n suffix
    · obtain ⟨n, suffix, hreads⟩ := hreads
      by_cases hdigits : n.digits = []
      · right; right
        have hwhole : n.whole = [] := by
          by_contra hne
          exact hnone ⟨n, suffix, hreads, n.hasDigit_iff.mpr hne⟩
        rw [hreads.coerce, if_pos ⟨hwhole, hdigits⟩]
      · exact .inr (.inl ⟨n, suffix, hreads, hdigits, hreads.decodes fun h => hdigits h.2⟩)
    · have hcoerce := coerce_of_not_reads fun n suffix h => hreads ⟨n, suffix, h⟩
      by_cases hempty : pyStrip value = ""
      · exact .inl ⟨hempty, by rw [hcoerce, if_pos hempty]⟩
      · exact .inr (.inr (by rw [hcoerce, if_neg hempty]))

/-- A rate with a thousands separator and a unit. -/
theorem quantity_decoded_rate :
    ∃ d, coerceTallyDecimal " -1,200.50/no" = .decimal d ∧ d.toRat = -(1200 + 50 / 100) ∧
      d.places = 2 := by
  let n : Numeral := ⟨true, "1,200".toList, "50".toList, by decide,
    List.all_eq_true.mp (by decide), List.all_eq_true.mp (by decide)⟩
  have hreads : Reads " -1,200.50/no" n "/no".toList :=
    ⟨⟨by decide, fun h => absurd h (by decide)⟩, [' '],
      List.all_eq_true.mp (by decide), by decide⟩
  obtain ⟨d, hd, hvalue, hplaces⟩ := quantity_decoded.1 _ n _ hreads ⟨'1', by decide, by decide⟩
  refine ⟨d, hd, hvalue.trans ?_, hplaces⟩
  have hwhole : ofDigits n.whole = 1200 := by decide
  have hdigits : ofDigits n.digits = 50 := by decide
  have hlength : n.digits.length = 2 := by decide
  have hnegative : n.negative = true := rfl
  rw [Numeral.value, hwhole, hdigits, hlength, hnegative]
  norm_num

/-- A comma and a fraction is not a numeral, and is decoded all the same. -/
theorem quantity_of_comma :
    coerceTallyDecimal ",.5" = .decimal ⟨false, 5, 1⟩ ∧
    ∀ (space : List Char) (n : Numeral) (suffix : List Char), (∀ c ∈ space, isPySpace c = true) →
      ",.5".toList = space ++ n.text ++ suffix → ¬ n.HasDigit := by
  refine ⟨by decide, fun space n suffix hspace heq => ?_⟩
  have hspace' : space = [] := by
    cases space with
    | nil => rfl
    | cons c space =>
        have hhead : ',' = c := (List.cons.inj heq).1
        exact absurd (hspace c List.mem_cons_self) (hhead ▸ by decide)
  obtain ⟨c, rest, hrun, hc⟩ := n.exists_head
  have hsign : n.negative = false := by
    by_contra hneg
    have hneg' : n.negative = true := by simpa using hneg
    simp [hspace', Numeral.text, Numeral.sign, hneg'] at heq
  have hsplit : [',', '.', '5'] = c :: (rest ++ (n.fraction ++ suffix)) := by
    simpa [hspace', Numeral.text, Numeral.sign, hsign, hrun] using heq
  obtain ⟨hcomma, htail⟩ := List.cons.inj hsplit
  -- the run ends at the dot
  have hrest : rest = [] := by
    cases rest with
    | nil => rfl
    | cons d rest =>
        have hdot : '.' = d := (List.cons.inj htail).1
        have hd := n.run_all d (by simp [hrun])
        exact absurd hd (hdot ▸ by decide)
  rintro ⟨d, hmem, hd⟩
  rw [hrun, hrest, List.mem_singleton] at hmem
  exact absurd hd (hmem ▸ hcomma ▸ by decide)

end TallyConnector
