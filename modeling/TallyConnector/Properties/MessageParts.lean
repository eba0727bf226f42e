import TallyConnector.Properties.Redaction

/-! # The parts of a log message

A record is redacted before its arguments are formatted into its template, and
template and arguments are redacted one by one. Where no match reaches across
the parts of the message, each part shows the redaction of what it showed, up to
the room that the placeholders take in padded fields (`thins_cells`).
-/

namespace TallyConnector

open Masking

variable {ω : Type} (shows : Shows ω)

/-! ## Parts that are redacted on their own -/

/-- The part as the pattern reads it, its text on its own and no match in a
conversion. -/
def TemplatePart.pieces : TemplatePart → List (Piece Char)
  | .text t => secretKeyPattern.pieces (doublePercent t)
  | .conversion raw _ => ('%' :: raw).map .plain

def TemplatePart.masked : TemplatePart → TemplatePart
  | .text t => .text (secretKeyPattern.mask t)
  | part => part

def Cell.redacted : Cell ω → Cell ω
  | .text t => .text (secretKeyPattern.mask t)
  | .field conv width precision arg => .field conv width precision arg.redacted

/-- What the cell shows. -/
def Cell.display (cell : Cell ω) : List Char := (cell.shown shows).getD []

/-- The length of the text with 14 characters for each value. -/
def redactedLength (t : List Char) : Nat :=
  t.length + (secretKeyPattern.values t).length * 14 -
    ((secretKeyPattern.values t).map List.length).sum

/-- How much of the redacted text a precision leaves. -/
def shownLength (precision : Option Int) (t : List Char) : Nat :=
  match precision with
  | none => redactedLength t
  | some p => min p.toNat (redactedLength t)

/-- The piece of a string with its characters escaped. -/
def escapePiece (escape : Char → List Char) : Piece Char → List (Piece Char)
  | .plain c => (escape c).map .plain
  | .hidden k v => [.hidden (k.flatMap escape) (v.flatMap escape)]

/-- The conversion shows the string with the matches that the string has. -/
def Conversion.KeepsMatches (conv : Conversion) (s : String) : Prop :=
  conv.type = 's' ∨ (conv.type = 'r' ∨ conv.type = 'a') ∧
    let escape := escapeChar (conv.printable shows) (quoteOf s.toList)
    secretKeyPattern.pieces (s.toList.flatMap escape) =
      (secretKeyPattern.pieces s.toList).flatMap (escapePiece escape)

/-- What happens to a cell when its object is redacted. -/
inductive Cell.Sound : Cell ω → Prop
  | text (t : List Char) : Sound (.text t)
  /-- Nothing to redact, neither in what is shown nor in the object. -/
  | unmatched {conv : Conversion} {width precision : Option Int} {arg : PyObject ω}
      (hshown : secretKeyPattern.values ((Cell.field conv width precision arg).display shows) = [])
      (harg : ∀ s, arg = .str s → secretKeyPattern.values s.toList = []) :
      Sound (.field conv width precision arg)
  /-- A string whose first value comes after the cut. -/
  | cut {conv : Conversion} {width precision : Option Int} {s : String}
      (hkeeps : conv.KeepsMatches shows s)
      (hcut : secretKeyPattern.values (cutField precision (conv.body shows (.str s))) = []) :
      Sound (.field conv width precision (.str s))
  /-- A string that is not cut. -/
  | whole {conv : Conversion} {width precision : Option Int} {s : String}
      (hkeeps : conv.KeepsMatches shows s)
      (hwhole : ∀ p, precision = some p → (conv.body shows (.str s)).length ≤ p.toNat) :
      Sound (.field conv width precision (.str s))

/-! ### Words -/

/-- No word begins with the text. -/
def StartsBlank (t : List Char) : Prop := ∀ c ∈ t.head?, isValueChar c = false

/-- A word does not go on from one text to the other. -/
def WordsApart (t u : List Char) : Prop := Words.ends isValueChar false t = true → StartsBlank u

/-- The cell shows a value of its string. -/
def Cell.Redacts : Cell ω → Prop
  | .field conv _ precision (.str s) => secretKeyPattern.values s.toList ≠ [] ∧
      secretKeyPattern.values (cutField precision (conv.body shows (.str s))) ≠ []
  | _ => False

instance (cell : Cell ω) : Decidable (cell.Redacts shows) := by
  unfold Cell.Redacts
  split
  · exact instDecidableAnd
  · exact instDecidableFalse

/-- What the cell shows, with the spaces that remain when its string is
redacted. -/
def Cell.tight : Cell ω → List Char
  | .text t => t
  | .field conv width precision arg =>
      if (Cell.field conv width precision arg).Redacts shows then
        let t := conv.body shows arg
        let spaces := padding width (shownLength precision t)
        if leftJustified conv.flags width then t ++ spaces else spaces ++ t
      else (Cell.field conv width precision arg).display shows

/-- No two words come together because the placeholders take the room of the
spaces between them or are cut at the end of their field. -/
def Cell.Unglued (before after : List Char) : Cell ω → Prop
  | .text _ => True
  | .field conv width precision arg =>
      (Cell.field conv width precision arg).Redacts shows →
        let t := conv.body shows arg
        let spaces := padding width (shownLength precision t)
        let left := leftJustified conv.flags width
        (padding width t.length ≠ [] → spaces = [] →
          if left then WordsApart t after else WordsApart before t) ∧
        (shownLength precision t < redactedLength t →
          StartsBlank ((if left then spaces else []) ++ after))

def Unglued : List Char → List (Cell ω) → Prop
  | _, [] => True
  | before, cell :: cells =>
      cell.Unglued shows before (cells.flatMap (Cell.tight shows)) ∧
        Unglued (before ++ cell.tight shows) cells

/-- No match reaches across the parts of the template or of the message, what
is shown is redacted with its object, and no words are glued. -/
structure PartsApart (parts : List TemplatePart) (cells : List (Cell ω)) : Prop where
  template : secretKeyPattern.pieces (parts.flatMap TemplatePart.chars) =
    parts.flatMap TemplatePart.pieces
  message : secretKeyPattern.pieces (cells.flatMap (Cell.display shows)) =
    cells.flatMap fun cell => secretKeyPattern.pieces (cell.display shows)
  sound : ∀ cell ∈ cells, cell.Sound shows
  unglued : Unglued shows [] cells

/-- The record has no dictionary, and its parts are redacted on their own. -/
def LogRecord.Apart (record : LogRecord ω) : Prop :=
  match record.args with
  | .tuple [] => True
  | .tuple args =>
      ∀ parts cells, parseTemplate (record.msg.text shows.str).toList = some parts →
        fillParts shows none parts args = some cells → PartsApart shows parts cells
  | .dict _ items => items = []

/-- No string with a match has a width or a precision. -/
def LogRecord.Unsized (record : LogRecord ω) : Prop :=
  ∀ parts cells, parseTemplate (record.msg.text shows.str).toList = some parts →
    fillParts shows none parts record.args.iter = some cells → ∀ conv width precision arg,
      .field conv width precision arg ∈ cells →
        (Cell.field conv width precision arg).Redacts shows → width = none ∧ precision = none

/-! ## The redacted template -/

theorem mask_doublePercent (t : List Char) :
    secretKeyPattern.mask (doublePercent t) = doublePercent (secretKeyPattern.mask t) :=
  Masker.mask_double (fun _ hk => notMem_opening (by decide) (by decide) (by decide) (by decide) hk)
    (by decide) t

theorem TemplatePart.chars_masked (part : TemplatePart) :
    part.pieces.flatMap secretKeyPattern.masked = part.masked.chars := by
  cases part with
  | text t => exact mask_doublePercent t
  | conversion raw conv => exact Masker.flatMap_masked_plain _

theorem mask_template {parts : List TemplatePart}
    (h : secretKeyPattern.pieces (parts.flatMap TemplatePart.chars) =
      parts.flatMap TemplatePart.pieces) :
    secretKeyPattern.mask (parts.flatMap TemplatePart.chars) =
      (parts.map TemplatePart.masked).flatMap TemplatePart.chars := by
  rw [Masker.mask, h, List.flatMap_assoc, List.flatMap_map]
  exact List.flatMap_congr fun part _ => part.chars_masked

theorem Runs.masked {parts : List TemplatePart} (h : Runs parts) :
    Runs (parts.map TemplatePart.masked) := by
  induction h with
  | nil => exact .nil
  | @text t parts hne hnext _ ih =>
    refine .text (Masker.mask_ne_nil hne) ?_ ih
    intro u rest heq
    cases parts with
    | nil => cases heq
    | cons part parts =>
      cases part with
      | text u' => exact hnext u' parts rfl
      | conversion raw conv => cases heq
  | conversion hraw hread _ ih => exact .conversion hraw hread ih

theorem parse_redacted {l : List Char} {parts : List TemplatePart}
    (hparse : parseTemplate l = some parts)
    (h : secretKeyPattern.pieces (parts.flatMap TemplatePart.chars) =
      parts.flatMap TemplatePart.pieces) :
    parseTemplate (secretKeyPattern.mask l) = some (parts.map TemplatePart.masked) := by
  rcases runs_of_parse hparse with ⟨hruns, rfl⟩
  rw [mask_template h]
  exact hruns.masked.parse_eq

/-! ## The redacted arguments -/

variable {shows}

theorem FieldSize.resolve_redacted (size : FieldSize) (args : List (PyObject ω)) :
    size.resolve shows (args.map PyObject.redacted) =
      (size.resolve shows args).map fun r => (r.1, r.2.map PyObject.redacted) := by
  cases size with
  | absent => rfl
  | digits ds => rfl
  | star =>
    cases args with
    | nil => rfl
    | cons arg args =>
      cases arg with
      | str s => rfl
      | other o =>
        show (shows.int o).map _ = ((shows.int o).map _).map _
        rw [Option.map_map]
        rfl

theorem Conversion.take_redacted (conv : Conversion) (width precision : Option Int)
    (args : List (PyObject ω)) :
    conv.take width precision (args.map PyObject.redacted) =
      (conv.take width precision args).map fun r => (r.1.redacted, r.2.map PyObject.redacted) := by
  unfold take
  split
  · have hpercent : secretKeyPattern.mask ['%'] = ['%'] := by decide
    show some (Cell.text ['%'], _) = some (Cell.text (secretKeyPattern.mask ['%']), _)
    rw [hpercent]
  · cases args with
    | nil => rfl
    | cons arg args => rfl

/-- A conversion takes the same arguments after the filter. -/
theorem Conversion.fill_redacted (conv : Conversion) (args : List (PyObject ω)) :
    conv.fill shows (args.map PyObject.redacted) =
      (conv.fill shows args).map fun r => (r.1.redacted, r.2.map PyObject.redacted) := by
  unfold fill
  rw [FieldSize.resolve_redacted]
  cases conv.width.resolve shows args with
  | none => rfl
  | some r =>
    show (conv.precision.resolve shows (r.2.map PyObject.redacted)).bind _ =
      ((conv.precision.resolve shows r.2).bind _).map _
    rw [FieldSize.resolve_redacted]
    cases conv.precision.resolve shows r.2 with
    | none => rfl
    | some r' => exact conv.take_redacted r.1 r'.1 r'.2

theorem fillParts_redacted (parts : List TemplatePart) (args : List (PyObject ω)) :
    fillParts shows none (parts.map TemplatePart.masked) (args.map PyObject.redacted) =
      (fillParts shows none parts args).map (List.map Cell.redacted) := by
  induction parts generalizing args with
  | nil =>
    cases args with
    | nil => rfl
    | cons arg args => rfl
  | cons part parts ih =>
    cases part with
    | text t =>
      show (fillParts shows none (parts.map TemplatePart.masked) _).map _ =
        ((fillParts shows none parts args).map _).map _
      rw [ih, Option.map_map, Option.map_map]
      rfl
    | conversion raw conv =>
      show (((conv.source none (args.map PyObject.redacted)).bind (conv.fill shows)).bind _) =
        (((conv.source none args).bind (conv.fill shows)).bind _).map _
      cases hkey : conv.key with
      | some key =>
        simp only [Conversion.source, hkey]
        rfl
      | none =>
        simp only [Conversion.source, hkey, Option.bind_some, Conversion.fill_redacted]
        cases conv.fill shows args with
        | none => rfl
        | some r =>
          show (fillParts shows none (parts.map TemplatePart.masked)
            (r.2.map PyObject.redacted)).map _ = ((fillParts shows none parts r.2).map _).map _
          rw [ih, Option.map_map, Option.map_map]
          rfl

/-! ## The cells of a message -/

theorem showCells_eq_some {cells : List (Cell ω)} {texts : List (List Char)} :
    showCells shows cells = some texts ↔ texts = cells.map (Cell.display shows) ∧
      ∀ cell ∈ cells, cell.shown shows = some (cell.display shows) := by
  induction cells generalizing texts with
  | nil =>
    show some [] = some texts ↔ _
    simp [eq_comm]
  | cons cell cells ih =>
    show (cell.shown shows).bind _ = _ ↔ _
    cases hshown : cell.shown shows with
    | none => simp [hshown]
    | some t =>
      have hdisplay : cell.display shows = t := by rw [Cell.display, hshown]; rfl
      rw [Option.bind_some, Option.map_eq_some_iff, List.map_cons, List.forall_mem_cons, hdisplay]
      constructor
      · rintro ⟨texts', htexts, rfl⟩
        obtain ⟨rfl, hall⟩ := ih.mp htexts
        exact ⟨rfl, hshown, hall⟩
      · rintro ⟨rfl, -, hall⟩
        exact ⟨_, ih.mpr ⟨rfl, hall⟩, rfl⟩

theorem not_value_padding (width : Option Int) (n : Nat) :
    ∀ c ∈ padding width n, isValueChar c = false := by
  intro c hc
  rw [(List.mem_replicate.mp hc).2]
  decide

theorem mask_padField (flags : List Char) (width : Option Int) (t : List Char) :
    secretKeyPattern.mask (padField flags width t) =
      if leftJustified flags width then secretKeyPattern.mask t ++ padding width t.length
      else padding width t.length ++ secretKeyPattern.mask t := by
  unfold padField
  split
  · simpa using Masker.mask_blanks (s := []) (l := t) (List.forall_mem_nil _)
      (not_value_padding width t.length)
  · simpa using Masker.mask_blanks (l := t) (t := []) (not_value_padding width t.length)
      (List.forall_mem_nil _)

theorem values_padField (flags : List Char) (width : Option Int) (t : List Char) :
    secretKeyPattern.values (padField flags width t) = secretKeyPattern.values t := by
  unfold padField
  split
  · simpa using Masker.values_blanks (s := []) (l := t) (List.forall_mem_nil _)
      (not_value_padding width t.length)
  · simpa using Masker.values_blanks (l := t) (t := []) (not_value_padding width t.length)
      (List.forall_mem_nil _)

theorem length_mask (t : List Char) : (secretKeyPattern.mask t).length = redactedLength t := by
  have hlength := secretKeyPattern.length_mask t
  have hhole : secretKeyPattern.hole.length = 14 := by decide
  rw [hhole] at hlength
  unfold redactedLength
  omega

theorem length_cutField_mask (precision : Option Int) (t : List Char) :
    (cutField precision (secretKeyPattern.mask t)).length = shownLength precision t := by
  cases precision with
  | none => exact length_mask t
  | some p => exact List.length_take.trans (by rw [length_mask]; rfl)

/-- What comes before the first value is cut the same. -/
theorem cutField_mask {precision : Option Int} {t : List Char}
    (h : secretKeyPattern.values (cutField precision t) = []) :
    cutField precision (secretKeyPattern.mask t) = cutField precision t := by
  cases precision with
  | none => exact Masker.mask_of_values_nil h
  | some p => exact Masker.take_mask h

theorem cutField_of_le {precision : Option Int} {t : List Char}
    (h : ∀ p, precision = some p → t.length ≤ p.toNat) : cutField precision t = t := by
  cases precision with
  | none => rfl
  | some p => exact List.take_of_length_le (h p rfl)

/-! ### Strings that are shown as they are -/

theorem mem_mask_of_not_value {c : Char} (hc : isValueChar c = false) (t : List Char) :
    c ∈ secretKeyPattern.mask t ↔ c ∈ t := by
  have hnot : ∀ {w : List Char}, (∀ a ∈ w, isValueChar a = true) → c ∉ w := by
    intro w hw hmem
    rw [hw c hmem] at hc
    cases hc
  induction t using secretKeyPattern.scan_induction with
  | nil => rw [Masker.mask_nil]
  | plain a l hnext ih =>
    have hl : c ∈ secretKeyPattern.mask l ↔ c ∈ l := ih
    rw [Masker.mask_plain hnext, List.mem_cons, List.mem_cons, hl]
  | hidden l k v rest hmatch ih =>
    have hrest : c ∈ secretKeyPattern.mask rest ↔ c ∈ rest := ih
    rw [hmatch.mask_eq, hmatch.text]
    simp only [List.mem_append, hrest, hnot secretKeyPattern.hole_value, hnot hmatch.value]

theorem quoteOf_mask (t : List Char) : quoteOf (secretKeyPattern.mask t) = quoteOf t := by
  have hsingle := mem_mask_of_not_value (c := '\'') (by decide) t
  have hdouble := mem_mask_of_not_value (c := '"') (by decide) t
  simp only [quoteOf, hsingle, hdouble]

theorem isQuote_quoteOf (t : List Char) : isQuote (quoteOf t) = true := by
  unfold quoteOf
  split <;> decide

theorem escapeChar_hole (printable : Char → Bool) {quote : Char} (hquote : isQuote quote = true) :
    ∀ c ∈ secretKeyPattern.hole, escapeChar printable quote c = [c] := by
  have hhole : secretKeyPattern.hole.all (fun c => !isQuote c && c != '\\' && c != '\t' &&
      c != '\n' && c != '\r' && decide (32 ≤ c.toNat) && decide (c.toNat < 127)) = true := by
    decide
  intro c hc
  have hplain := List.all_eq_true.mp hhole c hc
  simp only [Bool.and_eq_true, Bool.not_eq_true', bne_iff_ne, decide_eq_true_eq] at hplain
  obtain ⟨⟨⟨⟨⟨⟨hnot, hslash⟩, htab⟩, hnewline⟩, hreturn⟩, hge⟩, hlt⟩ := hplain
  have hne : c ≠ quote := by
    rintro rfl
    rw [hquote] at hnot
    cases hnot
  simp [escapeChar, hne, hslash, htab, hnewline, hreturn, hge, hlt]

theorem flatMap_eq_self {f : Char → List Char} {t : List Char} (h : ∀ c ∈ t, f c = [c]) :
    t.flatMap f = t := by
  rw [List.flatMap_congr h, List.flatMap_singleton']

/-- A masked piece is escaped like the piece. -/
theorem flatMap_masked_escapePiece {escape : Char → List Char}
    (hhole : ∀ c ∈ secretKeyPattern.hole, escape c = [c]) (piece : Piece Char) :
    (escapePiece escape piece).flatMap secretKeyPattern.masked =
      (secretKeyPattern.masked piece).flatMap escape := by
  cases piece with
  | plain c =>
    show ((escape c).map Piece.plain).flatMap secretKeyPattern.masked = [c].flatMap escape
    rw [Masker.flatMap_masked_plain, List.flatMap_singleton]
  | hidden k v =>
    show [Piece.hidden (k.flatMap escape) (v.flatMap escape)].flatMap secretKeyPattern.masked =
      (k ++ secretKeyPattern.hole).flatMap escape
    rw [List.flatMap_append, flatMap_eq_self hhole, List.flatMap_singleton]
    rfl

namespace Conversion.KeepsMatches

variable {conv : Conversion} {s : String}

/-- The conversion puts quotes around the string, or it does not. -/
theorem body_eq (h : conv.KeepsMatches shows s) : ∃ (q : List Char) (escape : Char → List Char),
    (∀ c ∈ q, isValueChar c = false) ∧
    (∀ c ∈ secretKeyPattern.hole, escape c = [c]) ∧
    conv.body shows (.str s) = q ++ s.toList.flatMap escape ++ q ∧
    conv.body shows (.str (redact s)) =
      q ++ (secretKeyPattern.mask s.toList).flatMap escape ++ q ∧
    secretKeyPattern.pieces (s.toList.flatMap escape) =
      (secretKeyPattern.pieces s.toList).flatMap (escapePiece escape) := by
  have hredact : (redact s).toList = secretKeyPattern.mask s.toList := by
    rw [redact, String.toList_ofList]
  rcases h with htype | ⟨htype, hpieces⟩
  · -- `%s` writes the text as it is
    have hsame : ∀ t : List Char, t.flatMap (fun c => [c]) = t := fun t =>
      flatMap_eq_self fun _ _ => rfl
    have hplain : ∀ ps : List (Piece Char), ps.flatMap (escapePiece fun c => [c]) = ps := by
      intro ps
      refine (List.flatMap_congr fun piece _ => ?_).trans (List.flatMap_singleton' ps)
      cases piece with
      | plain c => rfl
      | hidden k v => simp [escapePiece]
    refine ⟨[], fun c => [c], List.forall_mem_nil _, fun _ _ => rfl, ?_, ?_, ?_⟩
    · simp [body, htype, PyObject.text]
    · simp [body, htype, PyObject.text, hredact]
    · rw [hsame, hplain]
  · -- `%r` and `%a` quote it
    have hquote := isQuote_quoteOf s.toList
    have hs : conv.type ≠ 's' := by
      rintro heq
      rw [heq] at htype
      revert htype
      decide
    refine ⟨[quoteOf s.toList], escapeChar (conv.printable shows) (quoteOf s.toList), ?_,
      escapeChar_hole _ hquote, ?_, ?_, hpieces⟩
    · intro c hc
      rw [List.mem_singleton.mp hc]
      simp [isValueChar, hquote]
    · simp only [body, if_neg hs, reprString, List.cons_append, List.nil_append]
    · simp only [body, if_neg hs, reprString, hredact, quoteOf_mask, List.cons_append,
        List.nil_append]

theorem body_redacted (h : conv.KeepsMatches shows s) :
    conv.body shows (.str (redact s)) =
      secretKeyPattern.mask (conv.body shows (.str s)) := by
  obtain ⟨q, escape, hq, hhole, hbody, hbody', hpieces⟩ := h.body_eq
  have hmask : secretKeyPattern.mask (s.toList.flatMap escape) =
      (secretKeyPattern.mask s.toList).flatMap escape := by
    rw [Masker.mask, hpieces, List.flatMap_assoc, Masker.mask, List.flatMap_assoc]
    exact List.flatMap_congr fun piece _ => flatMap_masked_escapePiece hhole piece
  rw [hbody, hbody', Masker.mask_blanks hq hq, hmask]

/-- What is shown has a value only if the string has one. -/
theorem values_body (h : conv.KeepsMatches shows s)
    (hnone : secretKeyPattern.values s.toList = []) :
    secretKeyPattern.values (conv.body shows (.str s)) = [] := by
  obtain ⟨q, escape, hq, -, hbody, -, hpieces⟩ := h.body_eq
  rw [hbody, Masker.values_blanks hq hq]
  rw [Masker.values, List.filterMap_eq_nil_iff] at hnone ⊢
  intro piece hpiece
  rw [hpieces, List.mem_flatMap] at hpiece
  obtain ⟨piece', hmem, hpiece⟩ := hpiece
  cases piece' with
  | plain c =>
    obtain ⟨d, -, rfl⟩ := List.mem_map.mp hpiece
    rfl
  | hidden k v => cases hnone _ hmem

theorem shown (h : conv.KeepsMatches shows s) (width precision : Option Int) (arg : PyObject ω) :
    (Cell.field conv width precision arg).shown shows =
      some (padField conv.flags width (cutField precision (conv.body shows arg))) := by
  have htype : conv.type = 's' ∨ conv.type = 'r' ∨ conv.type = 'a' := h.imp_right And.left
  exact if_pos htype

end Conversion.KeepsMatches

/-! ## What the redacted message leaves -/

theorem ends_padding {width : Option Int} {n : Nat} {open' : Bool} (h : padding width n ≠ []) :
    Words.ends isValueChar open' (padding width n) = false :=
  Words.ends_blank (not_value_padding width n) fun _ => h

section field

variable {flags : List Char} {width precision : Option Int} {t before after M N : List Char}
variable {open' : Bool}

/-- The start of a text whose first value is shown. -/
theorem head?_cutField_mask (hne : t ≠ [])
    (hwhole : ∀ p, precision = some p → t.length ≤ p.toNat) :
    (cutField precision (secretKeyPattern.mask t)).head? = t.head? := by
  cases precision with
  | none => exact Masker.head?_mask_eq t
  | some p =>
    have hpos : p.toNat ≠ 0 := by
      have hle := hwhole p rfl
      have hlength := List.length_pos_iff.mpr hne
      omega
    show ((secretKeyPattern.mask t).take p.toNat).head? = t.head?
    rw [List.head?_take, if_neg hpos, Masker.head?_mask_eq]

theorem StartsBlank.append {t u u' : List Char} (h : StartsBlank (t ++ u))
    (hu : u'.head? = u.head?) :
    StartsBlank (t ++ u') := by
  unfold StartsBlank at h ⊢
  rw [List.head?_append] at h ⊢
  rwa [hu]

/-- A field whose string is redacted, between what comes before and after it. -/
theorem thins_field (hne : t ≠ []) (hwhole : ∀ p, precision = some p → t.length ≤ p.toNat)
    (hlost : padding width t.length ≠ [] → padding width (shownLength precision t) = [] →
      if leftJustified flags width then WordsApart t after else WordsApart before t)
    (hcut : shownLength precision t < redactedLength t →
      StartsBlank ((if leftJustified flags width then padding width (shownLength precision t) else []) ++
        after))
    (hopen : open' = true → Words.ends isValueChar false before = true ∨
      StartsBlank ((if leftJustified flags width then t ++ padding width (shownLength precision t)
        else padding width (shownLength precision t) ++ t) ++ after))
    (hafter : N.head? = after.head?)
    (hrest : Words.Thins isValueChar (Words.ends isValueChar open'
      (padField flags width (cutField precision (secretKeyPattern.mask t)))) M N) :
    Words.Thins isValueChar open' (secretKeyPattern.mask (padField flags width t) ++ M)
      (padField flags width (cutField precision (secretKeyPattern.mask t)) ++ N) := by
  obtain ⟨d, hd, hdcut⟩ : ∃ d, secretKeyPattern.mask t =
      cutField precision (secretKeyPattern.mask t) ++ d ∧
        (d ≠ [] → shownLength precision t < redactedLength t) := by
    cases precision with
    | none => exact ⟨[], (List.append_nil _).symm, fun h => absurd rfl h⟩
    | some p =>
      refine ⟨(secretKeyPattern.mask t).drop p.toNat, (List.take_append_drop _ _).symm,
        fun h => ?_⟩
      have hlt : p.toNat < (secretKeyPattern.mask t).length := by
        by_contra hge
        exact h (List.drop_eq_nil_of_le (Nat.not_lt.mp hge))
      rw [length_mask] at hlt
      exact (Nat.min_eq_left (Nat.le_of_lt hlt)).trans_lt hlt
  have hhead := head?_cutField_mask hne hwhole
  have hlength := length_cutField_mask precision t
  have hends : ∀ open' : Bool, d = [] → Words.ends isValueChar open'
      (cutField precision (secretKeyPattern.mask t)) = Words.ends isValueChar false t := by
    rintro open' rfl
    rw [List.append_nil] at hd
    rw [← hd]
    exact (Masker.ends_mask (M := secretKeyPattern) t open').trans
      (Words.ends_of_ne_nil hne open' false)
  generalize cutField precision (secretKeyPattern.mask t) = c at *
  rw [mask_padField, hd]
  unfold padField at hrest ⊢
  rw [hlength] at hrest ⊢
  have hspaces : ∀ a ∈ padding width (shownLength precision t), isValueChar a = false :=
    not_value_padding _ _
  have hafter' : ∀ {u : List Char}, StartsBlank (u ++ after) → StartsBlank (u ++ N) := fun h =>
    h.append hafter
  generalize padding width (shownLength precision t) = spaces at *
  cases hleft : leftJustified flags width with
  | true =>
    rw [hleft] at hrest hlost hcut
    simp only [if_true, List.append_assoc] at hrest hlost hcut ⊢
    rw [Words.ends_append] at hrest
    refine .keepAll (.dropAll (fun hne _ => hafter' (hcut (hdcut hne)))
      (.putAll hspaces (.dropAll (fun hold htrue => ?_) hrest)))
    -- the spaces of the field are gone, or a word cannot go on behind them
    by_cases hnone : spaces = []
    · subst hnone
      by_cases hd : d = []
      · rw [Words.ends_nil, hends open' hd] at htrue
        exact hafter' (u := []) (hlost hold rfl htrue)
      · exact hafter' (hcut (hdcut hd))
    · rw [Words.ends_blank hspaces fun _ => hnone] at htrue
      cases htrue
  | false =>
    rw [hleft] at hrest hlost hcut hopen
    simp only [Bool.false_eq_true, if_false, List.append_assoc, List.nil_append]
      at hrest hlost hcut hopen ⊢
    rw [Words.ends_append] at hrest
    refine .putAll hspaces (.dropAll (fun hold htrue => ?_)
      (.keepAll (.dropAll (fun hne _ => hafter' (u := []) (hcut (hdcut hne))) hrest)))
    have hc : ∀ {u : List Char}, StartsBlank (t ++ u) → StartsBlank (c ++ N) := by
      intro u h
      unfold StartsBlank at h ⊢
      rw [List.head?_append] at h ⊢
      rw [hhead]
      cases t with
      | nil => exact absurd rfl hne
      | cons b t => exact h
    by_cases hnone : spaces = []
    · subst hnone
      rcases hopen htrue with hbefore | hblank
      · exact hc (u := []) (by rw [List.append_nil]; exact hlost hold rfl hbefore)
      · exact hc hblank
    · rw [Words.ends_blank hspaces fun _ => hnone] at htrue
      cases htrue

/-- Where the redacted field ends inside a word, the field does so before, or no
word begins after it. -/
theorem ends_field (hne : t ≠ [])
    (hcut : shownLength precision t < redactedLength t →
      StartsBlank ((if leftJustified flags width then padding width (shownLength precision t)
        else []) ++ after))
    (htrue : Words.ends isValueChar open'
      (padField flags width (cutField precision (secretKeyPattern.mask t))) = true) :
    Words.ends isValueChar false (before ++
      (if leftJustified flags width then t ++ padding width (shownLength precision t)
        else padding width (shownLength precision t) ++ t)) = true ∨ StartsBlank after := by
  -- where nothing of the redaction is cut off, nothing is
  have hwhole : ¬ shownLength precision t < redactedLength t →
      cutField precision (secretKeyPattern.mask t) = secretKeyPattern.mask t := by
    intro hge
    refine cutField_of_le fun p hp => ?_
    subst hp
    rw [length_mask]
    have hmin : ¬ min p.toNat (redactedLength t) < redactedLength t := hge
    omega
  rw [padField, length_cutField_mask] at htrue
  cases hleft : leftJustified flags width with
  | true =>
    rw [hleft, if_pos rfl, Words.ends_append] at htrue
    rw [hleft, if_pos rfl] at hcut
    -- padding would end the word
    have hnone : padding width (shownLength precision t) = [] := by
      by_contra hspaces
      rw [ends_padding hspaces] at htrue
      cases htrue
    rw [hnone] at hcut htrue ⊢
    by_cases hlt : shownLength precision t < redactedLength t
    · exact .inr (hcut hlt)
    · rw [hwhole hlt] at htrue
      rw [if_pos rfl, List.append_nil, Words.ends_append, Words.ends_of_ne_nil hne _ open']
      exact .inl ((Masker.ends_mask (M := secretKeyPattern) t open').symm.trans htrue)
  | false =>
    rw [hleft, if_neg Bool.false_ne_true, Words.ends_append] at htrue
    rw [hleft, if_neg Bool.false_ne_true] at hcut
    -- the cut is behind the padding
    by_cases hlt : shownLength precision t < redactedLength t
    · exact .inr (hcut hlt)
    · rw [hwhole hlt] at htrue
      rw [if_neg Bool.false_ne_true, Words.ends_append, Words.ends_append,
        Words.ends_of_ne_nil hne _ (Words.ends isValueChar open' (padding width _))]
      exact .inl ((Masker.ends_mask (M := secretKeyPattern) t _).symm.trans htrue)

end field

namespace Cell

variable {cell : Cell ω}

theorem quiet_of_cut {conv : Conversion} {width precision : Option Int} {s : String}
    (hkeeps : conv.KeepsMatches shows s)
    (hcut : secretKeyPattern.values (cutField precision (conv.body shows (.str s))) = []) :
    (Cell.field conv width precision (.str s)).redacted.shown shows =
      some (secretKeyPattern.mask ((Cell.field conv width precision (.str s)).display shows)) := by
  have hdisplay : (Cell.field conv width precision (.str s)).display shows =
      padField conv.flags width (cutField precision (conv.body shows (.str s))) := by
    rw [display, hkeeps.shown]
    rfl
  have hvalues := (values_padField conv.flags width _).trans hcut
  rw [hdisplay, Masker.mask_of_values_nil hvalues]
  calc (Cell.field conv width precision (.str s)).redacted.shown shows
      = some (padField conv.flags width
          (cutField precision (conv.body shows (.str (redact s))))) := hkeeps.shown _ _ _
    _ = _ := by rw [hkeeps.body_redacted, cutField_mask hcut]

/-- A cell that shows no value of a string is left alone. -/
theorem Sound.quiet (h : cell.Sound shows) (hshown : cell.shown shows = some (cell.display shows))
    (hnot : ¬ cell.Redacts shows) :
    cell.redacted.shown shows = some (secretKeyPattern.mask (cell.display shows)) ∧
      cell.tight shows = cell.display shows := by
  cases h with
  | text t => exact ⟨rfl, rfl⟩
  | @unmatched conv width precision arg hvalues harg =>
    refine ⟨?_, if_neg hnot⟩
    have hsame : arg.redacted = arg := by
      cases arg with
      | str s =>
        show PyObject.str (redact s) = PyObject.str s
        rw [redact, Masker.mask_of_values_nil (harg s rfl), String.ofList_toList]
      | other o => rfl
    rw [Masker.mask_of_values_nil hvalues, redacted, hsame]
    exact hshown
  | cut hkeeps hcut => exact ⟨quiet_of_cut hkeeps hcut, if_neg hnot⟩
  | @whole conv width precision s hkeeps hwhole =>
    refine ⟨quiet_of_cut hkeeps ?_, if_neg hnot⟩
    -- the string holds no value at all
    by_contra hne
    refine hnot ⟨fun hnone => hne ?_, hne⟩
    rw [cutField_of_le hwhole]
    exact hkeeps.values_body hnone

/-- What a cell that shows a value of its string is made of. -/
structure Framed (shows : Shows ω) (cell : Cell ω) (flags : List Char) (width precision : Option Int)
    (t : List Char) : Prop where
  field : ∃ conv arg, cell = .field conv width precision arg
  nonempty : t ≠ []
  whole : ∀ p, precision = some p → t.length ≤ p.toNat
  display : cell.display shows = padField flags width t
  redacted : cell.redacted.shown shows =
    some (padField flags width (cutField precision (secretKeyPattern.mask t)))
  tight : cell.tight shows =
    if leftJustified flags width then t ++ padding width (shownLength precision t)
    else padding width (shownLength precision t) ++ t
  unglued : ∀ before after, cell.Unglued shows before after →
    (padding width t.length ≠ [] → padding width (shownLength precision t) = [] →
      if leftJustified flags width then WordsApart t after else WordsApart before t) ∧
    (shownLength precision t < redactedLength t →
      StartsBlank ((if leftJustified flags width then padding width (shownLength precision t)
        else []) ++ after))

theorem Sound.framed (h : cell.Sound shows) (hredacts : cell.Redacts shows) :
    ∃ flags width precision t, cell.Framed shows flags width precision t := by
  cases h with
  | text t => exact hredacts.elim
  | @unmatched conv width precision arg _ harg =>
    cases arg with
    | str s => exact absurd (harg s rfl) hredacts.1
    | other o => exact hredacts.elim
  | cut _ hcut => exact absurd hcut hredacts.2
  | @whole conv width precision s hkeeps hwhole =>
    refine ⟨conv.flags, width, precision, conv.body shows (.str s), ⟨conv, _, rfl⟩, ?_, hwhole, ?_, ?_,
      if_pos hredacts, fun before after hunglued => hunglued hredacts⟩
    · intro hnil
      refine hredacts.2 ?_
      rw [cutField_of_le hwhole, hnil, Masker.values_nil]
    · rw [display, hkeeps.shown, cutField_of_le hwhole]
      rfl
    · refine (hkeeps.shown width precision _).trans ?_
      show some (padField conv.flags width
        (cutField precision (conv.body shows (.str (redact s))))) = _
      rw [hkeeps.body_redacted]

theorem Framed.display_redacted {flags : List Char} {width precision : Option Int}
    {t : List Char} (h : cell.Framed shows flags width precision t) :
    cell.redacted.display shows =
      padField flags width (cutField precision (secretKeyPattern.mask t)) := by
  rw [Cell.display, h.redacted]
  rfl

theorem Sound.shown_redacted (h : cell.Sound shows)
    (hshown : cell.shown shows = some (cell.display shows)) :
    cell.redacted.shown shows = some (cell.redacted.display shows) := by
  have hsome : ∃ t, cell.redacted.shown shows = some t := by
    by_cases hredacts : cell.Redacts shows
    · obtain ⟨flags, width, precision, t, hframed⟩ := h.framed hredacts
      exact ⟨_, hframed.redacted⟩
    · exact ⟨_, (h.quiet hshown hredacts).1⟩
  obtain ⟨t, ht⟩ := hsome
  rw [ht, Cell.display, ht]
  rfl

/-- The redacted cell starts like the cell with the spaces that remain. -/
theorem Sound.head?_redacted (h : cell.Sound shows)
    (hshown : cell.shown shows = some (cell.display shows)) :
    (cell.redacted.display shows).head? = (cell.tight shows).head? := by
  by_cases hredacts : cell.Redacts shows
  · obtain ⟨flags, width, precision, t, hframed⟩ := h.framed hredacts
    have hhead := head?_cutField_mask hframed.nonempty hframed.whole
    have hlength := length_cutField_mask precision t
    rw [hframed.display_redacted, hframed.tight, padField, hlength]
    split
    · rw [List.head?_append, List.head?_append, hhead]
    · rw [List.head?_append, List.head?_append, hhead]
  · obtain ⟨hredacted, htight⟩ := h.quiet hshown hredacts
    rw [htight, display, hredacted]
    exact Masker.head?_mask_eq _

end Cell

theorem head?_cells {cells : List (Cell ω)} (hsound : ∀ cell ∈ cells, cell.Sound shows)
    (hshown : ∀ cell ∈ cells, cell.shown shows = some (cell.display shows)) :
    (cells.flatMap fun cell => cell.redacted.display shows).head? =
      (cells.flatMap (Cell.tight shows)).head? := by
  induction cells with
  | nil => rfl
  | cons cell cells ih =>
    obtain ⟨hcell, hcells⟩ := List.forall_mem_cons.mp hsound
    obtain ⟨hcell', hcells'⟩ := List.forall_mem_cons.mp hshown
    rw [List.flatMap_cons, List.flatMap_cons, List.head?_append, List.head?_append,
      hcell.head?_redacted hcell', ih hcells hcells']

/-- The redacted cells come from the redacted message by leaving spaces out,
putting spaces in, and cutting placeholders at the end of their field, where no
words come together. -/
theorem thins_cells {cells : List (Cell ω)} {before : List Char} {open' : Bool}
    (hsound : ∀ cell ∈ cells, cell.Sound shows)
    (hshown : ∀ cell ∈ cells, cell.shown shows = some (cell.display shows))
    (hunglued : Unglued shows before cells)
    (hopen : open' = true → Words.ends isValueChar false before = true ∨
      StartsBlank (cells.flatMap (Cell.tight shows))) :
    Words.Thins isValueChar open'
      (cells.flatMap fun cell => secretKeyPattern.mask (cell.display shows))
      (cells.flatMap fun cell => cell.redacted.display shows) := by
  induction cells generalizing before open' with
  | nil => exact .nil
  | cons cell cells ih =>
    obtain ⟨hcell, hcells⟩ := List.forall_mem_cons.mp hsound
    obtain ⟨hcell', hcells'⟩ := List.forall_mem_cons.mp hshown
    obtain ⟨hunglued, hrest⟩ := hunglued
    rw [List.flatMap_cons] at hopen
    rw [List.flatMap_cons, List.flatMap_cons]
    by_cases hredacts : cell.Redacts shows
    · -- a redacted cell is thinned, and a word may go on behind it
      obtain ⟨flags, width, precision, t, hframed⟩ := hcell.framed hredacts
      obtain ⟨hlost, hcut⟩ := hframed.unglued _ _ hunglued
      rw [hframed.display_redacted, hframed.display]
      rw [hframed.tight] at hopen
      refine thins_field hframed.nonempty hframed.whole hlost hcut hopen
        (head?_cells hcells hcells') (ih hcells hcells' hrest fun htrue => ?_)
      rw [hframed.tight]
      exact ends_field hframed.nonempty hcut htrue
    · -- a cell that shows no secret stays as it is
      obtain ⟨hredacted, htight⟩ := hcell.quiet hcell' hredacts
      have hdisplay : cell.redacted.display shows =
          secretKeyPattern.mask (cell.display shows) := by
        rw [Cell.display, hredacted]
        rfl
      rw [hdisplay]
      refine .keepAll (ih hcells hcells' hrest fun htrue => ?_)
      have hends : Words.ends isValueChar open' (cell.display shows) = true :=
        (Masker.ends_mask (M := secretKeyPattern) _ _).symm.trans htrue
      rw [htight] at hopen ⊢
      -- an empty cell leaves the word open
      by_cases hnil : cell.display shows = []
      · rw [hnil] at hends hopen ⊢
        rw [List.append_nil]
        exact hopen hends
      · rw [Words.ends_append, Words.ends_of_ne_nil hnil _ open']
        exact .inl hends

end TallyConnector
