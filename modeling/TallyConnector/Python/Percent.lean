import Mathlib.Algebra.GroupWithZero.Nat
import Mathlib.Data.List.Infix
import Mathlib.Tactic.Common

/-! # Formatting with `%`

`template % args` of Python strings. A template is read character by
character; a `%` starts a conversion, `%[(key)][flags][width][.precision]type`
with an `h`, `l` or `L` before the type that means nothing. `%%` stands for a
percent sign, and so does a conversion of type `%`, which takes no object.
-/

namespace TallyConnector

/-! ## Conversions -/

/-- A width or a precision. -/
inductive FieldSize where
  | absent
  | star
  | digits (ds : List Char)
deriving DecidableEq

structure Conversion where
  key : Option (List Char) := none
  flags : List Char := []
  width : FieldSize := .absent
  precision : FieldSize := .absent
  type : Char := '%'
deriving DecidableEq

/-- What the next character of a conversion may be. -/
inductive Stage where
  | start
  /-- Inside so many parentheses. -/
  | key (depth : Nat)
  | flags
  | width
  | dot
  | precision
  | precisionDigits
  | type
  | done
deriving DecidableEq

def isAsciiDigit (c : Char) : Bool := '0' ≤ c && c ≤ '9'

namespace Conversion

variable (conv : Conversion) (c : Char)

def typeStep : Stage × Conversion := (.done, { conv with type := c })

def modifierStep : Stage × Conversion :=
  if c = 'h' ∨ c = 'l' ∨ c = 'L' then (.type, conv) else conv.typeStep c

def dotStep : Stage × Conversion :=
  if c = '.' then (.precision, { conv with precision := .digits [] }) else conv.modifierStep c

def widthStep : Stage × Conversion :=
  if c = '*' then (.dot, { conv with width := .star })
  else if isAsciiDigit c then (.width, { conv with width := .digits [c] })
  else conv.dotStep c

def flagsStep : Stage × Conversion :=
  if c ∈ ['-', '+', ' ', '#', '0'] then (.flags, { conv with flags := conv.flags ++ [c] })
  else conv.widthStep c

def addDigit : FieldSize → FieldSize
  | .digits ds => .digits (ds ++ [c])
  | size => size

/-- `unicode_format_arg_parse`, one character. -/
def step : Stage → Stage × Conversion
  | .start => if c = '(' then (.key 1, { conv with key := some [] }) else conv.flagsStep c
  | .key depth =>
      if c = ')' ∧ depth ≤ 1 then (.flags, conv)
      else
        let depth := if c = '(' then depth + 1 else if c = ')' then depth - 1 else depth
        (.key depth, { conv with key := conv.key.map (· ++ [c]) })
  | .flags => conv.flagsStep c
  | .width =>
      if isAsciiDigit c then (.width, { conv with width := addDigit c conv.width })
      else conv.dotStep c
  | .dot => conv.dotStep c
  | .precision =>
      if c = '*' then (.precisionDigits, { conv with precision := .star })
      else if isAsciiDigit c then
        (.precisionDigits, { conv with precision := addDigit c conv.precision })
      else conv.modifierStep c
  | .precisionDigits =>
      match conv.precision with
      | .digits ds =>
          if isAsciiDigit c then
            (.precisionDigits, { conv with precision := .digits (ds ++ [c]) })
          else conv.modifierStep c
      | _ => conv.modifierStep c
  | .type => conv.typeStep c
  | .done => conv.typeStep c

end Conversion

/-- The characters of a conversion after the `%`, up to its type. -/
def readConversion : Stage → Conversion → List Char → Option (List Char × Conversion)
  | _, _, [] => none
  | stage, conv, c :: l =>
      let next := conv.step c stage
      if next.1 = .done then some ([c], next.2)
      else (readConversion next.1 next.2 l).map fun read => (c :: read.1, read.2)

/-! ## Templates -/

/-- A part of a template: text as it is shown, or a conversion. -/
inductive TemplatePart where
  | text (t : List Char)
  | conversion (raw : List Char) (conv : Conversion)
deriving DecidableEq

/-- A character in front of what has been read. -/
def addChar (c : Char) : List TemplatePart → List TemplatePart
  | .text t :: parts => .text (c :: t) :: parts
  | parts => .text [c] :: parts

/-- The parts of the template after the characters of a conversion. -/
def parseFrom : Nat → List Char → Option (List TemplatePart)
  | _, [] => some []
  | n + 1, _ :: l => parseFrom n l
  | 0, c :: l =>
      if c = '%' then
        if l.head? = some '%' then (parseFrom 1 l).map (addChar '%')
        else
          match readConversion .start {} l with
          | none => none
          | some (raw, conv) => (parseFrom raw.length l).map (.conversion raw conv :: ·)
      else (parseFrom 0 l).map (addChar c)

abbrev parseTemplate (template : List Char) : Option (List TemplatePart) := parseFrom 0 template

/-! ### Reading what a template consists of -/

/-- The text with every percent sign twice. -/
def doublePercent (t : List Char) : List Char := t.flatMap fun c => if c = '%' then [c, c] else [c]

def TemplatePart.chars : TemplatePart → List Char
  | .text t => doublePercent t
  | .conversion raw _ => '%' :: raw

/-- The parts as they are read off a template: text, as much of it as there is,
and conversions. -/
inductive Runs : List TemplatePart → Prop
  | nil : Runs []
  | text {t : List Char} {parts : List TemplatePart} (hne : t ≠ [])
      (hnext : ∀ u rest, parts ≠ .text u :: rest) (h : Runs parts) : Runs (.text t :: parts)
  | conversion {raw : List Char} {conv : Conversion} {parts : List TemplatePart}
      (hraw : raw.head? ≠ some '%') (hread : readConversion .start {} raw = some (raw, conv))
      (h : Runs parts) : Runs (.conversion raw conv :: parts)

/-- A conversion is read from its own characters. -/
theorem readConversion_append {stage : Stage} {conv conv' : Conversion} {l raw : List Char}
    (h : readConversion stage conv l = some (raw, conv')) :
    raw ≠ [] ∧ (∃ rest, l = raw ++ rest) ∧
      ∀ rest, readConversion stage conv (raw ++ rest) = some (raw, conv') := by
  induction l generalizing stage conv raw with
  | nil => cases h
  | cons c l ih =>
    unfold readConversion at h
    dsimp only at h
    split at h
    · next hdone =>
      cases h
      refine ⟨List.cons_ne_nil c [], ⟨l, rfl⟩, fun rest => ?_⟩
      exact if_pos hdone
    · next hdone =>
      rcases Option.map_eq_some_iff.mp h with ⟨⟨raw', conv₂⟩, hread, heq⟩
      rcases Prod.mk.inj heq with ⟨rfl, rfl⟩
      rcases ih hread with ⟨-, ⟨rest, rfl⟩, hrest⟩
      refine ⟨List.cons_ne_nil c raw', ⟨rest, rfl⟩, fun rest => ?_⟩
      refine (if_neg hdone).trans ?_
      rw [List.append_eq, hrest]
      rfl

theorem parseFrom_skip (w l : List Char) : parseFrom w.length (w ++ l) = parseTemplate l := by
  induction w with
  | nil => rfl
  | cons c w ih => rw [List.cons_append, List.length_cons, parseFrom, ih]

theorem parse_char {c : Char} (hc : c ≠ '%') (l : List Char) :
    parseTemplate (c :: l) = (parseTemplate l).map (addChar c) := by
  rw [parseTemplate, parseFrom, if_neg hc]

theorem parse_percent (l : List Char) :
    parseTemplate ('%' :: '%' :: l) = (parseTemplate l).map (addChar '%') := by
  rw [parseTemplate, parseFrom, if_pos rfl]
  exact if_pos rfl

theorem parse_conversion {raw : List Char} {conv : Conversion} (hraw : raw.head? ≠ some '%')
    (hread : readConversion .start {} raw = some (raw, conv)) (l : List Char) :
    parseTemplate ('%' :: (raw ++ l)) = (parseTemplate l).map (.conversion raw conv :: ·) := by
  rcases readConversion_append hread with ⟨hne, -, happend⟩
  have hhead : (raw ++ l).head? ≠ some '%' := by
    cases raw with
    | nil => exact absurd rfl hne
    | cons c raw => exact hraw
  rw [parseTemplate, parseFrom, if_pos rfl, if_neg hhead, happend l]
  show (parseFrom raw.length (raw ++ l)).map _ = _
  rw [parseFrom_skip]

theorem parse_doublePercent (c : Char) (l : List Char) :
    parseTemplate (doublePercent [c] ++ l) = (parseTemplate l).map (addChar c) := by
  by_cases hc : c = '%'
  · subst hc
    exact parse_percent l
  · have hsingle : doublePercent [c] = [c] := by simp [doublePercent, hc]
    rw [hsingle]
    exact parse_char hc l

theorem addChar_eq {c : Char} {parts : List TemplatePart}
    (hnext : ∀ u rest, parts ≠ .text u :: rest) :
    addChar c parts = .text [c] :: parts := by
  cases parts with
  | nil => rfl
  | cons part parts =>
    cases part with
    | text u => exact absurd rfl (hnext u parts)
    | conversion raw conv => rfl

/-- Text in front of parts that do not start with text. -/
theorem parse_text {t l : List Char} {parts : List TemplatePart} (hne : t ≠ [])
    (hnext : ∀ u rest, parts ≠ .text u :: rest) (h : parseTemplate l = some parts) :
    parseTemplate (doublePercent t ++ l) = some (.text t :: parts) := by
  induction t with
  | nil => exact absurd rfl hne
  | cons c t ih =>
    have hsplit : doublePercent (c :: t) ++ l = doublePercent [c] ++ (doublePercent t ++ l) := by
      simp [doublePercent]
    rw [hsplit, parse_doublePercent]
    cases t with
    | nil =>
      show (parseTemplate l).map (addChar c) = some (.text [c] :: parts)
      rw [h, Option.map_some, addChar_eq hnext]
    | cons d t =>
      rw [ih (List.cons_ne_nil d t)]
      rfl

/-- Parts that could be read off a template are read off what they spell. -/
theorem Runs.parse_eq {parts : List TemplatePart} (h : Runs parts) :
    parseTemplate (parts.flatMap TemplatePart.chars) = some parts := by
  induction h with
  | nil => rfl
  | text hne hnext _ ih => exact parse_text hne hnext ih
  | conversion hraw hread _ ih =>
    rw [List.flatMap_cons]
    exact (parse_conversion hraw hread _).trans (congrArg (Option.map _) ih)

theorem Runs.addChar (c : Char) {parts : List TemplatePart} (h : Runs parts) :
    Runs (addChar c parts) ∧
      (TallyConnector.addChar c parts).flatMap TemplatePart.chars =
        doublePercent [c] ++ parts.flatMap TemplatePart.chars := by
  cases h with
  | nil => exact ⟨.text (List.cons_ne_nil c []) nofun .nil, rfl⟩
  | @text t parts hne hnext h =>
    refine ⟨.text (List.cons_ne_nil c _) hnext h, ?_⟩
    show doublePercent (c :: t) ++ parts.flatMap TemplatePart.chars =
      doublePercent [c] ++ (doublePercent t ++ parts.flatMap TemplatePart.chars)
    simp [doublePercent]
  | conversion hraw hread h =>
    exact ⟨.text (List.cons_ne_nil c []) nofun (.conversion hraw hread h), rfl⟩

/-- What is read off a template spells the template. -/
theorem runs_of_parse {l : List Char} {parts : List TemplatePart}
    (h : parseTemplate l = some parts) :
    Runs parts ∧ parts.flatMap TemplatePart.chars = l := by
  induction hn : l.length using Nat.strongRecOn generalizing l parts with
  | ind n ih =>
    cases l with
    | nil =>
      cases h
      exact ⟨.nil, rfl⟩
    | cons c l =>
      by_cases hc : c = '%'
      · subst hc
        by_cases hhead : l.head? = some '%'
        · -- a doubled percent sign is text
          cases l with
          | nil => cases hhead
          | cons d l =>
            have hd : d = '%' := Option.some.inj hhead
            subst hd
            rw [parse_percent] at h
            rcases Option.map_eq_some_iff.mp h with ⟨rest, hrest, rfl⟩
            have hlt : l.length < n := by
              rw [← hn, List.length_cons, List.length_cons]
              omega
            rcases ih l.length hlt hrest rfl with ⟨hruns, htext⟩
            rcases hruns.addChar '%' with ⟨hruns', htext'⟩
            exact ⟨hruns', htext'.trans (congrArg (['%', '%'] ++ ·) htext)⟩
        · -- a conversion, and the parts of what follows it
          rw [parseTemplate, parseFrom, if_pos rfl, if_neg hhead] at h
          cases hread : readConversion .start {} l with
          | none =>
            rw [hread] at h
            cases h
          | some read =>
            rcases read with ⟨raw, conv⟩
            rcases readConversion_append hread with ⟨hne, ⟨t, rfl⟩, happend⟩
            have hself : readConversion .start {} raw = some (raw, conv) := by
              have hnil := happend []
              rw [List.append_nil] at hnil
              exact hnil
            have hraw : raw.head? ≠ some '%' := by
              cases raw with
              | nil => exact absurd rfl hne
              | cons d raw => exact hhead
            rw [hread] at h
            have hskip : (parseFrom raw.length (raw ++ t)).map (.conversion raw conv :: ·) =
                some parts := h
            rw [parseFrom_skip] at hskip
            rcases Option.map_eq_some_iff.mp hskip with ⟨rest, hrest, rfl⟩
            have hlt : t.length < n := by
              rw [← hn, List.length_cons, List.length_append]
              omega
            rcases ih t.length hlt hrest rfl with ⟨hruns, htext⟩
            exact ⟨.conversion hraw hself hruns, congrArg ('%' :: raw ++ ·) htext⟩
      · -- any other character is text
        rw [parse_char hc] at h
        rcases Option.map_eq_some_iff.mp h with ⟨rest, hrest, rfl⟩
        rcases ih l.length (by rw [← hn, List.length_cons]; omega) hrest rfl with ⟨hruns, rfl⟩
        rcases hruns.addChar c with ⟨hruns', htext⟩
        refine ⟨hruns', htext.trans ?_⟩
        simp [doublePercent, hc]

/-! ## Arguments -/

/-- An object: a string, or an object of another type. -/
inductive PyObject (ω : Type) where
  | str (s : String)
  | other (o : ω)

/-- How objects show themselves. -/
structure Shows (ω : Type) where
  str : ω → String
  repr : ω → String
  ascii : ω → String
  /-- `str.isprintable` of a character outside of ASCII. -/
  printable : Char → Bool
  /-- The value of an `int`, for a `*`. -/
  int : ω → Option Int
  /-- The conversions of numbers, with flags, width and precision. -/
  number : Char → List Char → Option Int → Option Int → ω → Option String

/-- `str(o)` -/
def PyObject.text {ω : Type} (str : ω → String) : PyObject ω → String
  | .str s => s
  | .other o => str o

/-! ### Strings in quotes -/

/-- Single quotes, unless the string contains some and no double quotes. -/
def quoteOf (s : List Char) : Char := if '\'' ∈ s ∧ '"' ∉ s then '"' else '\''

def hexEscape (letter : Char) (width n : Nat) : List Char :=
  '\\' :: letter :: (Nat.toDigits 16 n).leftpad width '0'

/-- A character between quotes. -/
def escapeChar (printable : Char → Bool) (quote c : Char) : List Char :=
  if c = quote ∨ c = '\\' then ['\\', c]
  else if c = '\t' then ['\\', 't']
  else if c = '\n' then ['\\', 'n']
  else if c = '\r' then ['\\', 'r']
  else if 32 ≤ c.toNat ∧ c.toNat < 127 ∨ 127 < c.toNat ∧ printable c then [c]
  else if c.toNat < 256 then hexEscape 'x' 2 c.toNat
  else if c.toNat < 65536 then hexEscape 'u' 4 c.toNat
  else hexEscape 'U' 8 c.toNat

/-- `repr` of a string, or `ascii` where nothing outside of ASCII is printable. -/
def reprString (printable : Char → Bool) (s : List Char) : List Char :=
  quoteOf s :: s.flatMap (escapeChar printable (quoteOf s)) ++ [quoteOf s]

/-- The spaces that are missing to the width. -/
def padding (width : Option Int) (n : Nat) : List Char :=
  List.replicate (width.elim 0 Int.natAbs - n) ' '

/-- The flag `-` or a negative width. -/
def leftJustified (flags : List Char) (width : Option Int) : Bool :=
  flags.contains '-' || width.any (· < 0)

/-- The text in a field, padded with spaces on the left or on the right. -/
def padField (flags : List Char) (width : Option Int) (t : List Char) : List Char :=
  if leftJustified flags width then t ++ padding width t.length else padding width t.length ++ t

/-- A precision cuts the text; a negative one counts as zero. -/
def cutField (precision : Option Int) (t : List Char) : List Char :=
  match precision with
  | none => t
  | some p => t.take p.toNat

section render

variable {ω : Type} (shows : Shows ω)

/-- The size and the arguments after it. -/
def FieldSize.resolve (size : FieldSize) (args : List (PyObject ω)) :
    Option (Option Int × List (PyObject ω)) :=
  match size with
  | .absent => some (none, args)
  | .digits ds => some (some (ds.foldl (fun n d => 10 * n + (d.toNat - 48 : Nat)) 0), args)
  | .star =>
      match args with
      | .other o :: args => (shows.int o).map fun n => (some n, args)
      | _ => none

/-- What is not escaped outside of ASCII: `ascii` escapes everything there. -/
def Conversion.printable (conv : Conversion) (c : Char) : Bool :=
  conv.type == 'r' && shows.printable c

/-- What `%s`, `%r` and `%a` make of an object, before it is cut and padded. -/
def Conversion.body (conv : Conversion) (arg : PyObject ω) : List Char :=
  if conv.type = 's' then (arg.text shows.str).toList
  else
    match arg with
    | .str s => reprString (conv.printable shows) s.toList
    | .other o => (if conv.type = 'r' then shows.repr o else shows.ascii o).toList

/-- What a conversion shows of an object, `none` where it raises. -/
def Conversion.convert (conv : Conversion) (width precision : Option Int) (arg : PyObject ω) :
    Option (List Char) :=
  if conv.type = 's' ∨ conv.type = 'r' ∨ conv.type = 'a' then
    some (padField conv.flags width (cutField precision (conv.body shows arg)))
  else if conv.type ∈ ['d', 'i', 'u', 'o', 'x', 'X', 'e', 'E', 'f', 'F', 'g', 'G', 'c'] then
    match arg with
    | .other o => (shows.number conv.type conv.flags width precision o).map String.toList
    | .str s =>
        if conv.type = 'c' ∧ s.toList.length = 1 then some (padField conv.flags width s.toList)
        else none
  else none

/-- A part of a message: text, or the object that a conversion has taken. -/
inductive Cell (ω : Type) where
  | text (t : List Char)
  | field (conv : Conversion) (width precision : Option Int) (arg : PyObject ω)

def Cell.shown : Cell ω → Option (List Char)
  | .text t => some t
  | .field conv width precision arg => conv.convert shows width precision arg

/-- The object after the sizes. -/
def Conversion.take (conv : Conversion) (width precision : Option Int)
    (args : List (PyObject ω)) : Option (Cell ω × List (PyObject ω)) :=
  if conv.type = '%' then some (.text ['%'], args)
  else
    match args with
    | [] => none
    | arg :: args => some (.field conv width precision arg, args)

/-- What a conversion takes, and the arguments it leaves. -/
def Conversion.fill (conv : Conversion) (args : List (PyObject ω)) :
    Option (Cell ω × List (PyObject ω)) := do
  let (width, args) ← conv.width.resolve shows args
  let (precision, args) ← conv.precision.resolve shows args
  conv.take width precision args

/-- The arguments a conversion takes from: with a key, the value that the
dictionary has for it. -/
def Conversion.source (dict : Option (List (PyObject ω × PyObject ω))) (conv : Conversion)
    (args : List (PyObject ω)) : Option (List (PyObject ω)) :=
  match conv.key with
  | none => some args
  | some key =>
      match dict with
      | none => none
      | some items =>
          (items.find? fun item =>
            match item.1 with
            | .str s => s.toList == key
            | .other _ => false).map fun item => [item.2]

/-- The parts of a template with their arguments. Only with a dictionary may an
argument be left over. -/
def fillParts (dict : Option (List (PyObject ω × PyObject ω))) :
    List TemplatePart → List (PyObject ω) → Option (List (Cell ω))
  | [], args => if dict.isSome ∨ args = [] then some [] else none
  | .text t :: parts, args => (fillParts dict parts args).map (.text t :: ·)
  | .conversion _ conv :: parts, args =>
      ((conv.source dict args).bind (conv.fill shows)).bind fun filled =>
        (fillParts dict parts filled.2).map (filled.1 :: ·)

def showCells : List (Cell ω) → Option (List (List Char))
  | [] => some []
  | cell :: cells => (cell.shown shows).bind fun t => (showCells cells).map (t :: ·)

def renderParts (dict : Option (List (PyObject ω × PyObject ω))) (parts : List TemplatePart)
    (args : List (PyObject ω)) : Option (List (List Char)) :=
  (fillParts shows dict parts args).bind (showCells shows)

/-! ### How many arguments are taken -/

/-- The number of arguments a size takes. -/
def FieldSize.arity : FieldSize → Nat
  | .star => 1
  | _ => 0

def Conversion.arity (conv : Conversion) : Nat :=
  conv.width.arity + conv.precision.arity + if conv.type = '%' then 0 else 1

def TemplatePart.arity : TemplatePart → Nat
  | .conversion _ conv => conv.arity
  | _ => 0

/-- The number of arguments the parts take. -/
def arity (parts : List TemplatePart) : Nat := (parts.map TemplatePart.arity).sum

variable {shows}

theorem FieldSize.resolve_some {size : FieldSize} {args rest : List (PyObject ω)} {n : Option Int}
    (h : size.resolve shows args = some (n, rest)) :
    ∃ taken, args = taken ++ rest ∧ taken.length = size.arity ∧
      ∀ rest', size.resolve shows (taken ++ rest') = some (n, rest') := by
  cases size with
  | absent =>
    cases h
    exact ⟨[], rfl, rfl, fun _ => rfl⟩
  | digits ds =>
    cases h
    exact ⟨[], rfl, rfl, fun _ => rfl⟩
  | star =>
    cases args with
    | nil => cases h
    | cons arg args =>
      cases arg with
      | str s => cases h
      | other o =>
        rcases Option.map_eq_some_iff.mp h with ⟨n, hn, heq⟩
        rcases Prod.mk.inj heq with ⟨rfl, rfl⟩
        exact ⟨[.other o], rfl, rfl, fun rest' => congrArg (Option.map _) hn⟩

theorem Conversion.fill_eq_some {conv : Conversion} {args : List (PyObject ω)}
    {filled : Cell ω × List (PyObject ω)} : conv.fill shows args = some filled ↔
      ∃ width args₁ precision args₂, conv.width.resolve shows args = some (width, args₁) ∧
        conv.precision.resolve shows args₁ = some (precision, args₂) ∧
        conv.take width precision args₂ = some filled := by
  constructor
  · intro h
    rcases Option.bind_eq_some_iff.mp h with ⟨⟨width, args₁⟩, hwidth, h₁⟩
    rcases Option.bind_eq_some_iff.mp h₁ with ⟨⟨precision, args₂⟩, hprecision, h₂⟩
    exact ⟨width, args₁, precision, args₂, hwidth, hprecision, h₂⟩
  · rintro ⟨width, args₁, precision, args₂, hwidth, hprecision, h⟩
    exact Option.bind_eq_some_iff.mpr ⟨(width, args₁), hwidth,
      Option.bind_eq_some_iff.mpr ⟨(precision, args₂), hprecision, h⟩⟩

/-- A conversion looks at the arguments it takes only. -/
theorem Conversion.fill_some {conv : Conversion} {args rest : List (PyObject ω)} {cell : Cell ω}
    (h : conv.fill shows args = some (cell, rest)) :
    ∃ taken, args = taken ++ rest ∧ taken.length = conv.arity ∧
      ∀ rest', conv.fill shows (taken ++ rest') = some (cell, rest') := by
  rcases fill_eq_some.mp h with ⟨width, args₁, precision, args₂, hwidth, hprecision, htake⟩
  rcases FieldSize.resolve_some hwidth with ⟨taken₁, rfl, hlength₁, hresolve₁⟩
  rcases FieldSize.resolve_some hprecision with ⟨taken₂, rfl, hlength₂, hresolve₂⟩
  -- a percent sign takes no argument of its own
  have hlast : ∃ taken₃, args₂ = taken₃ ++ rest ∧
      taken₃.length = (if conv.type = '%' then 0 else 1) ∧
      ∀ rest', conv.take width precision (taken₃ ++ rest') = some (cell, rest') := by
    unfold take at htake ⊢
    split at htake
    · next htype =>
      cases htake
      exact ⟨[], rfl, (if_pos htype).symm, fun _ => if_pos htype⟩
    · next htype =>
      cases args₂ with
      | nil => cases htake
      | cons arg args₂ =>
        cases htake
        exact ⟨[arg], rfl, (if_neg htype).symm, fun _ => if_neg htype⟩
  rcases hlast with ⟨taken₃, rfl, hlength₃, hlast⟩
  refine ⟨taken₁ ++ (taken₂ ++ taken₃), by simp, ?_, fun rest' => ?_⟩
  · rw [List.length_append, List.length_append, hlength₁, hlength₂, hlength₃, arity]
    omega
  · rw [List.append_assoc, List.append_assoc]
    exact fill_eq_some.mpr
      ⟨_, _, _, _, hresolve₁ _, hresolve₂ _, hlast rest'⟩

/-- With a tuple, a conversion with a key raises. -/
theorem fillParts_conversion {raw : List Char} {conv : Conversion}
    {parts : List TemplatePart} {args : List (PyObject ω)} {cells : List (Cell ω)} :
    fillParts shows none (.conversion raw conv :: parts) args = some cells ↔
      conv.key = none ∧ ∃ cell rest cells', conv.fill shows args = some (cell, rest) ∧
        fillParts shows none parts rest = some cells' ∧ cells = cell :: cells' := by
  cases hkey : conv.key with
  | some key =>
    have hsource : conv.source (none : Option (List (PyObject ω × PyObject ω))) args = none := by
      rw [Conversion.source, hkey]
    rw [fillParts, hsource]
    constructor
    · intro h
      cases h
    · rintro ⟨h, -⟩
      cases h
  | none =>
    have hsource : conv.source (none : Option (List (PyObject ω × PyObject ω))) args =
        some args := by
      rw [Conversion.source, hkey]
    rw [fillParts, hsource, Option.bind_some, Option.bind_eq_some_iff]
    constructor
    · rintro ⟨⟨cell, rest⟩, hcell, h⟩
      rcases Option.map_eq_some_iff.mp h with ⟨cells', hcells, rfl⟩
      exact ⟨rfl, cell, rest, cells', hcell, hcells, rfl⟩
    · rintro ⟨-, cell, rest, cells', hcell, hcells, rfl⟩
      exact ⟨(cell, rest), hcell, congrArg (Option.map _) hcells⟩

/-- With a tuple, all arguments are taken. -/
theorem length_of_fillParts {parts : List TemplatePart} {args : List (PyObject ω)}
    {cells : List (Cell ω)} (h : fillParts shows none parts args = some cells) :
    args.length = arity parts := by
  induction parts generalizing args cells with
  | nil =>
    unfold fillParts at h
    split at h
    · next hargs =>
      have hnil : args = [] := by simpa using hargs
      rw [hnil]
      rfl
    · cases h
  | cons part parts ih =>
    cases part with
    | text t =>
      rcases Option.map_eq_some_iff.mp h with ⟨cells', hcells, -⟩
      simpa [arity, TemplatePart.arity] using ih hcells
    | conversion raw conv =>
      rcases fillParts_conversion.mp h with ⟨-, cell, rest, cells', hcell, hcells, -⟩
      rcases Conversion.fill_some hcell with ⟨taken, rfl, hlength, -⟩
      show (taken ++ rest).length = conv.arity + arity parts
      rw [List.length_append, hlength, ih hcells]

end render

end TallyConnector
