import Mathlib.Data.List.TakeWhile
import TallyConnector.Python.Json

/-! # JSON text

`json.dumps` with its default separators and `ensure_ascii`, and `json.loads`.
What `dumps` writes, `loads` reads back (`Json.loads_dumps`).

A reader returns what it read and the rest of the text, or `none` for a
`JSONDecodeError`. An escaped surrogate without its other half is such an error
here, since a Lean string cannot hold it.
-/

namespace TallyConnector

namespace Json

/-! ## Writing -/

/-- `"{:04x}".format(n)` -/
def hex4 (n : Nat) : List Char :=
  [n / 4096 % 16, n / 256 % 16, n / 16 % 16, n % 16].map Nat.digitChar

def escapeUnicode (n : Nat) : List Char := '\\' :: 'u' :: hex4 n

/-- What `py_encode_basestring_ascii` writes for a character. -/
def escapeChar (c : Char) : List Char :=
  if c = '"' then ['\\', '"']
  else if c = '\\' then ['\\', '\\']
  else if c = '\n' then ['\\', 'n']
  else if c = '\r' then ['\\', 'r']
  else if c = '\t' then ['\\', 't']
  else if c = '\x0c' then ['\\', 'f']
  else if c = '\x08' then ['\\', 'b']
  else if 0x20 ≤ c.toNat ∧ c.toNat < 0x7F then [c]
  else if c.toNat < 0x10000 then escapeUnicode c.toNat
  else
    -- a surrogate pair
    escapeUnicode (0xD800 + (c.toNat - 0x10000) / 1024) ++
      escapeUnicode (0xDC00 + (c.toNat - 0x10000) % 1024)

def writeString (s : String) : List Char := '"' :: s.toList.flatMap escapeChar ++ ['"']

/-- `int.__repr__` -/
def writeInt : Int → List Char
  | .ofNat n => Nat.toDigits 10 n
  | .negSucc n => '-' :: Nat.toDigits 10 (n + 1)

/-- `floatstr(o)` -/
def writeFloat (text : String) : List Char :=
  if text = "nan" then "NaN".toList
  else if text = "inf" then "Infinity".toList
  else if text = "-inf" then "-Infinity".toList
  else text.toList

mutual

def write : Json → List Char
  | .null => "null".toList
  | .bool true => "true".toList
  | .bool false => "false".toList
  | .int n => writeInt n
  | .float text => writeFloat text
  | .str s => writeString s
  | .list [] => "[]".toList
  | .list (x :: xs) => '[' :: write x ++ writeItems xs
  | .obj [] => "\x7b\x7d".toList
  | .obj ((key, x) :: kvs) => '\x7b' :: writeString key ++ ':' :: ' ' :: write x ++ writeMembers kvs

/-- The items after the first. -/
def writeItems : List Json → List Char
  | [] => [']']
  | x :: xs => ',' :: ' ' :: write x ++ writeItems xs

def writeMembers : List (String × Json) → List Char
  | [] => ['\x7d']
  | (key, x) :: kvs => ',' :: ' ' :: writeString key ++ ':' :: ' ' :: write x ++ writeMembers kvs

end

/-- `json.dumps(value)` -/
def dumps (value : Json) : String := String.ofList (write value)

/-! ## Reading -/

def hexValue (c : Char) : Option Nat :=
  if '0' ≤ c ∧ c ≤ '9' then some (c.toNat - '0'.toNat)
  else if 'a' ≤ c ∧ c ≤ 'f' then some (c.toNat - 'a'.toNat + 10)
  else if 'A' ≤ c ∧ c ≤ 'F' then some (c.toNat - 'A'.toNat + 10)
  else none

/-- The four digits after `\u`. -/
def readHex4 : List Char → Option (Nat × List Char)
  | a :: b :: c :: d :: rest =>
      match hexValue a, hexValue b, hexValue c, hexValue d with
      | some a, some b, some c, some d => some (a * 4096 + b * 256 + c * 16 + d, rest)
      | _, _, _, _ => none
  | _ => none

/-- The low half after a high surrogate. -/
def readLow (high : Nat) : List Char → Option (Char × List Char)
  | '\\' :: 'u' :: rest =>
      match readHex4 rest with
      | some (low, rest) =>
          if 0xDC00 ≤ low ∧ low < 0xE000 then
            some (Char.ofNat (0x10000 + (high - 0xD800) * 1024 + (low - 0xDC00)), rest)
          else none
      | none => none
  | _ => none

/-- A character after `\u`. -/
def readUnicode (cs : List Char) : Option (Char × List Char) :=
  match readHex4 cs with
  | some (n, rest) =>
      if 0xD800 ≤ n ∧ n < 0xDC00 then readLow n rest
      else if 0xDC00 ≤ n ∧ n < 0xE000 then none
      else some (Char.ofNat n, rest)
  | none => none

/-- The character an escape stands for, after the backslash. -/
def readEscape : List Char → Option (Char × List Char)
  | [] => none
  | c :: rest =>
      if c = '"' ∨ c = '\\' ∨ c = '/' then some (c, rest)
      else if c = 'b' then some ('\x08', rest)
      else if c = 'f' then some ('\x0c', rest)
      else if c = 'n' then some ('\n', rest)
      else if c = 'r' then some ('\r', rest)
      else if c = 't' then some ('\t', rest)
      else if c = 'u' then readUnicode rest
      else none

/-- `scanstring` with `strict=True`, after the opening quote; every round takes
a character at least. -/
def readString : (rounds : Nat) → List Char → Option (List Char × List Char)
  | 0, _ => none
  | _, [] => none
  | rounds + 1, c :: rest =>
      if c = '"' then some ([], rest)
      else if c = '\\' then
        match readEscape rest with
        | some (c', rest) => (readString rounds rest).map fun r => (c' :: r.1, r.2)
        | none => none
      else if c.toNat < 0x20 then none
      else (readString rounds rest).map fun r => (c :: r.1, r.2)

def isJsonSpace (c : Char) : Bool := c == ' ' || c == '\t' || c == '\n' || c == '\r'

def skipSpace (cs : List Char) : List Char := cs.dropWhile isJsonSpace

/-- A sequence of digits that may be empty. -/
def readDigits (cs : List Char) : List Char × List Char :=
  (cs.takeWhile Char.isDigit, cs.dropWhile Char.isDigit)

/-- `-?` -/
def readSign : List Char → List Char × List Char
  | '-' :: rest => (['-'], rest)
  | cs => ([], cs)

/-- `0|[1-9]\d*` -/
def readWhole : List Char → List Char × List Char
  | '0' :: rest => (['0'], rest)
  | cs => readDigits cs

/-- `(\.\d+)?` -/
def readFraction : List Char → List Char × List Char
  | '.' :: cs =>
      let (digits, rest) := readDigits cs
      if digits = [] then ([], '.' :: cs) else ('.' :: digits, rest)
  | cs => ([], cs)

/-- `[-+]?` -/
def readExponentSign : List Char → List Char × List Char
  | [] => ([], [])
  | c :: cs => if c = '-' ∨ c = '+' then ([c], cs) else ([], c :: cs)

/-- `([eE][-+]?\d+)?` -/
def readExponent : List Char → List Char × List Char
  | [] => ([], [])
  | c :: cs =>
      if c = 'e' ∨ c = 'E' then
        let (sign, rest) := readExponentSign cs
        let (digits, rest) := readDigits rest
        if digits = [] then ([], c :: cs) else (c :: sign ++ digits, rest)
      else ([], c :: cs)

/-- The value of a run of digits with its sign. -/
def intOf (sign digits : List Char) : Int :=
  if sign = [] then Nat.ofDigitChars 10 digits 0 else -(Nat.ofDigitChars 10 digits 0 : Int)

/-- `_match_number_unicode`; `floatRepr` is `repr(float(text))`. -/
def readNumber (floatRepr : String → String) (cs : List Char) : Option (Json × List Char) :=
  let (sign, cs) := readSign cs
  let (whole, cs) := readWhole cs
  let (fraction, cs) := readFraction cs
  let (exponent, cs) := readExponent cs
  if whole = [] then none
  else if fraction = [] ∧ exponent = [] then some (.int (intOf sign whole), cs)
  else some (.float (floatRepr (String.ofList (sign ++ whole ++ fraction ++ exponent))), cs)

/-- The names of the constants. -/
def constants : List (String × Json) :=
  [("null", .null), ("true", .bool true), ("false", .bool false), ("NaN", .float "nan"),
    ("Infinity", .float "inf"), ("-Infinity", .float "-inf")]

def readConstant (cs : List Char) : Option (Json × List Char) :=
  match constants.find? fun constant => constant.1.toList.isPrefixOf cs with
  | some (name, value) => some (value, cs.drop name.length)
  | none => none

/-- `d[key] = value` -/
def setMember (kvs : List (String × Json)) (key : String) (value : Json) :
    List (String × Json) :=
  if kvs.any (·.1 == key) then kvs.map fun kv => if kv.1 == key then (key, value) else kv
  else kvs ++ [(key, value)]

/-- `dict(pairs)` -/
def dictOf (pairs : List (String × Json)) : List (String × Json) :=
  pairs.foldl (fun kvs pair => setMember kvs pair.1 pair.2) []

section reading

variable (floatRepr : String → String)

mutual

/-- `scan_once`; every round takes a character at least. -/
def readValue : (rounds : Nat) → List Char → Option (Json × List Char)
  | 0, _ => none
  | _, [] => none
  | rounds + 1, c :: rest =>
      if c = '"' then
        (readString rest.length rest).map fun r => (.str (String.ofList r.1), r.2)
      else if c = '\x7b' then
        if (skipSpace rest).head? = some '\x7d' then some (.obj [], (skipSpace rest).tail)
        else (readMembers rounds (skipSpace rest)).map fun r => (.obj (dictOf r.1), r.2)
      else if c = '[' then
        if (skipSpace rest).head? = some ']' then some (.list [], (skipSpace rest).tail)
        else (readItems rounds (skipSpace rest)).map fun r => (.list r.1, r.2)
      else
        match readConstant (c :: rest) with
        | some r => some r
        | none => readNumber floatRepr (c :: rest)

/-- The items of a list, up to the closing bracket. -/
def readItems : (rounds : Nat) → List Char → Option (List Json × List Char)
  | 0, _ => none
  | rounds + 1, cs =>
      match readValue rounds cs with
      | none => none
      | some (x, rest) =>
          match skipSpace rest with
          | ']' :: rest => some ([x], rest)
          | ',' :: rest => (readItems rounds (skipSpace rest)).map fun r => (x :: r.1, r.2)
          | _ => none

/-- The members of an object, up to the closing brace. -/
def readMembers : (rounds : Nat) → List Char → Option (List (String × Json) × List Char)
  | 0, _ => none
  | _, [] => none
  | rounds + 1, c :: cs =>
      if c = '"' then
        match readString cs.length cs with
        | none => none
        | some (key, rest) =>
            match skipSpace rest with
            | ':' :: rest =>
                match readValue rounds (skipSpace rest) with
                | none => none
                | some (x, rest) =>
                    match skipSpace rest with
                    | '\x7d' :: rest => some ([(String.ofList key, x)], rest)
                    | ',' :: rest => (readMembers rounds (skipSpace rest)).map fun r =>
                        ((String.ofList key, x) :: r.1, r.2)
                    | _ => none
            | _ => none
      else none

end

/-- `json.loads(text)` -/
def loads (text : String) : Option Json :=
  if text.toList.head? = some '\uFEFF' then none
  else
    match readValue floatRepr text.toList.length (skipSpace text.toList) with
    | some (value, rest) => if skipSpace rest = [] then some value else none
    | none => none

end reading

/-! ## Strings are read back -/

theorem hexValue_digitChar : ∀ d < 16, hexValue (Nat.digitChar d) = some d := by decide

theorem readHex4_hex4 {n : Nat} (hn : n < 0x10000) (rest : List Char) :
    readHex4 (hex4 n ++ rest) = some (n, rest) := by
  have h₃ := hexValue_digitChar (n / 4096 % 16) (by omega)
  have h₂ := hexValue_digitChar (n / 256 % 16) (by omega)
  have h₁ := hexValue_digitChar (n / 16 % 16) (by omega)
  have h₀ := hexValue_digitChar (n % 16) (by omega)
  have hsum : n / 4096 % 16 * 4096 + n / 256 % 16 * 256 + n / 16 % 16 * 16 + n % 16 = n := by omega
  simp only [hex4, List.map_cons, List.map_nil, List.cons_append, List.nil_append, readHex4, h₃,
    h₂, h₁, h₀, hsum]

/-- A character outside the surrogates and below the supplementary planes. -/
theorem readUnicode_hex4 {c : Char} (hc : c.toNat < 0x10000) (rest : List Char) :
    readUnicode (hex4 c.toNat ++ rest) = some (c, rest) := by
  have hvalid : c.toNat < 0xD800 ∨ 0xDFFF < c.toNat ∧ c.toNat < 0x110000 := c.valid
  unfold readUnicode
  rw [readHex4_hex4 hc]
  dsimp only
  rw [if_neg (by omega), if_neg (by omega), Char.ofNat_toNat]

theorem readLow_escapeUnicode {high low : Nat} (hlow : 0xDC00 ≤ low) (hlt : low < 0xE000)
    (rest : List Char) :
    readLow high (escapeUnicode low ++ rest) =
      some (Char.ofNat (0x10000 + (high - 0xD800) * 1024 + (low - 0xDC00)), rest) := by
  simp only [escapeUnicode, List.cons_append, readLow, readHex4_hex4 (Nat.lt_trans hlt (by decide)),
    if_pos (And.intro hlow hlt)]

/-- A character that is written as a surrogate pair. -/
theorem readUnicode_pair {c : Char} (hc : 0x10000 ≤ c.toNat) (rest : List Char) :
    readUnicode (hex4 (0xD800 + (c.toNat - 0x10000) / 1024) ++
      (escapeUnicode (0xDC00 + (c.toNat - 0x10000) % 1024) ++ rest)) = some (c, rest) := by
  have hvalid : c.toNat < 0xD800 ∨ 0xDFFF < c.toNat ∧ c.toNat < 0x110000 := c.valid
  obtain ⟨n, hn⟩ : ∃ n, c.toNat = 0x10000 + n := ⟨_, (Nat.add_sub_cancel' hc).symm⟩
  have hhigh : 0xD800 + n / 1024 < 0xDC00 := by omega
  have hlow : 0xDC00 + n % 1024 < 0xE000 := by omega
  have hsum : 0x10000 + n / 1024 * 1024 + n % 1024 = c.toNat := by omega
  rw [hn, Nat.add_sub_cancel_left]
  unfold readUnicode
  rw [readHex4_hex4 (Nat.lt_trans hhigh (by decide))]
  dsimp only
  rw [if_pos ⟨Nat.le_add_right _ _, hhigh⟩, readLow_escapeUnicode (Nat.le_add_right _ _) hlow,
    Nat.add_sub_cancel_left, Nat.add_sub_cancel_left, hsum, Char.ofNat_toNat]

/-- An escape is read as the character it was written for. -/
theorem readString_escape {rounds : Nat} {c : Char} {cs rest : List Char}
    (h : readEscape (cs ++ rest) = some (c, rest)) :
    readString (rounds + 1) ('\\' :: cs ++ rest) =
      (readString rounds rest).map fun r => (c :: r.1, r.2) := by
  rw [List.cons_append, readString, if_neg (by decide), if_pos rfl, h]

theorem readString_escapeUnicode {rounds n : Nat} {c : Char} {cs rest : List Char}
    (h : readUnicode (hex4 n ++ (cs ++ rest)) = some (c, rest)) :
    readString (rounds + 1) (escapeUnicode n ++ cs ++ rest) =
      (readString rounds rest).map fun r => (c :: r.1, r.2) := by
  have hescape : readEscape (('u' :: hex4 n ++ cs) ++ rest) = some (c, rest) := by
    rw [List.append_assoc]
    exact h
  exact readString_escape hescape

theorem readString_escapeChar {rounds : Nat} {c : Char} {rest : List Char} :
    readString (rounds + 1) (escapeChar c ++ rest) =
      (readString rounds rest).map fun r => (c :: r.1, r.2) := by
  unfold escapeChar
  split_ifs with hquote hbackslash hn hr ht hf hb hascii hbmp
  -- the escapes of one letter
  · exact readString_escape (by rw [hquote]; rfl)
  · exact readString_escape (by rw [hbackslash]; rfl)
  · exact readString_escape (hn ▸ rfl)
  · exact readString_escape (hr ▸ rfl)
  · exact readString_escape (ht ▸ rfl)
  · exact readString_escape (hf ▸ rfl)
  · exact readString_escape (hb ▸ rfl)
  · -- written as it is
    rw [List.singleton_append, readString, if_neg hquote, if_neg hbackslash, if_neg (by omega)]
  · rw [← List.append_nil (escapeUnicode _)]
    exact readString_escapeUnicode (readUnicode_hex4 hbmp rest)
  · exact readString_escapeUnicode (readUnicode_pair (Nat.le_of_not_lt hbmp) rest)

theorem readString_flatMap {rounds : Nat} {cs rest : List Char} (h : cs.length < rounds) :
    readString rounds (cs.flatMap escapeChar ++ '"' :: rest) = some (cs, rest) := by
  induction cs generalizing rounds with
  | nil =>
    rcases Nat.exists_eq_succ_of_ne_zero (Nat.ne_of_gt h) with ⟨k, rfl⟩
    rw [List.flatMap_nil, List.nil_append, readString, if_pos rfl]
  | cons c cs ih =>
    rw [List.length_cons] at h
    rcases Nat.exists_eq_succ_of_ne_zero (Nat.ne_of_gt (Nat.zero_lt_of_lt h)) with ⟨k, rfl⟩
    rw [List.flatMap_cons, List.append_assoc, readString_escapeChar, ih (by omega)]
    rfl

theorem length_le_length_flatMap_escapeChar (cs : List Char) :
    cs.length ≤ (cs.flatMap escapeChar).length := by
  have hone : ∀ c, 1 ≤ (escapeChar c).length := by
    intro c
    unfold escapeChar escapeUnicode
    split_ifs <;> simp
  induction cs with
  | nil => exact Nat.le_refl _
  | cons c cs ih =>
    have hc := hone c
    simp only [List.flatMap_cons, List.length_append, List.length_cons]
    omega

/-- The rounds of `readValue` for a string suffice. -/
theorem readString_writeString (s : String) (rest : List Char) :
    readString (s.toList.flatMap escapeChar ++ '"' :: rest).length
      (s.toList.flatMap escapeChar ++ '"' :: rest) = some (s.toList, rest) := by
  refine readString_flatMap ?_
  have hle := length_le_length_flatMap_escapeChar s.toList
  simp only [List.length_append, List.length_cons]
  omega

/-! ## Numbers are read back -/

/-- What may come after a value: the end, or a character of the text around it. -/
def Follows (rest : List Char) : Prop := ∀ c ∈ rest.head?, c = ',' ∨ c = ']' ∨ c = '\x7d'

theorem follows_nil : Follows [] := fun _ h => by cases h

/-- Text that follows a value does not change what is read before it. -/
def Stops (read : List Char → List Char × List Char) : Prop :=
  ∀ cs rest, Follows rest → read (cs ++ rest) = ((read cs).1, (read cs).2 ++ rest)

/-- A reader that takes nothing of the text around a value. -/
theorem stops_of_cons {read : List Char → List Char × List Char} (hnil : read [] = ([], []))
    (haround : ∀ c rest, c = ',' ∨ c = ']' ∨ c = '\x7d' → read (c :: rest) = ([], c :: rest))
    (hcons : ∀ c cs rest, Follows rest →
      read (c :: (cs ++ rest)) = ((read (c :: cs)).1, (read (c :: cs)).2 ++ rest)) :
    Stops read := by
  intro cs rest hrest
  cases cs with
  | cons c cs => exact hcons c cs rest hrest
  | nil =>
    rw [hnil]
    cases rest with
    | nil => exact hnil
    | cons c rest => exact haround c rest (hrest c rfl)

theorem stops_readDigits : Stops readDigits := by
  intro cs rest hrest
  unfold readDigits
  induction cs with
  | nil =>
    cases rest with
    | nil => rfl
    | cons c rest => rcases hrest c rfl with rfl | rfl | rfl <;> rfl
  | cons c cs ih =>
    rw [Prod.mk.injEq] at ih
    cases hc : c.isDigit <;> simp [hc, ih]

theorem stops_readSign : Stops readSign := by
  refine stops_of_cons rfl (fun c rest hc => ?_) fun c cs rest _ => ?_
  · rcases hc with rfl | rfl | rfl <;> rfl
  · by_cases hc : c = '-'
    · rw [hc]
      rfl
    · simp [readSign, hc]

theorem stops_readWhole : Stops readWhole := by
  refine stops_of_cons rfl (fun c rest hc => ?_) fun c cs rest hrest => ?_
  · rcases hc with rfl | rfl | rfl <;> rfl
  · by_cases hc : c = '0'
    · rw [hc]
      rfl
    · have hdigits := stops_readDigits (c :: cs) rest hrest
      simpa [readWhole, hc] using hdigits

theorem stops_readFraction : Stops readFraction := by
  refine stops_of_cons rfl (fun c rest hc => ?_) fun c cs rest hrest => ?_
  · rcases hc with rfl | rfl | rfl <;> rfl
  · by_cases hc : c = '.'
    · rw [hc]
      simp only [readFraction, stops_readDigits cs rest hrest]
      split_ifs <;> rfl
    · simp [readFraction, hc]

theorem stops_readExponentSign : Stops readExponentSign := by
  refine stops_of_cons rfl (fun c rest hc => ?_) fun c cs rest _ => ?_
  · rcases hc with rfl | rfl | rfl <;> rfl
  · simp only [readExponentSign]
    split_ifs <;> rfl

theorem stops_readExponent : Stops readExponent := by
  refine stops_of_cons rfl (fun c rest hc => ?_) fun c cs rest hrest => ?_
  · rcases hc with rfl | rfl | rfl <;> rfl
  · simp only [readExponent, stops_readExponentSign cs rest hrest,
      stops_readDigits _ rest hrest]
    split_ifs <;> rfl

theorem readNumber_append {floatRepr : String → String} {cs rest : List Char}
    (hrest : Follows rest) :
    readNumber floatRepr (cs ++ rest) =
      (readNumber floatRepr cs).map fun r => (r.1, r.2 ++ rest) := by
  simp only [readNumber, stops_readSign cs rest hrest, stops_readWhole _ rest hrest,
    stops_readFraction _ rest hrest, stops_readExponent _ rest hrest]
  split_ifs <;> rfl

/-- No number above zero is written with a zero in front. -/
theorem head_toDigits_ne_zero {n : Nat} (hn : 0 < n) (ds : List Char) :
    Nat.toDigits 10 n ≠ '0' :: ds := by
  induction n using Nat.strong_induction_on generalizing ds with
  | _ n ih =>
    rcases Nat.lt_or_ge n 10 with hlt | hge
    · rw [Nat.toDigits_of_lt_base hlt]
      intro h
      have hchar : ∀ d < 10, 0 < d → Nat.digitChar d ≠ '0' := by decide
      exact hchar n hlt hn (List.cons.inj h).1
    · rw [Nat.toDigits_of_base_le (by decide) hge]
      have hdiv := ih (n / 10) (by omega) (by omega)
      cases hdigits : Nat.toDigits 10 (n / 10) with
      | nil => exact absurd hdigits Nat.toDigits_ne_nil
      | cons d ds' =>
        intro h
        rw [List.cons_append] at h
        rw [(List.cons.inj h).1] at hdigits
        exact hdiv ds' hdigits

theorem readWhole_toDigits (n : Nat) :
    readWhole (Nat.toDigits 10 n) = (Nat.toDigits 10 n, []) := by
  have hall : ∀ c ∈ Nat.toDigits 10 n, c.isDigit = true := fun c hc =>
    Nat.isDigit_of_mem_toDigits (by decide) (by decide) hc
  rcases Nat.eq_zero_or_pos n with rfl | hn
  · rfl
  · unfold readWhole
    split
    · next ds hzero => exact absurd hzero (head_toDigits_ne_zero hn ds)
    · simp [readDigits, List.takeWhile_eq_self_iff.mpr hall, List.dropWhile_eq_nil_iff.mpr hall]

theorem readNumber_writeInt {floatRepr : String → String} (n : Int) :
    readNumber floatRepr (writeInt n) = some (.int n, []) := by
  cases n with
  | ofNat n =>
    have hsign : readSign (Nat.toDigits 10 n) = ([], Nat.toDigits 10 n) := by
      unfold readSign
      split
      · next rest hminus =>
        have hdigit := Nat.isDigit_of_mem_toDigits (b := 10) (n := n) (by decide) (by decide)
          (hminus ▸ List.mem_cons_self)
        exact absurd hdigit (by decide)
      · rfl
    simp [writeInt, readNumber, hsign, readWhole_toDigits, readFraction, readExponent, intOf]
  | negSucc n =>
    simp [writeInt, readNumber, readSign, readWhole_toDigits, readFraction, readExponent, intOf,
      Int.negSucc_eq]

/-- A number starts with a digit, or with a minus and a digit. -/
theorem start_of_readNumber {floatRepr : String → String} {cs : List Char}
    {r : Json × List Char} (h : readNumber floatRepr cs = some r) :
    (∃ c cs', cs = c :: cs' ∧ c.isDigit = true) ∨
      ∃ c cs', cs = '-' :: c :: cs' ∧ c.isDigit = true := by
  have hwhole : ∀ cs, (readWhole cs).1 ≠ [] → ∃ c cs', cs = c :: cs' ∧ c.isDigit = true := by
    intro cs hne
    cases cs with
    | nil => exact absurd rfl hne
    | cons c cs =>
      refine ⟨c, cs, rfl, ?_⟩
      by_contra hc
      have hzero : c ≠ '0' := fun heq => hc (heq ▸ rfl)
      simp [readWhole, readDigits, hzero, hc] at hne
  have hne : (readWhole (readSign cs).2).1 ≠ [] := by
    intro hnil
    simp [readNumber, hnil] at h
  rcases hwhole _ hne with ⟨c, cs', hcs, hdigit⟩
  unfold readSign at hcs
  split at hcs
  · exact .inr ⟨c, cs', congrArg _ hcs, hdigit⟩
  · exact .inl ⟨c, cs', hcs, hdigit⟩

/-! ## Values are read back -/

theorem digit_ne {c d : Char} (hc : c.isDigit = true) (hd : d.isDigit = false) : c ≠ d := by
  rintro rfl
  rw [hc] at hd
  cases hd

theorem readConstant_digit {c : Char} {cs : List Char} (hc : c.isDigit = true) :
    readConstant (c :: cs) = none := by
  have hne : ∀ d : Char, d.isDigit = false → (d == c) = false := by
    intro d hd
    exact beq_false_of_ne (digit_ne hc hd).symm
  simp [readConstant, constants, List.isPrefixOf, hne]

theorem readConstant_minus {c : Char} {cs : List Char} (hc : c.isDigit = true) :
    readConstant ('-' :: c :: cs) = none := by
  have hne : ('I' == c) = false := beq_false_of_ne (digit_ne hc rfl).symm
  simp [readConstant, constants, List.isPrefixOf, hne]

/-- The values Python code can hold: the keys of a dictionary are distinct, and
the text of a finite float is its `repr`. -/
inductive WellFormed (floatRepr : String → String) : Json → Prop
  | null : WellFormed floatRepr .null
  | bool (b : Bool) : WellFormed floatRepr (.bool b)
  | int (n : Int) : WellFormed floatRepr (.int n)
  | constant (text : String) (h : text = "nan" ∨ text = "inf" ∨ text = "-inf") :
      WellFormed floatRepr (.float text)
  | float (text : String) (hne : text ≠ "nan" ∧ text ≠ "inf" ∧ text ≠ "-inf")
      (h : readNumber floatRepr text.toList = some (.float text, [])) :
      WellFormed floatRepr (.float text)
  | str (s : String) : WellFormed floatRepr (.str s)
  | list (xs : List Json) (h : ∀ x ∈ xs, WellFormed floatRepr x) :
      WellFormed floatRepr (.list xs)
  | obj (kvs : List (String × Json)) (hnodup : (kvs.map Prod.fst).Nodup)
      (h : ∀ kv ∈ kvs, WellFormed floatRepr kv.2) : WellFormed floatRepr (.obj kvs)

/-- What a value can start with, as far as the readers around it care. -/
def ValueStart (cs : List Char) : Prop :=
  ∃ c cs', cs = c :: cs' ∧ isJsonSpace c = false ∧ c ≠ ']' ∧ c ≠ '\uFEFF'

theorem ValueStart.append {cs : List Char} (h : ValueStart cs) (rest : List Char) :
    ValueStart (cs ++ rest) := by
  rcases h with ⟨c, cs', rfl, hc⟩
  exact ⟨c, cs' ++ rest, rfl, hc⟩

theorem ValueStart.skipSpace {cs : List Char} (h : ValueStart cs) : skipSpace cs = cs := by
  rcases h with ⟨c, cs', rfl, hc, -⟩
  simp [Json.skipSpace, hc]

/-- What is written for the value is read back, whatever follows. -/
structure ReadsBack (floatRepr : String → String) (value : Json) : Prop where
  start : ValueStart (write value)
  read : ∀ rounds rest, (write value).length ≤ rounds → Follows rest →
    readValue floatRepr rounds (write value ++ rest) = some (value, rest)

variable {floatRepr : String → String}

theorem readsBack_of_number {value : Json}
    (h : readNumber floatRepr (write value) = some (value, [])) : ReadsBack floatRepr value := by
  have hdigit : ∀ c : Char, c.isDigit = true →
      isJsonSpace c = false ∧ c ≠ ']' ∧ c ≠ '\uFEFF' := by
    intro c hc
    refine ⟨?_, digit_ne hc rfl, digit_ne hc rfl⟩
    simp [isJsonSpace, digit_ne hc]
  have hnumber : ∀ rest, Follows rest →
      readNumber floatRepr (write value ++ rest) = some (value, rest) := by
    intro rest hrest
    rw [readNumber_append hrest, h]
    rfl
  -- a number starts with a digit or with a minus sign
  rcases start_of_readNumber h with ⟨c, cs, hcs, hc⟩ | ⟨c, cs, hcs, hc⟩
  · refine ⟨⟨c, cs, hcs, hdigit c hc⟩, fun rounds rest hrounds hrest => ?_⟩
    have hread := hnumber rest hrest
    rw [hcs] at hrounds hread ⊢
    rcases Nat.exists_eq_add_of_lt (Nat.lt_of_lt_of_le (Nat.zero_lt_succ _) hrounds) with
      ⟨n, rfl⟩
    rw [Nat.zero_add, List.cons_append, readValue, if_neg (digit_ne hc rfl),
      if_neg (digit_ne hc rfl), if_neg (digit_ne hc rfl), readConstant_digit hc]
    exact hread
  · refine ⟨⟨'-', c :: cs, hcs, by decide⟩, fun rounds rest hrounds hrest => ?_⟩
    have hread := hnumber rest hrest
    rw [hcs] at hrounds hread ⊢
    rcases Nat.exists_eq_add_of_lt (Nat.lt_of_lt_of_le (Nat.zero_lt_succ _) hrounds) with
      ⟨n, rfl⟩
    rw [Nat.zero_add, List.cons_append, List.cons_append, readValue, if_neg (by decide),
      if_neg (by decide), if_neg (by decide), readConstant_minus hc]
    exact hread

theorem readsBack_of_constant {value : Json} {c : Char} {cs : List Char}
    (hcs : write value = c :: cs) (hstart : isJsonSpace c = false ∧ c ≠ ']' ∧ c ≠ '\uFEFF')
    (hhead : c ≠ '"' ∧ c ≠ '\x7b' ∧ c ≠ '[')
    (h : ∀ rest, readConstant (write value ++ rest) = some (value, rest)) :
    ReadsBack floatRepr value := by
  refine ⟨⟨c, cs, hcs, hstart⟩, fun rounds rest hrounds _ => ?_⟩
  have hread := h rest
  rw [hcs] at hrounds hread ⊢
  rcases hhead with ⟨hquote, hbrace, hbracket⟩
  rcases Nat.exists_eq_add_of_lt (Nat.lt_of_lt_of_le (Nat.zero_lt_succ _) hrounds) with ⟨n, rfl⟩
  rw [List.cons_append] at hread
  rw [Nat.zero_add, List.cons_append, readValue, if_neg hquote, if_neg hbrace, if_neg hbracket,
    hread]

theorem readsBack_str (s : String) : ReadsBack floatRepr (.str s) := by
  refine ⟨⟨'"', _, rfl, by decide⟩, fun rounds rest hrounds _ => ?_⟩
  rcases Nat.exists_eq_add_of_lt (Nat.lt_of_lt_of_le (Nat.zero_lt_succ _) hrounds) with ⟨n, rfl⟩
  simp only [write, writeString, List.cons_append, List.append_assoc, List.nil_append, readValue,
    Nat.zero_add, if_pos, readString_writeString, Option.map_some, String.ofList_toList]

theorem follows_cons {c : Char} (hc : c = ',' ∨ c = ']' ∨ c = '\x7d') (rest : List Char) :
    Follows (c :: rest) := by
  rintro _ ⟨⟩
  exact hc

/-- The blank after a comma or a colon is skipped. -/
theorem skipSpace_blank {cs : List Char} (h : ValueStart cs) : skipSpace (' ' :: cs) = cs :=
  h.skipSpace

/-- The items of a list, if each of them is read back. -/
theorem readItems_write {x : Json} {xs : List Json} (h : ∀ y ∈ x :: xs, ReadsBack floatRepr y)
    {rounds : Nat} (hrounds : (write x ++ writeItems xs).length ≤ rounds) (rest : List Char) :
    readItems floatRepr rounds (write x ++ (writeItems xs ++ rest)) = some (x :: xs, rest) := by
  rw [List.length_append] at hrounds
  have hx := h x List.mem_cons_self
  induction xs generalizing x rounds with
  | nil =>
    rw [writeItems, List.length_singleton] at hrounds
    obtain ⟨n, rfl⟩ : ∃ n, rounds = n + 1 := ⟨rounds - 1, by omega⟩
    have hread := hx.read n (']' :: rest) (by omega) (follows_cons (by decide) rest)
    rw [writeItems, List.singleton_append, readItems, hread]
    rfl
  | cons x' xs ih =>
    have hx' := h x' (List.mem_cons_of_mem _ List.mem_cons_self)
    simp only [writeItems, List.cons_append, List.length_cons, List.length_append] at hrounds
    obtain ⟨n, rfl⟩ : ∃ n, rounds = n + 1 := ⟨rounds - 1, by omega⟩
    have hlength : (write x').length + (writeItems xs).length ≤ n := by omega
    have hitems := ih (fun y hy => h y (List.mem_cons_of_mem _ hy)) hlength hx'
    have hread := hx.read n (',' :: ' ' :: (write x' ++ (writeItems xs ++ rest))) (by omega)
      (follows_cons (by decide) _)
    have hblank := skipSpace_blank (hx'.start.append (writeItems xs ++ rest))
    have hcomma : skipSpace (',' :: ' ' :: (write x' ++ (writeItems xs ++ rest))) =
        ',' :: ' ' :: (write x' ++ (writeItems xs ++ rest)) := rfl
    simp only [writeItems, List.cons_append, List.append_assoc, readItems, hread, hcomma, hblank,
      hitems, Option.map_some]

theorem readsBack_list {xs : List Json} (h : ∀ x ∈ xs, ReadsBack floatRepr x) :
    ReadsBack floatRepr (.list xs) := by
  cases xs with
  | nil =>
    refine ⟨⟨'[', _, rfl, by decide⟩, fun rounds rest hrounds _ => ?_⟩
    obtain ⟨n, rfl⟩ : ∃ n, rounds = n + 1 := ⟨rounds - 1, (Nat.sub_add_cancel
      (Nat.le_trans (by decide) hrounds)).symm⟩
    rfl
  | cons x xs =>
    refine ⟨⟨'[', _, rfl, by decide⟩, fun rounds rest hrounds _ => ?_⟩
    rw [write, List.length_append, List.length_cons] at hrounds
    obtain ⟨n, rfl⟩ : ∃ n, rounds = n + 1 := ⟨rounds - 1, by omega⟩
    have hstart := (h x List.mem_cons_self).start.append (writeItems xs ++ rest)
    have hlength : (write x ++ writeItems xs).length ≤ n := by
      rw [List.length_append]
      omega
    have hitems := readItems_write h hlength rest
    have hne : (write x ++ (writeItems xs ++ rest)).head? ≠ some ']' := by
      rcases hstart with ⟨c, cs, hcs, -, hne, -⟩
      rw [hcs]
      exact fun heq => hne (Option.some.inj heq)
    simp only [write, List.cons_append, List.append_assoc, readValue, hstart.skipSpace, hne,
      hitems, Option.map_some, if_neg (show ¬ '[' = '"' by decide),
      if_neg (show ¬ '[' = '\x7b' by decide), if_pos, if_false]

theorem length_writeString_pos (s : String) : 1 < (writeString s).length := by
  simp [writeString]

/-- A key is read back. -/
theorem readMembers_key (n : Nat) (key : String) (cs : List Char) :
    readMembers floatRepr (n + 1) (writeString key ++ (':' :: ' ' :: cs)) =
      match readValue floatRepr n (skipSpace (' ' :: cs)) with
      | none => none
      | some (x, rest) =>
          match skipSpace rest with
          | '\x7d' :: rest => some ([(key, x)], rest)
          | ',' :: rest => (readMembers floatRepr n (skipSpace rest)).map fun r =>
              ((key, x) :: r.1, r.2)
          | _ => none := by
  have hcolon : skipSpace (':' :: ' ' :: cs) = ':' :: ' ' :: cs := rfl
  simp only [writeString, List.cons_append, List.append_assoc, List.nil_append, readMembers,
    if_pos, readString_writeString, hcolon, String.ofList_toList]

/-- The members of an object, if each value is read back. -/
theorem readMembers_write {key : String} {x : Json} {kvs : List (String × Json)}
    (h : ∀ kv ∈ (key, x) :: kvs, ReadsBack floatRepr kv.2) {rounds : Nat}
    (hrounds : (writeString key ++ (write x ++ writeMembers kvs)).length ≤ rounds)
    (rest : List Char) :
    readMembers floatRepr rounds
      (writeString key ++ (':' :: ' ' :: (write x ++ (writeMembers kvs ++ rest)))) =
        some ((key, x) :: kvs, rest) := by
  rw [List.length_append, List.length_append] at hrounds
  have hx : ReadsBack floatRepr x := h (key, x) List.mem_cons_self
  have hlength := length_writeString_pos key
  induction kvs generalizing key x rounds with
  | nil =>
    -- the last member, and the closing brace
    rw [writeMembers, List.length_singleton] at hrounds
    obtain ⟨n, rfl⟩ : ∃ n, rounds = n + 1 := ⟨rounds - 1, by omega⟩
    have hread := hx.read n ('\x7d' :: rest) (by omega) (follows_cons (by decide) rest)
    have hblank := skipSpace_blank (hx.start.append ('\x7d' :: rest))
    rw [readMembers_key, writeMembers, List.singleton_append, hblank, hread]
    rfl
  | cons kv kvs ih =>
    -- a comma, and the other members behind it
    obtain ⟨key', x'⟩ := kv
    have hx' : ReadsBack floatRepr x' := h (key', x') (List.mem_cons_of_mem _ List.mem_cons_self)
    simp only [writeMembers, List.cons_append, List.length_cons, List.length_append] at hrounds
    obtain ⟨n, rfl⟩ : ∃ n, rounds = n + 1 := ⟨rounds - 1, by omega⟩
    let others := writeString key' ++ (':' :: ' ' :: (write x' ++ (writeMembers kvs ++ rest)))
    have hlength' : (writeString key').length +
        ((write x').length + (writeMembers kvs).length) ≤ n := by omega
    have hmembers := ih (fun kv hkv => h kv (List.mem_cons_of_mem _ hkv)) hlength' hx'
      (length_writeString_pos key')
    have hread := hx.read n (',' :: ' ' :: others) (by omega) (follows_cons (by decide) _)
    have hblank := skipSpace_blank (hx.start.append (',' :: ' ' :: others))
    have hquote : ValueStart others := ⟨'"', _, rfl, by decide⟩
    have hcomma : skipSpace (',' :: ' ' :: others) = ',' :: ' ' :: others := rfl
    simp only [writeMembers, List.cons_append, List.append_assoc, readMembers_key, hblank, hread,
      hcomma, skipSpace_blank hquote, hmembers, Option.map_some, others]

/-- A dictionary is made of pairs with distinct keys as they are. -/
theorem dictOf_eq {pairs : List (String × Json)} (h : (pairs.map Prod.fst).Nodup) :
    dictOf pairs = pairs := by
  have hfold : ∀ kvs : List (String × Json), ((kvs ++ pairs).map Prod.fst).Nodup →
      pairs.foldl (fun kvs pair => setMember kvs pair.1 pair.2) kvs = kvs ++ pairs := by
    clear h
    induction pairs with
    | nil => exact fun kvs _ => (List.append_nil kvs).symm
    | cons pair pairs ih =>
      intro kvs hnodup
      have hnew : kvs.any (·.1 == pair.1) = false := by
        rw [List.map_append, List.map_cons] at hnodup
        rw [List.any_eq_false]
        intro kv hkv heq
        exact (List.nodup_append.mp hnodup).2.2 _ (List.mem_map_of_mem hkv) _
          List.mem_cons_self (eq_of_beq heq)
      have hset : setMember kvs pair.1 pair.2 = kvs ++ [pair] := by
        rw [setMember, hnew]
        rfl
      rw [List.foldl_cons, hset, ih _ (by simpa using hnodup), List.append_assoc,
        List.singleton_append]
  exact hfold [] h

theorem readsBack_obj {kvs : List (String × Json)} (hnodup : (kvs.map Prod.fst).Nodup)
    (h : ∀ kv ∈ kvs, ReadsBack floatRepr kv.2) : ReadsBack floatRepr (.obj kvs) := by
  cases kvs with
  | nil =>
    refine ⟨⟨'\x7b', _, rfl, by decide⟩, fun rounds rest hrounds _ => ?_⟩
    obtain ⟨n, rfl⟩ : ∃ n, rounds = n + 1 := ⟨rounds - 1, (Nat.sub_add_cancel
      (Nat.le_trans (by decide) hrounds)).symm⟩
    rfl
  | cons kv kvs =>
    obtain ⟨key, x⟩ := kv
    refine ⟨⟨'\x7b', _, rfl, by decide⟩, fun rounds rest hrounds _ => ?_⟩
    simp only [write, List.cons_append, List.length_append, List.length_cons] at hrounds
    obtain ⟨n, rfl⟩ : ∃ n, rounds = n + 1 := ⟨rounds - 1, by omega⟩
    have hlength : (writeString key ++ (write x ++ writeMembers kvs)).length ≤ n := by
      simp only [List.length_append]
      omega
    have hmembers := readMembers_write h hlength rest
    have hquote : ValueStart
        (writeString key ++ (':' :: ' ' :: (write x ++ (writeMembers kvs ++ rest)))) :=
      ⟨'"', _, rfl, by decide⟩
    -- the brace is not closed at once
    have hne : (writeString key ++
        (':' :: ' ' :: (write x ++ (writeMembers kvs ++ rest)))).head? ≠ some '\x7d' := by
      simp [writeString]
    simp only [write, List.cons_append, List.append_assoc, readValue, hquote.skipSpace, hne,
      hmembers, Option.map_some, dictOf_eq hnodup, if_neg (show ¬ '\x7b' = '"' by decide), if_pos,
      if_false]

theorem WellFormed.readsBack {value : Json} (h : WellFormed floatRepr value) :
    ReadsBack floatRepr value := by
  induction h with
  | null => exact readsBack_of_constant rfl (by decide) (by decide) fun _ => rfl
  | bool b =>
    cases b with
    | true => exact readsBack_of_constant rfl (by decide) (by decide) fun _ => rfl
    | false => exact readsBack_of_constant rfl (by decide) (by decide) fun _ => rfl
  | int n => exact readsBack_of_number (readNumber_writeInt n)
  | constant text h =>
    rcases h with rfl | rfl | rfl
    · exact readsBack_of_constant rfl (by decide) (by decide) fun _ => rfl
    · exact readsBack_of_constant rfl (by decide) (by decide) fun _ => rfl
    · exact readsBack_of_constant rfl (by decide) (by decide) fun _ => rfl
  | float text hne h =>
    have htext : write (.float text) = text.toList := by
      simp [write, writeFloat, hne]
    exact readsBack_of_number (htext ▸ h)
  | str s => exact readsBack_str s
  | list xs _ ih => exact readsBack_list ih
  | obj kvs hnodup _ ih => exact readsBack_obj hnodup ih

/-- `json.loads(json.dumps(value)) == value` -/
theorem loads_dumps {value : Json} (h : WellFormed floatRepr value) :
    loads floatRepr (dumps value) = some value := by
  have hback := h.readsBack
  have hread := hback.read (write value).length [] (Nat.le_refl _) follows_nil
  have hbom : (write value).head? ≠ some '\uFEFF' := by
    rcases hback.start with ⟨c, cs, hcs, -, -, hne⟩
    rw [hcs]
    exact fun heq => hne (Option.some.inj heq)
  rw [List.append_nil] at hread
  rw [loads, dumps, String.toList_ofList, if_neg hbom, hback.start.skipSpace, hread]
  rfl

/-- Different values are written differently. -/
theorem dumps_inj {value value' : Json} (h : WellFormed floatRepr value)
    (h' : WellFormed floatRepr value') (heq : dumps value = dumps value') : value = value' := by
  have hback := loads_dumps h
  rw [heq, loads_dumps h'] at hback
  exact (Option.some.inj hback).symm

end Json

end TallyConnector
