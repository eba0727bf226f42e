import TallyConnector.Python.Percent
import TallyConnector.Tally.XmlParser
import TallyConnector.Text.Masked

/-! # Logging setup

`utils/logging_setup.py`. `_SECRET_KEY_PATTERN` has three groups: the key
(`secretKey`), the separator (`separator`) and the value, a run of
`isValueChar`. No key word begins another one, and what may follow a part of
the pattern cannot be read as that part, so the engine never backtracks with
success and each group is read as far as it goes.
-/

namespace TallyConnector

open Masking

/-! ## The pattern -/

/-- A character as `re.IGNORECASE` compares it with a small ASCII letter: four
characters outside ASCII, two of them an i, match as well. -/
def ignoreCase (c : Char) : Char :=
  if c = '\u0131' ∨ c = '\u0130' then 'i'
  else if c = '\u017F' then 's'
  else if c = '\u212A' then 'k'
  else c.toLower

/-- `api[_-]?key|api[_-]?secret|authorization|password|token` -/
def secretKeys : List (List Char) :=
  ["apikey".toList, "api_key".toList, "api-key".toList, "apisecret".toList,
    "api_secret".toList, "api-secret".toList, "authorization".toList, "password".toList,
    "token".toList]

/-- The first group, and what follows it. -/
def secretKey (l : List Char) : Option (List Char × List Char) :=
  (secretKeys.find? fun word => (l.take word.length).map ignoreCase == word).map
    fun word => l.splitAt word.length

def isQuote (c : Char) : Bool := c == '\'' || c == '"'

/-- `['\"]?` -/
def takeQuote : List Char → List Char
  | [] => []
  | c :: _ => if isQuote c then [c] else []

/-- The second group, `['\"]?\s*[:=]\s*['\"]?`. -/
def separator (l : List Char) : Option (List Char) :=
  let before := takeQuote l
  let l := l.drop before.length
  let spaces := l.takeWhile isPySpace
  match l.dropWhile isPySpace with
  | [] => none
  | c :: l =>
      if c = ':' ∨ c = '=' then
        let spaces' := l.takeWhile isPySpace
        let after := takeQuote (l.dropWhile isPySpace)
        some (before ++ spaces ++ c :: spaces' ++ after)
      else none

/-- `[^'\"\s,}&]` -/
def isValueChar (c : Char) : Bool :=
  !(isQuote c || isPySpace c || c == ',' || c == '}' || c == '&')

/-- The first two groups. -/
def secretOpening (l : List Char) : Option (List Char) :=
  match secretKey l with
  | none => none
  | some (key, l) => (separator l).map (key ++ ·)

/-- `_REDACTED` -/
def redacted : List Char := "***REDACTED***".toList

/-! ## What the groups match -/

def IsSecretKey (key : List Char) : Prop := key.map ignoreCase ∈ secretKeys

instance (key : List Char) : Decidable (IsSecretKey key) :=
  inferInstanceAs (Decidable (key.map ignoreCase ∈ secretKeys))

def MaybeQuote (q : List Char) : Prop := q = [] ∨ ∃ c, isQuote c = true ∧ q = [c]

inductive IsSeparator : List Char → Prop
  | mk {before s s' after : List Char} {c : Char} (hbefore : MaybeQuote before)
      (hspaces : ∀ a ∈ s, isPySpace a = true) (hc : c = ':' ∨ c = '=')
      (hspaces' : ∀ a ∈ s', isPySpace a = true) (hafter : MaybeQuote after) :
      IsSeparator (before ++ s ++ c :: s' ++ after)

inductive IsOpening : List Char → Prop
  | mk {key sep : List Char} (hkey : IsSecretKey key) (hsep : IsSeparator sep) :
      IsOpening (key ++ sep)

theorem not_quote_of_space {c : Char} (h : isPySpace c = true) : isQuote c = false := by
  rw [Bool.eq_false_iff]
  intro hquote
  have hc : c = '\'' ∨ c = '"' := by simpa [isQuote] using hquote
  rcases hc with rfl | rfl
  · exact absurd h (by decide)
  · exact absurd h (by decide)

theorem not_space_of_colon {c : Char} (h : c = ':' ∨ c = '=') :
    isPySpace c = false ∧ isQuote c = false := by
  rcases h with rfl | rfl
  · exact ⟨by decide, by decide⟩
  · exact ⟨by decide, by decide⟩

theorem not_space_of_value {c : Char} (h : isValueChar c = true) :
    isPySpace c = false ∧ isQuote c = false := by
  simp only [isValueChar, Bool.not_eq_true', Bool.or_eq_false_iff] at h
  exact ⟨h.1.1.1.2, h.1.1.1.1⟩

/-! ### Quotes and spaces -/

theorem takeQuote_prefix (l : List Char) : takeQuote l <+: l := by
  cases l with
  | nil => exact List.prefix_rfl
  | cons c l =>
    show (if isQuote c then [c] else []) <+: c :: l
    split
    · exact ⟨l, rfl⟩
    · exact List.nil_prefix

theorem maybeQuote_takeQuote (l : List Char) : MaybeQuote (takeQuote l) := by
  cases l with
  | nil => exact .inl rfl
  | cons c l =>
    show MaybeQuote (if isQuote c then [c] else [])
    split
    · next hc => exact .inr ⟨c, hc, rfl⟩
    · exact .inl rfl

theorem takeQuote_append {q rest : List Char} (hq : MaybeQuote q)
    (hrest : ∀ a ∈ rest.head?, isQuote a = false) : takeQuote (q ++ rest) = q := by
  rcases hq with rfl | ⟨c, hc, rfl⟩
  · cases rest with
    | nil => rfl
    | cons a rest => exact if_neg (by simpa using hrest a rfl)
  · exact if_pos hc

theorem takeWhile_spaces {spaces t : List Char} (h : ∀ a ∈ spaces, isPySpace a = true)
    (ht : ∀ a ∈ t.head?, isPySpace a = false) :
    (spaces ++ t).takeWhile isPySpace = spaces ∧
      (spaces ++ t).dropWhile isPySpace = t := by
  rw [List.takeWhile_append_of_pos h, List.dropWhile_append_of_pos h]
  cases t with
  | nil => simp
  | cons a t =>
    have ha : isPySpace a = false := ht a rfl
    simp [ha]

theorem head?_maybeQuote {q rest : List Char} (hq : MaybeQuote q)
    (hrest : ∀ a ∈ rest.head?, isValueChar a = true) :
    ∀ a ∈ (q ++ rest).head?, isPySpace a = false := by
  intro a ha
  rcases hq with rfl | ⟨c, hc, rfl⟩
  · exact (not_space_of_value (hrest a ha)).1
  · have hca : c = a := Option.some.inj ha
    rw [← hca, Bool.eq_false_iff]
    intro hspace
    rw [not_quote_of_space hspace] at hc
    cases hc

/-! ### The separator -/

theorem separator_complete {sep rest : List Char} (h : IsSeparator sep)
    (hrest : ∀ a ∈ rest.head?, isValueChar a = true) : separator (sep ++ rest) = some sep := by
  rcases h with ⟨hbefore, hspaces, hc, hspaces', hafter⟩
  rename_i before spaces spaces' after c
  have hcolon := not_space_of_colon hc
  -- the quote before, the blanks on both sides and the quote behind are taken one by one
  have hquote : takeQuote (before ++ (spaces ++ c :: (spaces' ++ (after ++ rest)))) = before := by
    refine takeQuote_append hbefore ?_
    intro a ha
    cases spaces with
    | nil =>
      have hca : c = a := Option.some.inj ha
      exact hca ▸ hcolon.2
    | cons b spaces =>
      have hba : b = a := Option.some.inj ha
      exact hba ▸ not_quote_of_space (hspaces b List.mem_cons_self)
  have hrun := takeWhile_spaces (t := c :: (spaces' ++ (after ++ rest))) hspaces (by
    intro a ha
    have hca : c = a := Option.some.inj ha
    exact hca ▸ hcolon.1)
  have hrun' := takeWhile_spaces (t := after ++ rest) hspaces' (head?_maybeQuote hafter hrest)
  have hquote' : takeQuote (after ++ rest) = after :=
    takeQuote_append hafter fun a ha => (not_space_of_value (hrest a ha)).2
  simp only [List.append_assoc, List.cons_append, separator, hquote, List.drop_left, hrun.1,
    hrun.2, hrun'.1, hrun'.2, hquote', if_pos hc]

theorem separator_sound {l sep : List Char} (h : separator l = some sep) :
    IsSeparator sep ∧ sep <+: l := by
  unfold separator at h
  dsimp only at h
  split at h
  · cases h
  next c t hrest =>
  split at h
  · next hc =>
    cases h
    -- what each part takes is of its kind
    have hspaces : ∀ (l : List Char), ∀ a ∈ l.takeWhile isPySpace, isPySpace a = true :=
      fun l a ha => List.all_eq_true.mp List.all_takeWhile a ha
    refine ⟨.mk (maybeQuote_takeQuote l) (hspaces _) hc (hspaces _) (maybeQuote_takeQuote _), ?_⟩
    rcases takeQuote_prefix l with ⟨l₁, hl⟩
    rcases takeQuote_prefix (t.dropWhile isPySpace) with ⟨l₂, hl₂⟩
    refine ⟨l₂, ?_⟩
    have hdrop : l.drop (takeQuote l).length = l₁ := by
      nth_rewrite 2 [← hl]
      exact List.drop_left
    rw [hdrop] at hrest ⊢
    calc takeQuote l ++ l₁.takeWhile isPySpace ++ c :: t.takeWhile isPySpace ++
          takeQuote (t.dropWhile isPySpace) ++ l₂
        = takeQuote l ++ (l₁.takeWhile isPySpace ++ c :: (t.takeWhile isPySpace ++
          (takeQuote (t.dropWhile isPySpace) ++ l₂))) := by simp
      _ = takeQuote l ++ l₁ := by
          rw [hl₂, List.takeWhile_append_dropWhile, ← hrest, List.takeWhile_append_dropWhile]
      _ = l := hl
  · cases h

/-! ### The key -/

/-- The characters of the key words. -/
def keyChars : List Char := "abcdefghijklmnopqrstuvwxyz_-".toList

theorem secretKeys_prefixFree :
    ∀ w ∈ secretKeys, ∀ w' ∈ secretKeys, w <+: w' → w = w' := by decide

theorem secretKeys_chars : ∀ w ∈ secretKeys, w ≠ [] ∧ ∀ c ∈ w, c ∈ keyChars := by
  have hall : (secretKeys.all fun w => w != [] && w.all keyChars.contains) = true := by decide
  intro w hw
  have h := List.all_eq_true.mp hall w hw
  rw [Bool.and_eq_true, bne_iff_ne] at h
  exact ⟨h.1, fun c hc => List.contains_iff_mem.mp (List.all_eq_true.mp h.2 c hc)⟩

/-- The characters of a key stand in values and not in separators. -/
theorem value_of_keyChar {c : Char} (h : ignoreCase c ∈ keyChars) :
    isValueChar c = true ∧ c ≠ ':' ∧ c ≠ '=' := by
  unfold ignoreCase at h
  split at h
  · -- the letters outside of ASCII that match one of it
    next hc => rcases hc with rfl | rfl <;> decide
  split at h
  · next hc =>
    rw [hc]
    decide
  split at h
  · next hc =>
    rw [hc]
    decide
  unfold Char.toLower at h
  split at h
  · -- an upper-case letter
    next hupper =>
    have hall : ∀ n < 91, 65 ≤ n →
        isValueChar (Char.ofNat n) = true ∧ Char.ofNat n ≠ ':' ∧ Char.ofNat n ≠ '=' := by decide
    have hge : 65 ≤ c.toNat := UInt32.le_iff_toNat_le.mp hupper.1
    have hle : c.toNat ≤ 90 := UInt32.le_iff_toNat_le.mp hupper.2
    have hc := hall c.toNat (by omega) hge
    rw [Char.ofNat_toNat] at hc
    exact hc
  · -- a character of a key as it stands
    have hall : (keyChars.all fun c => isValueChar c && c != ':' && c != '=') = true := by decide
    have hc := List.all_eq_true.mp hall c h
    rw [Bool.and_eq_true, Bool.and_eq_true, bne_iff_ne, bne_iff_ne] at hc
    exact ⟨hc.1.1, hc.1.2, hc.2⟩

theorem IsSecretKey.ne_nil {key : List Char} (h : IsSecretKey key) : key ≠ [] := by
  intro hnil
  rw [IsSecretKey, hnil] at h
  exact (secretKeys_chars _ h).1 rfl

theorem IsSecretKey.char {key : List Char} (h : IsSecretKey key) :
    ∀ c ∈ key, ignoreCase c ∈ keyChars :=
  fun c hc => (secretKeys_chars _ h).2 (ignoreCase c) (List.mem_map_of_mem hc)

theorem secretKey_complete {key : List Char} (h : IsSecretKey key) (rest : List Char) :
    secretKey (key ++ rest) = some (key, rest) := by
  have hlength : (key.map ignoreCase).length = key.length := List.length_map ignoreCase
  unfold secretKey
  cases hfind : secretKeys.find? fun word =>
      ((key ++ rest).take word.length).map ignoreCase == word with
  | none =>
    have hnone := List.find?_eq_none.mp hfind _ h
    simp [hlength] at hnone
  | some w =>
    -- two words at the same place, so one begins the other
    have hw : w <+: key.map ignoreCase ++ rest.map ignoreCase := by
      have heq := List.find?_some hfind
      rw [beq_iff_eq, List.map_take, List.map_append] at heq
      exact ⟨_, (congrArg (· ++ _) heq.symm).trans (List.take_append_drop _ _)⟩
    have hmem := List.mem_of_find?_eq_some hfind
    have hword : w = key.map ignoreCase := by
      rcases List.prefix_or_prefix_of_prefix hw (List.prefix_append _ _) with hle | hle
      · exact secretKeys_prefixFree _ hmem _ h hle
      · exact (secretKeys_prefixFree _ h _ hmem hle).symm
    simp [hword]

theorem secretKey_sound {l key rest : List Char} (h : secretKey l = some (key, rest)) :
    IsSecretKey key ∧ l = key ++ rest := by
  unfold secretKey at h
  rcases Option.map_eq_some_iff.mp h with ⟨w, hfind, hsplit⟩
  rw [List.splitAt_eq] at hsplit
  rcases Prod.mk.inj hsplit with ⟨rfl, rfl⟩
  have heq := List.find?_some hfind
  rw [beq_iff_eq] at heq
  constructor
  · rw [IsSecretKey, heq]
    exact List.mem_of_find?_eq_some hfind
  · exact (List.take_append_drop w.length l).symm

/-! ### Both together -/

theorem secretOpening_complete {k rest : List Char} (h : IsOpening k)
    (hrest : ∀ a ∈ rest.head?, isValueChar a = true) : secretOpening (k ++ rest) = some k := by
  rcases h with ⟨hkey, hsep⟩
  rename_i key sep
  rw [List.append_assoc, secretOpening, secretKey_complete hkey]
  show (separator (sep ++ rest)).map (key ++ ·) = some (key ++ sep)
  rw [separator_complete hsep hrest]
  rfl

theorem secretOpening_sound {l k : List Char} (h : secretOpening l = some k) :
    IsOpening k ∧ k <+: l := by
  unfold secretOpening at h
  split at h
  · cases h
  next key t hkey =>
  rcases Option.map_eq_some_iff.mp h with ⟨sep, hsep, rfl⟩
  rcases secretKey_sound hkey with ⟨hsecret, rfl⟩
  rcases separator_sound hsep with ⟨hseparator, hbegins⟩
  exact ⟨.mk hsecret hseparator, (List.prefix_append_right_inj key).mpr hbegins⟩

theorem IsOpening.head_value {a : Char} {l : List Char} (h : IsOpening (a :: l)) :
    isValueChar a = true := by
  generalize heq : a :: l = k at h
  rcases h with ⟨hkey, hsep⟩
  rename_i key sep
  cases key with
  | nil => exact absurd rfl hkey.ne_nil
  | cons b key =>
    have hab : a = b := (List.cons.inj heq).1
    rw [hab]
    exact (value_of_keyChar (hkey.char b List.mem_cons_self)).1

theorem not_isOpening_nil : ¬ IsOpening [] := by
  intro h
  generalize heq : ([] : List Char) = k at h
  rcases h with ⟨hkey, hsep⟩
  exact hkey.ne_nil (List.append_eq_nil_iff.mp heq.symm).1

section notMem

variable {a : Char}

theorem notMem_separator (hquote : isQuote a = false) (hspace : isPySpace a = false)
    (hcolon : ¬ (a = ':' ∨ a = '=')) {sep : List Char} (h : IsSeparator sep) : a ∉ sep := by
  have hquotes : ∀ {q : List Char}, MaybeQuote q → a ∉ q := by
    rintro q (rfl | ⟨c, hc, rfl⟩) hmem
    · cases hmem
    · rw [← List.mem_singleton.mp hmem, hquote] at hc
      cases hc
  have hspaces : ∀ {s : List Char}, (∀ c ∈ s, isPySpace c = true) → a ∉ s := by
    intro s hs hmem
    have hc := hs a hmem
    rw [hspace] at hc
    cases hc
  rcases h with ⟨hbefore, hs, hc, hs', hafter⟩
  rename_i before s s' after c
  simp only [List.mem_append, List.mem_cons, not_or]
  refine ⟨⟨⟨hquotes hbefore, hspaces hs⟩, ?_, hspaces hs'⟩, hquotes hafter⟩
  rintro rfl
  exact hcolon hc

theorem notMem_opening (hkey : ignoreCase a ∉ keyChars) (hquote : isQuote a = false)
    (hspace : isPySpace a = false) (hcolon : ¬ (a = ':' ∨ a = '=')) {k : List Char}
    (h : IsOpening k) : a ∉ k := by
  rcases h with ⟨hsecret, hsep⟩
  intro hmem
  rcases List.mem_append.mp hmem with hmem | hmem
  · exact hkey (hsecret.char _ hmem)
  · exact notMem_separator hquote hspace hcolon hsep hmem

end notMem

/-! ## The substitution -/

/-- `_SECRET_KEY_PATTERN.sub(rf"\1\2{_REDACTED}", ·)` -/
def secretKeyPattern : Masker Char where
  Opens := IsOpening
  opening := secretOpening
  value := isValueChar
  hole := redacted
  not_opens_nil := not_isOpening_nil
  head_value := IsOpening.head_value
  opening_sound := secretOpening_sound
  opening_complete := secretOpening_complete
  hole_ne_nil := by decide
  hole_value := List.all_eq_true.mp (by decide)
  hole_fresh := by
    intro k hk a ha
    have hstar : '*' = a := Option.some.inj ha
    exact hstar ▸ notMem_opening (by decide) (by decide) (by decide) (by decide) hk

def redact (text : String) : String := String.ofList (secretKeyPattern.mask text.toList)

/-! ## The filter -/

/-- `record.args`: a tuple, or the single dictionary that a log call allows. -/
inductive LogArgs (ω : Type) where
  | tuple (args : List (PyObject ω))
  | dict (o : ω) (items : List (PyObject ω × PyObject ω))

structure LogRecord (ω : Type) where
  levelno : Int
  msg : PyObject ω
  args : LogArgs ω

variable {ω : Type} (str : ω → String)

/-- `redact(arg) if isinstance(arg, str) else arg` -/
def PyObject.redacted : PyObject ω → PyObject ω
  | .str s => .str (redact s)
  | .other o => .other o

/-- What a loop over the arguments goes through. -/
def LogArgs.iter : LogArgs ω → List (PyObject ω)
  | .tuple args => args
  | .dict _ items => items.map (·.1)

/-- The arguments after the filter. -/
def LogArgs.redacted (args : LogArgs ω) : LogArgs ω :=
  if args.iter.isEmpty then args else .tuple (args.iter.map PyObject.redacted)

/-- `RedactionFilter.filter`, which returns `True` for every record. -/
def redactionFilter (record : LogRecord ω) : LogRecord ω :=
  { record with
    msg := .str (redact (record.msg.text str))
    args := record.args.redacted }

/-- `LogRecord.getMessage`: the parts of the formatted text, `none` where
formatting raises. -/
def LogRecord.messageParts (shows : Shows ω) (record : LogRecord ω) :
    Option (List (List Char)) :=
  let msg := (record.msg.text shows.str).toList
  match record.args with
  | .tuple [] => some [msg]
  | .tuple args => do
      let parts ← parseTemplate msg
      renderParts shows none parts args
  | .dict _ [] => some [msg]
  | .dict o items => do
      let parts ← parseTemplate msg
      renderParts shows (some items) parts [.other o]

def LogRecord.getMessage (shows : Shows ω) (record : LogRecord ω) : Option String :=
  (record.messageParts shows).map fun parts => String.ofList parts.flatten

/-! ## The handlers -/

/-- A handler with the redaction filter. -/
structure Handler where
  level : Int

/-- `Logger.callHandlers`: what each handler emits, and the record afterwards. -/
def callHandlers : List Handler → LogRecord ω → List (LogRecord ω) × LogRecord ω
  | [], record => ([], record)
  | handler :: handlers, record =>
      if handler.level ≤ record.levelno then
        let record := redactionFilter str record
        let rest := callHandlers handlers record
        (record :: rest.1, rest.2)
      else callHandlers handlers record

end TallyConnector
