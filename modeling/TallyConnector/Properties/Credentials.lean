import TallyConnector.Utils.LoggingSetup

/-! # The connector's credentials in a log

`docs/troubleshooting.md` calls a secret in the logs a bug. The value of the
`Authorization` header holds a space, and the pattern takes the value of a key
only up to a space: redaction hides the word `token` and leaves the API key and
the secret (`credentials_hidden_iff`, `credentials_shown`). A key with its
secret is hidden, unless the text before it ends inside a value and the
separator ends that value.
-/

namespace TallyConnector

open Masking

/-! ## The texts that show the credentials -/

/-- Some ASCII letters and digits. -/
structure Alnum where
  text : String
  nonempty : text.toList ≠ []
  alnum : text.toList.all Char.isAlphanum = true

theorem Alnum.char (word : Alnum) : ∀ c ∈ word.text.toList, c.isAlphanum = true :=
  List.all_eq_true.mp word.alnum

/-- `FrappeClient._headers` -/
def frappeHeaders (frappeApiKey frappeApiSecret : String) : List (String × String) :=
  let token := frappeApiKey ++ ":" ++ frappeApiSecret
  [("Authorization", "token " ++ token), ("Content-Type", "application/json")]

/-- The repr of a text that needs no escapes. -/
def quoted (text : String) : String := "'" ++ text ++ "'"

def dictRepr (items : List (String × String)) : String :=
  "\x7b" ++ ", ".intercalate (items.map fun item => quoted item.1 ++ ": " ++ quoted item.2) ++ "\x7d"

/-- A key of the pattern with its separator. -/
structure KeyValue where
  /-- The quote before the key, if any. -/
  before : String
  key : String
  sep : String
  /-- The quote after the secret, if any. -/
  after : String
  hkey : IsSecretKey key.toList
  hsep : IsSeparator sep.toList

inductive CredentialForm where
  | headerLine
  | headersRepr
  | keyValue (form : KeyValue)

def CredentialForm.text (apiKey secret : String) : CredentialForm → String
  | .headerLine => "Authorization: token " ++ apiKey ++ ":" ++ secret
  | .headersRepr => dictRepr (frappeHeaders apiKey secret)
  | .keyValue form => form.before ++ form.key ++ form.sep ++ secret ++ form.after

/-- The API key ends in a word that the pattern takes for a key, and the colon
and the secret after it for its value. -/
def EndsInKey (apiKey : String) : Prop := ∃ key, IsSecretKey key ∧ key <:+ apiKey.toList

/-- When the secret is hidden after the text `u`. -/
def CredentialForm.Hidden (apiKey u : String) : CredentialForm → Prop
  | .headerLine => EndsInKey apiKey
  | .headersRepr => EndsInKey apiKey
  | .keyValue form =>
      (∀ c ∈ form.sep.toList, isValueChar c = true) ∨
        secretKeyPattern.endsOpen (u ++ form.before).toList = false

theorem toList_headerLine (u apiKey secret v : String) :
    (u ++ CredentialForm.headerLine.text apiKey secret ++ v).toList =
      u.toList ++ ("Authorization".toList ++ (": ".toList ++ ("token".toList ++
        (' ' :: apiKey.toList ++ ':' :: (secret.toList ++ v.toList))))) := by
  have hcolon : ":".toList = [':'] := rfl
  have hline : "Authorization: token ".toList =
      "Authorization".toList ++ (": ".toList ++ ("token".toList ++ [' '])) := by decide
  show (u ++ ("Authorization: token " ++ apiKey ++ ":" ++ secret) ++ v).toList = _
  simp only [String.toList_append, hline, hcolon, List.append_assoc, List.cons_append,
    List.nil_append]

theorem toList_headersRepr (u apiKey secret v : String) :
    (u ++ CredentialForm.headersRepr.text apiKey secret ++ v).toList =
      u.toList ++ "\x7b'".toList ++ ("Authorization".toList ++ ("': '".toList ++ ("token".toList ++
        (' ' :: apiKey.toList ++ ':' :: (secret.toList ++
          ("', 'Content-Type': 'application/json'\x7d".toList ++ v.toList)))))) := by
  have hcolon : ":".toList = [':'] := rfl
  have htoken : "token ".toList = "token".toList ++ [' '] := by decide
  have hbrace : "\x7b'".toList = "\x7b".toList ++ "'".toList := by decide
  have hsep : "': '".toList = "'".toList ++ (": ".toList ++ "'".toList) := by decide
  have hrest : "', 'Content-Type': 'application/json'\x7d".toList =
      "'".toList ++ (", ".toList ++ ("'".toList ++ ("Content-Type".toList ++ ("'".toList ++
        (": ".toList ++ ("'".toList ++ ("application/json".toList ++
          ("'".toList ++ "\x7d".toList)))))))) := by decide
  show (u ++ dictRepr (frappeHeaders apiKey secret) ++ v).toList = _
  simp only [frappeHeaders, dictRepr, quoted, List.map_cons, List.map_nil,
    String.intercalate_cons_cons, String.intercalate_singleton, String.toList_append, hcolon,
    htoken, hbrace, hsep, hrest, List.append_assoc, List.cons_append, List.nil_append]

theorem toList_keyValue (form : KeyValue) (u apiKey secret v : String) :
    (u ++ (CredentialForm.keyValue form).text apiKey secret ++ v).toList =
      (u ++ form.before).toList ++ (form.key.toList ++ (form.sep.toList ++ (secret.toList ++
        (form.after.toList ++ v.toList)))) := by
  show (u ++ (form.before ++ form.key ++ form.sep ++ secret ++ form.after) ++ v).toList = _
  simp only [String.toList_append, List.append_assoc]

/-! ## Words and separators -/

/-- The characters of separators. -/
def IsSepChar (c : Char) : Prop := isQuote c = true ∨ isPySpace c = true ∨ c = ':' ∨ c = '='

theorem secretKeys_suffixFree :
    ∀ w ∈ secretKeys, ∀ w' ∈ secretKeys, w <:+ w' → w = w' := by decide

theorem IsSeparator.char {sep : List Char} (h : IsSeparator sep) : ∀ a ∈ sep, IsSepChar a := by
  have hquote : ∀ {q : List Char}, MaybeQuote q → ∀ a ∈ q, IsSepChar a := by
    rintro q (rfl | ⟨c, hc, rfl⟩) a ha
    · cases ha
    · exact .inl (List.mem_singleton.mp ha ▸ hc)
  rcases h with ⟨hbefore, hspaces, hc, hspaces', hafter⟩
  intro a ha
  simp only [List.mem_append, List.mem_cons] at ha
  rcases ha with ((ha | ha) | (rfl | ha)) | ha
  · exact hquote hbefore a ha
  · exact .inr (.inl (hspaces a ha))
  · exact .inr (.inr hc)
  · exact .inr (.inl (hspaces' a ha))
  · exact hquote hafter a ha

theorem IsSeparator.exists_colon {sep : List Char} (h : IsSeparator sep) :
    ∃ c ∈ sep, c = ':' ∨ c = '=' := by
  rcases h with ⟨-, -, hc, -, -⟩
  exact ⟨_, by simp, hc⟩

theorem not_sepChar {c : Char} (hvalue : isValueChar c = true) (hcolon : c ≠ ':')
    (hequals : c ≠ '=') : ¬ IsSepChar c := by
  rcases not_space_of_value hvalue with ⟨hspace, hquote⟩
  rintro (h | h | h | h)
  · rw [hquote] at h
    cases h
  · rw [hspace] at h
    cases h
  · exact hcolon h
  · exact hequals h

theorem not_keyChar {c : Char} (h : IsSepChar c) : ignoreCase c ∉ keyChars := by
  intro hkey
  rcases value_of_keyChar hkey with ⟨hvalue, hcolon, hequals⟩
  exact not_sepChar hvalue hcolon hequals h

theorem value_of_alnum {c : Char} (h : c.isAlphanum = true) :
    isValueChar c = true ∧ ¬ IsSepChar c := by
  have hall : ∀ n < 123, (Char.ofNat n).isAlphanum = true →
      isValueChar (Char.ofNat n) = true ∧ Char.ofNat n ≠ ':' ∧ Char.ofNat n ≠ '=' := by decide
  have hlt : c.toNat < 123 := by
    delta Char.isAlphanum Char.isAlpha Char.isUpper Char.isLower Char.isDigit at h
    simp [UInt32.le_iff_toNat_le] at h
    omega
  have hc := hall c.toNat hlt
  rw [Char.ofNat_toNat] at hc
  rcases hc h with ⟨hvalue, hcolon, hequals⟩
  exact ⟨hvalue, not_sepChar hvalue hcolon hequals⟩

/-- No key starts with this character. -/
theorem next_of_not_keyChar {c : Char} (hc : ignoreCase c ∉ keyChars) (l : List Char) :
    secretKeyPattern.next (c :: l) = none := by
  rw [Masker.next_eq_none_iff]
  rintro k v rest ⟨htext, hopens, -, -, -⟩
  rcases hopens with ⟨hkey, -⟩
  rename_i key sep
  cases key with
  | nil => exact hkey.ne_nil rfl
  | cons b key =>
    have hcb : c = b := (List.cons.inj htext).1
    exact hc (hcb ▸ hkey.char b List.mem_cons_self)

theorem IsSeparator.exists_head {sep : List Char} (h : IsSeparator sep) :
    ∃ c s, sep = c :: s ∧ IsSepChar c := by
  rcases h.exists_colon with ⟨c, hc, -⟩
  cases sep with
  | nil => cases hc
  | cons b s => exact ⟨b, s, rfl, h.char b List.mem_cons_self⟩

theorem IsSecretKey.not_sepChar {key : List Char} (h : IsSecretKey key) {a : Char}
    (ha : a ∈ key) : ¬ IsSepChar a :=
  fun hsep => not_keyChar hsep (h.char a ha)

theorem IsSecretKey.value {key : List Char} (h : IsSecretKey key) :
    ∀ a ∈ key, isValueChar a = true :=
  fun a ha => (value_of_keyChar (h.char a ha)).1

/-- A key in front of a separator begins where it begins. -/
theorem fresh_key {key : List Char} {c : Char} (hkey : IsSecretKey key) (hc : IsSepChar c)
    (rest : List Char) : secretKeyPattern.Fresh (key ++ c :: rest) := by
  constructor
  · cases key with
    | nil => exact absurd rfl hkey.ne_nil
    | cons a key =>
      exact ⟨a, _, rfl, hkey.value a List.mem_cons_self⟩
  intro p k hp hopens hbegins
  rcases hopens with ⟨hkey', hsep⟩
  rename_i key' sep
  rcases hbegins with ⟨t, htext⟩
  rw [List.append_assoc] at htext
  have hwhole : ¬ key' = p ++ key := by
    -- no key word ends another one
    rintro rfl
    have hsuffix : key.map ignoreCase <:+ (p ++ key).map ignoreCase := by
      rw [List.map_append]
      exact List.suffix_append _ _
    have heq := congrArg List.length (secretKeys_suffixFree _ hkey _ hkey' hsuffix)
    have hpos : 0 < p.length := List.length_pos_iff.mpr hp
    simp only [List.length_map, List.length_append] at heq
    omega
  rcases List.append_eq_append_iff.mp htext with ⟨x, rfl, hx⟩ | ⟨x, rfl, hx⟩
  · -- the key stands in `p`, and so does the separator
    rcases List.append_eq_append_iff.mp hx with ⟨y, rfl, -⟩ | ⟨y, rfl, hy⟩
    · rw [← List.append_assoc]
      exact List.prefix_append _ _
    · cases y with
      | nil => rw [List.append_nil]
      | cons a y =>
        exfalso
        have ha : IsSepChar a := hsep.char a (by simp)
        cases key with
        | nil => exact hkey.ne_nil rfl
        | cons b key =>
          have hba : b = a := (List.cons.inj hy).1
          exact hkey.not_sepChar List.mem_cons_self (hba ▸ ha)
  · exfalso
    rcases hsep.exists_head with ⟨d, sep, rfl, hd⟩
    rcases List.append_eq_append_iff.mp hx with ⟨y, rfl, hy⟩ | ⟨y, rfl, hy⟩
    · cases y with
      | nil => exact hwhole (by simp)
      | cons b y =>
        have hcb : c = b := (List.cons.inj hy).1
        exact hkey'.not_sepChar (a := b) (by simp) (hcb ▸ hc)
    · cases y with
      | nil => exact hwhole (by simp)
      | cons b y =>
        have hdb : d = b := (List.cons.inj hy).1
        exact hkey.not_sepChar (a := b) (by simp) (hdb ▸ hd)

/-- An opening at the start of a word of letters and digits is the whole word,
with a separator. -/
theorem opening_word {w l k : List Char} {c : Char} (hw : ∀ a ∈ w, a.isAlphanum = true)
    (hc : IsSepChar c) (hk : IsOpening k) (hbegins : k <+: w ++ c :: l) :
    IsSecretKey w ∧ ∃ sep, IsSeparator sep ∧ sep <+: c :: l := by
  rcases hk with ⟨hkey, hsep⟩
  rename_i key sep
  rcases hbegins with ⟨t, htext⟩
  rw [List.append_assoc] at htext
  rcases List.append_eq_append_iff.mp htext with ⟨x, rfl, hx⟩ | ⟨x, rfl, hx⟩
  · cases x with
    | nil =>
      rw [List.append_nil]
      exact ⟨hkey, sep, hsep, t, hx⟩
    | cons b x =>
      exfalso
      rcases hsep.exists_head with ⟨d, sep, rfl, hd⟩
      have hdb : d = b := (List.cons.inj hx).1
      exact (value_of_alnum (hw b (by simp))).2 (hdb ▸ hd)
  · cases x with
    | nil =>
      rw [List.append_nil] at hkey
      exact ⟨hkey, sep, hsep, t, hx.symm⟩
    | cons b x =>
      exfalso
      have hcb : c = b := (List.cons.inj hx).1
      exact hkey.not_sepChar (a := b) (by simp) (hcb ▸ hc)

/-! ## A key, its separator and what follows -/

variable {p key sep : List Char}

theorem mask_hidden (hkey : IsSecretKey key) (hsep : IsSeparator sep)
    (h : (∀ c ∈ sep, isValueChar c = true) ∨ secretKeyPattern.endsOpen p = false) :
    ∃ m, ∀ s q : List Char, s ≠ [] → (∀ a ∈ s, isValueChar a = true) →
      secretKeyPattern.mask (p ++ (key ++ (sep ++ (s ++ q)))) =
        m ++ secretKeyPattern.mask (q.dropWhile isValueChar) := by
  rcases hsep.exists_head with ⟨c, sep', rfl, hc⟩
  have hfresh : ∀ rest, secretKeyPattern.Fresh (key ++ (c :: sep' ++ rest)) :=
    fun rest => fresh_key hkey hc (sep' ++ rest)
  cases hp : secretKeyPattern.endsOpen p with
  | false =>
    -- the pattern starts at the key: the value is masked with the secret
    refine ⟨secretKeyPattern.mask p ++ (key ++ (c :: sep') ++ redacted), fun s q hne hs => ?_⟩
    have hmatch : secretKeyPattern.Match (key ++ (c :: sep' ++ (s ++ q))) (key ++ c :: sep')
        (s ++ q.takeWhile isValueChar) (q.dropWhile isValueChar) := by
      refine ⟨?_, .mk hkey hsep, by simp [hne], ?_, Masker.head?_dropWhile _ _⟩
      · rw [List.append_assoc s, List.takeWhile_append_dropWhile, List.append_assoc]
      · intro a ha
        rcases List.mem_append.mp ha with ha | ha
        · exact hs a ha
        · exact List.all_eq_true.mp List.all_takeWhile a ha
    rw [(hfresh _).mask_append hp, hmatch.mask_eq]
    simp only [List.append_assoc]
    rfl
  | true =>
    -- the pattern started before the key and takes the key for its value
    have hvalues : ∀ a ∈ c :: sep', isValueChar a = true := by
      rcases h with h | h
      · exact h
      · rw [h] at hp
        cases hp
    rcases Masker.mask_append_of_endsOpen hp with ⟨m, hm⟩
    refine ⟨m, fun s q _ hs => ?_⟩
    have hdrop : (key ++ (c :: sep' ++ (s ++ q))).dropWhile isValueChar =
        q.dropWhile isValueChar := by
      rw [List.dropWhile_append_of_pos hkey.value, List.dropWhile_append_of_pos hvalues,
        List.dropWhile_append_of_pos hs]
    rw [hm _ (hfresh _)]
    exact congrArg (m ++ secretKeyPattern.mask ·) hdrop

/-- The value ends in the separator, and what follows is no value any more. -/
theorem mask_shown (hkey : IsSecretKey key) (hsep : IsSeparator sep)
    (h : ¬ ((∀ c ∈ sep, isValueChar c = true) ∨ secretKeyPattern.endsOpen p = false)) :
    ∃ m, ∀ rest : List Char, secretKeyPattern.mask (p ++ (key ++ (sep ++ rest))) =
      m ++ secretKeyPattern.mask rest := by
  rw [not_or, Bool.not_eq_false] at h
  rcases h with ⟨hvalues, hp⟩
  rcases Masker.mask_append_of_endsOpen hp with ⟨m, hm⟩
  refine ⟨m ++ sep.dropWhile isValueChar, fun rest => ?_⟩
  have hfresh : secretKeyPattern.Fresh (key ++ (sep ++ rest)) := by
    rcases hsep.exists_head with ⟨c, sep', rfl, hc⟩
    exact fresh_key hkey hc (sep' ++ rest)
  -- the value that was open ends inside of the separator
  have hdrop : (key ++ (sep ++ rest)).dropWhile isValueChar =
      sep.dropWhile isValueChar ++ rest := by
    have hne : (sep.dropWhile isValueChar).isEmpty ≠ true := by
      intro hempty
      exact hvalues (List.dropWhile_eq_nil_iff.mp (List.isEmpty_iff.mp hempty))
    rw [List.dropWhile_append_of_pos hkey.value, List.dropWhile_append, if_neg hne]
  -- in what is left of the separator no key starts
  have hplain : secretKeyPattern.mask (sep.dropWhile isValueChar ++ rest) =
      sep.dropWhile isValueChar ++ secretKeyPattern.mask rest := by
    refine Masker.mask_append_plain fun q hq hne => ?_
    cases q with
    | nil => exact absurd rfl hne
    | cons a q =>
      have ha : a ∈ sep := (hq.trans (List.dropWhile_suffix _)).mem List.mem_cons_self
      exact next_of_not_keyChar (not_keyChar (hsep.char a ha)) _
  rw [hm _ hfresh]
  show m ++ secretKeyPattern.mask ((key ++ (sep ++ rest)).dropWhile isValueChar) = _
  rw [hdrop, hplain, List.append_assoc]

/-! ## The header -/

/-- A space and a letter or digit after it do not make a separator. -/
theorem not_separator_space {a : Char} (ha : a.isAlphanum = true) {sep l : List Char}
    (hsep : IsSeparator sep) (hbegins : sep <+: ' ' :: a :: l) : False := by
  rcases hsep.exists_colon with ⟨c, hc, hcolon⟩
  rcases hbegins with ⟨t, htext⟩
  cases sep with
  | nil => cases hc
  | cons b sep =>
    rcases List.cons.inj htext with ⟨rfl, htail⟩
    cases sep with
    | nil =>
      rw [List.mem_singleton.mp hc] at hcolon
      exact absurd hcolon (by decide)
    | cons d sep =>
      have hda : d = a := (List.cons.inj htail).1
      exact (value_of_alnum ha).2 (hda ▸ hsep.char d (by simp))

/-- A word that no key word ends, and a colon, are left as they are. -/
theorem mask_word {w l : List Char} {c : Char} (hw : ∀ a ∈ w, a.isAlphanum = true)
    (hc : IsSepChar c)
    (h : ∀ key sep, IsSecretKey key → key <:+ w → IsSeparator sep → ¬ sep <+: c :: l) :
    secretKeyPattern.mask (w ++ c :: l) = w ++ c :: secretKeyPattern.mask l := by
  rw [Masker.mask_append_plain, Masker.mask_plain (next_of_not_keyChar (not_keyChar hc) l)]
  intro q hq hne
  rw [Masker.next_eq_none_iff]
  intro k v rest hmatch
  have hbegins : k <+: q ++ c :: l := ⟨v ++ rest, hmatch.text.symm⟩
  rcases opening_word (fun a ha => hw a (hq.mem ha)) hc hmatch.opens hbegins with
    ⟨hkey, sep, hsep, hsepBegins⟩
  exact h q sep hkey hq hsep hsepBegins

/-- Of the header, the word `token` is hidden or the separator has ended the
value before; the API key and the secret follow. -/
theorem mask_header (hkey : IsSecretKey key) (hsep : IsSeparator sep) :
    ∃ m, ∀ w q : List Char, w ≠ [] → (∀ a ∈ w, a.isAlphanum = true) →
      secretKeyPattern.mask (p ++ (key ++ (sep ++ ("token".toList ++ (' ' :: w ++ q))))) =
        m ++ secretKeyPattern.mask (w ++ q) := by
  have hplain : ∀ l, secretKeyPattern.mask (' ' :: l) = ' ' :: secretKeyPattern.mask l :=
    fun l => Masker.mask_plain (next_of_not_keyChar (by decide) l)
  by_cases h : (∀ c ∈ sep, isValueChar c = true) ∨ secretKeyPattern.endsOpen p = false
  · rcases mask_hidden hkey hsep h with ⟨m, hm⟩
    refine ⟨m ++ [' '], fun w q _ _ => ?_⟩
    have hdrop : (' ' :: w ++ q).dropWhile isValueChar = ' ' :: (w ++ q) := rfl
    rw [hm "token".toList (' ' :: w ++ q) (by decide) (List.all_eq_true.mp rfl), hdrop, hplain,
      List.append_assoc]
    rfl
  · rcases mask_shown hkey hsep h with ⟨m, hm⟩
    refine ⟨m ++ ("token".toList ++ [' ']), fun w q hne hw => ?_⟩
    rw [hm]
    cases w with
    | nil => exact absurd rfl hne
    | cons a w =>
      have htoken := mask_word (w := "token".toList) (l := a :: (w ++ q))
        (List.all_eq_true.mp (by decide))
        (.inr (.inl (by decide))) fun key sep _ _ hsep hbegins =>
          not_separator_space (hw a List.mem_cons_self) hsep hbegins
      show m ++ secretKeyPattern.mask ("token".toList ++ ' ' :: (a :: (w ++ q))) = _
      rw [htoken]
      simp

/-- A colon with a quote before and spaces and a quote after it. -/
theorem isSeparator_colon {before spaces after : List Char} (hbefore : MaybeQuote before)
    (hspaces : ∀ a ∈ spaces, isPySpace a = true) (hafter : MaybeQuote after) :
    IsSeparator (before ++ ':' :: spaces ++ after) := by
  have h := IsSeparator.mk (s := []) (c := ':') hbefore (List.forall_mem_nil _) (.inl rfl)
    hspaces hafter
  rw [List.append_nil] at h
  exact h

/-- Two secrets that are left as they are. -/
theorem digits_shown (q : List Char) :
    secretKeyPattern.mask ("0".toList ++ q) ≠ secretKeyPattern.mask ("1".toList ++ q) := by
  have hdigit : ∀ c ∈ ['0', '1'], ∀ l,
      secretKeyPattern.mask (c :: l) = c :: secretKeyPattern.mask l := by
    intro c hc l
    have hall : (['0', '1'].all fun c => !keyChars.contains (ignoreCase c)) = true := by decide
    have hkey := List.all_eq_true.mp hall c hc
    exact Masker.mask_plain (next_of_not_keyChar (by simpa using hkey) l)
  intro h
  have hdigits : secretKeyPattern.mask ('0' :: q) = secretKeyPattern.mask ('1' :: q) := h
  rw [hdigit '0' (by simp), hdigit '1' (by simp)] at hdigits
  exact absurd (List.cons.inj hdigits).1 (by decide)

theorem Alnum.value (secret : Alnum) : ∀ a ∈ secret.text.toList, isValueChar a = true :=
  fun a ha => (value_of_alnum (secret.char a ha)).1

theorem header_hidden_iff (hkey : IsSecretKey key) (hsep : IsSeparator sep) (apiKey : Alnum)
    (q : List Char) :
    (∀ secret secret' : Alnum,
      secretKeyPattern.mask (p ++ (key ++ (sep ++ ("token".toList ++
        (' ' :: apiKey.text.toList ++ ':' :: (secret.text.toList ++ q)))))) =
      secretKeyPattern.mask (p ++ (key ++ (sep ++ ("token".toList ++
        (' ' :: apiKey.text.toList ++ ':' :: (secret'.text.toList ++ q))))))) ↔
      EndsInKey apiKey.text := by
  rcases mask_header (p := p) hkey hsep with ⟨m, hm⟩
  have hheader := fun secret : Alnum =>
    hm apiKey.text.toList (':' :: (secret.text.toList ++ q)) apiKey.nonempty apiKey.char
  constructor
  · intro h
    -- the key shows a word that ends in no key: then the secret is shown
    by_contra hnot
    have hword : ∀ l, secretKeyPattern.mask (apiKey.text.toList ++ ':' :: l) =
        apiKey.text.toList ++ ':' :: secretKeyPattern.mask l := fun l =>
      mask_word apiKey.char (.inr (.inr (.inl rfl)))
        fun key' sep' hkey' hsuffix _ _ => hnot ⟨key', hkey', hsuffix⟩
    have heq := h ⟨"0", by decide, by decide⟩ ⟨"1", by decide, by decide⟩
    rw [hheader, hheader] at heq
    have htail := List.append_cancel_left heq
    rw [hword, hword] at htail
    exact digits_shown q (List.cons.inj (List.append_cancel_left htail)).2
  · rintro ⟨key', hkey', x, hx⟩ secret secret'
    rw [hheader, hheader, ← hx]
    -- the colon behind such a word opens a value
    have hcolon : IsSeparator [':'] :=
      isSeparator_colon (.inl rfl) (List.forall_mem_nil _) (.inl rfl)
    rcases mask_hidden (p := x) hkey' hcolon (.inl (List.forall_mem_singleton.mpr rfl)) with
      ⟨m', hm'⟩
    have hsame := (hm' _ q secret.nonempty secret.value).trans
      (hm' _ q secret'.nonempty secret'.value).symm
    simpa using hsame

/-! ## All forms -/

theorem redact_eq_iff {s t : String} :
    redact s = redact t ↔
      secretKeyPattern.mask s.toList = secretKeyPattern.mask t.toList := by
  constructor
  · intro h
    have hlists := congrArg String.toList h
    rw [redact, redact, String.toList_ofList, String.toList_ofList] at hlists
    exact hlists
  · intro h
    rw [redact, redact, h]

theorem keyValue_hidden_iff (hkey : IsSecretKey key) (hsep : IsSeparator sep) (q : List Char) :
    (∀ secret secret' : Alnum,
      secretKeyPattern.mask (p ++ (key ++ (sep ++ (secret.text.toList ++ q)))) =
        secretKeyPattern.mask (p ++ (key ++ (sep ++ (secret'.text.toList ++ q))))) ↔
      (∀ c ∈ sep, isValueChar c = true) ∨ secretKeyPattern.endsOpen p = false := by
  constructor
  · intro h
    by_contra hnot
    rcases mask_shown hkey hsep hnot with ⟨m, hm⟩
    have heq := h ⟨"0", by decide, by decide⟩ ⟨"1", by decide, by decide⟩
    rw [hm, hm] at heq
    exact digits_shown q (List.append_cancel_left heq)
  · intro h secret secret'
    rcases mask_hidden hkey hsep h with ⟨m, hm⟩
    rw [hm _ q secret.nonempty secret.value, hm _ q secret'.nonempty secret'.value]

/-- The secret is hidden in the header exactly if the API key ends in a key
word, and after a key exactly if no value from before ends at the separator. -/
theorem credentials_hidden_iff (form : CredentialForm) (apiKey : Alnum) (u v : String) :
    (∀ secret secret' : Alnum, redact (u ++ form.text apiKey.text secret.text ++ v) =
      redact (u ++ form.text apiKey.text secret'.text ++ v)) ↔ form.Hidden apiKey.text u := by
  have hauthorization : IsSecretKey "Authorization".toList := by decide
  cases form with
  | headerLine =>
    have hsep : IsSeparator ": ".toList := by
      show IsSeparator ([] ++ ':' :: [' '] ++ [])
      exact isSeparator_colon (.inl rfl) (List.forall_mem_singleton.mpr rfl) (.inl rfl)
    simp only [redact_eq_iff, toList_headerLine]
    exact header_hidden_iff hauthorization hsep apiKey v.toList
  | headersRepr =>
    have hsep : IsSeparator "': '".toList := by
      show IsSeparator (['\''] ++ ':' :: [' '] ++ ['\''])
      exact isSeparator_colon (.inr ⟨_, rfl, rfl⟩) (List.forall_mem_singleton.mpr rfl)
        (.inr ⟨_, rfl, rfl⟩)
    simp only [redact_eq_iff, toList_headersRepr]
    exact header_hidden_iff hauthorization hsep apiKey _
  | keyValue form =>
    simp only [redact_eq_iff, toList_keyValue]
    exact keyValue_hidden_iff form.hkey form.hsep _

/-- Only the word `token` is taken for the value of the header. -/
theorem credentials_shown :
    redact (CredentialForm.headerLine.text "3f2a" "s3cret") =
        "Authorization: ***REDACTED*** 3f2a:s3cret" ∧
      redact (CredentialForm.headersRepr.text "3f2a" "s3cret") =
        "\x7b'Authorization': '***REDACTED*** 3f2a:s3cret', 'Content-Type': 'application/json'\x7d" ∧
      ¬ ∀ (form : CredentialForm) (apiKey secret secret' : Alnum) (u v : String),
        redact (u ++ form.text apiKey.text secret.text ++ v) =
          redact (u ++ form.text apiKey.text secret'.text ++ v) := by
  refine ⟨by decide, by decide, fun h => ?_⟩
  have heq := h .headerLine ⟨"3f2a", by decide, by decide⟩ ⟨"s3cret", by decide, by decide⟩
    ⟨"hunter2", by decide, by decide⟩ "" ""
  exact absurd heq (by decide)

end TallyConnector
