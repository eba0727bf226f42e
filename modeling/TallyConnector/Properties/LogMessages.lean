import TallyConnector.Properties.MessageParts

/-! # Log messages after redaction

Formatting a redacted record gives the redacted message, up to the room of the
placeholders, where its parts are redacted on their own
(`getMessage_redacted`). A match that reaches across the parts breaks the
record or shows what it should hide: the template may lose a conversion, a
dictionary turns into a tuple of its keys, and a key and its value, or an object
that is no string, pass the filter as they are.
-/

namespace TallyConnector

open Masking

variable {ω : Type} (shows : Shows ω)

/-! ## What the filter is for -/

/-- The record still formats, and a value that redaction takes out of `text`
does not stand in the message unless it also stands in `text` outside the
matches. -/
def LogRecord.Conceals (record : LogRecord ω) (text : String) : Prop :=
  ∃ message, record.getMessage shows = some message ∧
    ∀ v ∈ secretKeyPattern.values text.toList, v <:+: message.toList →
      secretKeyPattern.Outside v text.toList

/-- No value of a match stands in the rest of a match, its key with the
separator and the placeholder, and in what leads up to it, unless it also stands
outside the matches. -/
def Distinctive (text : String) : Prop :=
  ∀ v ∈ secretKeyPattern.values text.toList, secretKeyPattern.Leads v text.toList →
    secretKeyPattern.Outside v text.toList

/-! ## The redacted message -/

variable {shows}

theorem messageParts_redacted {record : LogRecord ω} (h : record.args.iter ≠ []) :
    (redactionFilter shows.str record).messageParts shows =
      (parseTemplate (redact (record.msg.text shows.str)).toList).bind fun parts =>
        renderParts shows none parts (record.args.iter.map PyObject.redacted) := by
  rcases record with ⟨levelno, msg, args⟩
  cases args with
  | tuple args =>
    cases args with
    | nil => exact absurd rfl h
    | cons arg args => rfl
  | dict o items =>
    cases items with
    | nil => exact absurd rfl h
    | cons item items => rfl

/-- What the redacted record shows if its template keeps its conversions. -/
theorem getMessage_redacted_cells {record : LogRecord ω} {parts : List TemplatePart}
    {args : List (PyObject ω)} {cells : List (Cell ω)} (hargs : record.args = .tuple args)
    (hne : args ≠ [])
    (hparse : parseTemplate (record.msg.text shows.str).toList = some parts)
    (htemplate : secretKeyPattern.pieces (parts.flatMap TemplatePart.chars) =
      parts.flatMap TemplatePart.pieces)
    (hfill : fillParts shows none parts args = some cells) :
    (redactionFilter shows.str record).getMessage shows =
      (showCells shows (cells.map Cell.redacted)).map fun texts => String.ofList texts.flatten := by
  have hiter : record.args.iter = args := by
    rw [hargs]
    rfl
  have hparse' : parseTemplate (redact (record.msg.text shows.str)).toList =
      some (parts.map TemplatePart.masked) := by
    rw [redact, String.toList_ofList]
    exact parse_redacted hparse htemplate
  rw [LogRecord.getMessage, messageParts_redacted (hiter ▸ hne), hparse', Option.bind_some,
    renderParts, hiter, fillParts_redacted, hfill]
  rfl

/-- A record that formats, by its cells. -/
theorem cells_of_getMessage {record : LogRecord ω} {args : List (PyObject ω)} {text : String}
    (hargs : record.args = .tuple args) (hne : args ≠ [])
    (htext : record.getMessage shows = some text) :
    ∃ parts cells, parseTemplate (record.msg.text shows.str).toList = some parts ∧
      fillParts shows none parts args = some cells ∧
      (∀ cell ∈ cells, cell.shown shows = some (cell.display shows)) ∧
      text.toList = cells.flatMap (Cell.display shows) := by
  rcases record with ⟨levelno, msg, args'⟩
  cases hargs
  cases args with
  | nil => exact absurd rfl hne
  | cons arg args =>
    rcases Option.map_eq_some_iff.mp htext with ⟨texts, htexts, rfl⟩
    rcases Option.bind_eq_some_iff.mp htexts with ⟨parts, hparse, hrender⟩
    rcases Option.bind_eq_some_iff.mp hrender with ⟨cells, hfill, hshow⟩
    obtain ⟨rfl, hshown⟩ := showCells_eq_some.mp hshow
    refine ⟨parts, cells, hparse, hfill, hshown, ?_⟩
    rw [String.toList_ofList, List.flatMap_def]

/-- The message of a record that has nothing to format. -/
theorem getMessage_redacted_nil {record : LogRecord ω} {text : String}
    (hargs : record.args = .tuple [] ∨ ∃ o, record.args = .dict o [])
    (htext : record.getMessage shows = some text) :
    (redactionFilter shows.str record).getMessage shows = some (redact text) := by
  rcases record with ⟨levelno, msg, args⟩
  have hmsg : some (String.ofList [(msg.text shows.str).toList].flatten) = some text := by
    rcases hargs with hargs | ⟨o, hargs⟩ <;> cases hargs <;> exact htext
  have hredacted : (redactionFilter shows.str ⟨levelno, msg, args⟩).getMessage shows =
      some (String.ofList [(redact (msg.text shows.str)).toList].flatten) := by
    rcases hargs with hargs | ⟨o, hargs⟩ <;> cases hargs <;> rfl
  rw [List.flatten_singleton, String.ofList_toList] at hmsg hredacted
  rw [hredacted, ← Option.some.inj hmsg]

/-- Where the parts are redacted on their own, formatting the redacted record
gives the redacted message, up to the room of the placeholders. -/
theorem getMessage_redacted {record : LogRecord ω} {text : String}
    (htext : record.getMessage shows = some text) (h : record.Apart shows) :
    ∃ message, (redactionFilter shows.str record).getMessage shows = some message ∧
      Words.Thins isValueChar false (redact text).toList message.toList ∧
      (record.Unsized shows → message = redact text) := by
  have hsame : ∀ t : List Char, Words.Thins isValueChar false t t := fun t => by
    have hkeep : Words.Thins isValueChar false (t ++ []) (t ++ []) := .keepAll .nil
    simpa using hkeep
  rcases hargs : record.args with args | ⟨o, items⟩
  · cases args with
    | nil =>
      -- a message without arguments is not formatted
      exact ⟨_, getMessage_redacted_nil (.inl hargs) htext, hsame _, fun _ => rfl⟩
    | cons arg args =>
      obtain ⟨parts, cells, hparse, hfill, hshown, hcells⟩ :=
        cells_of_getMessage hargs (List.cons_ne_nil arg args) htext
      have happart : PartsApart shows parts cells := by
        unfold LogRecord.Apart at h
        rw [hargs] at h
        exact h parts cells hparse hfill
      -- redacting the text is redacting what each cell shows
      have hmask : (redact text).toList =
          cells.flatMap fun cell => secretKeyPattern.mask (cell.display shows) := by
        rw [redact, String.toList_ofList, hcells, Masker.mask, happart.message,
          List.flatMap_assoc]
        rfl
      have hmessage := getMessage_redacted_cells hargs (List.cons_ne_nil arg args) hparse
        happart.template hfill
      have hshow : showCells shows (cells.map Cell.redacted) =
          some (cells.map fun cell => cell.redacted.display shows) := by
        refine showCells_eq_some.mpr ⟨by rw [List.map_map]; rfl, fun redacted hredacted => ?_⟩
        obtain ⟨cell, hmem, rfl⟩ := List.mem_map.mp hredacted
        exact (happart.sound cell hmem).shown_redacted (hshown cell hmem)
      rw [hshow, Option.map_some, ← List.flatMap_def] at hmessage
      -- the message is thinner at most: padding is made anew, and precision cuts
      refine ⟨_, hmessage, ?_, fun hunsized => ?_⟩
      · rw [String.toList_ofList, hmask]
        exact thins_cells happart.sound hshown happart.unglued Bool.noConfusion
      · -- nothing is padded or cut, so the message is the redacted text
        rw [← String.ofList_toList (s := redact text), hmask]
        refine congrArg String.ofList (List.flatMap_congr fun cell hmem => ?_)
        have hsound := happart.sound cell hmem
        by_cases hredacts : cell.Redacts shows
        · obtain ⟨flags, width, precision, t, hframed⟩ := hsound.framed hredacts
          obtain ⟨conv, arg, rfl⟩ := hframed.field
          have hfill' : fillParts shows none parts record.args.iter = some cells := by
            rw [hargs]
            exact hfill
          obtain ⟨rfl, rfl⟩ := hunsized parts cells hparse hfill' _ _ _ _ hmem hredacts
          rw [hframed.display_redacted, hframed.display, mask_padField]
          simp [padField, padding, cutField]
        · rw [Cell.display, (hsound.quiet (hshown cell hmem) hredacts).1]
          rfl
  · -- a mapping that is no text has nothing to redact
    have hnil : items = [] := by
      unfold LogRecord.Apart at h
      rw [hargs] at h
      exact h
    subst hnil
    exact ⟨_, getMessage_redacted_nil (.inr ⟨o, hargs⟩) htext, hsame _, fun _ => rfl⟩

/-! ## Messages that break -/

/-- A conversion with a key needs the dictionary. -/
theorem fillParts_of_key {parts : List TemplatePart} {raw : List Char} {conv : Conversion}
    (hmem : .conversion raw conv ∈ parts) (hkey : conv.key.isSome = true)
    (args : List (PyObject ω)) : fillParts shows none parts args = none := by
  induction parts generalizing args with
  | nil => cases hmem
  | cons part parts ih =>
    rw [Option.eq_none_iff_forall_ne_some]
    intro cells h
    rcases List.mem_cons.mp hmem with rfl | htail
    · rw [(fillParts_conversion.mp h).1] at hkey
      cases hkey
    · cases part with
      | text t =>
        rw [fillParts, ih htail] at h
        cases h
      | conversion raw' conv' =>
        rcases fillParts_conversion.mp h with ⟨-, cell, rest, cells', -, hcells, -⟩
        rw [ih htail] at hcells
        cases hcells

variable (shows) in
/-- The redacted record cannot be formatted, or shows what it should hide. -/
inductive LogRecord.Breaks (record : LogRecord ω) (text : String) : Prop
  /-- The redacted template does not take all the arguments. -/
  | count (hargs : record.args.iter ≠ [])
      (h : ∀ parts, parseTemplate (redact (record.msg.text shows.str)).toList = some parts →
        arity parts ≠ record.args.iter.length)
  /-- A conversion looks for a key, and the dictionary is gone. -/
  | key {parts : List TemplatePart} {raw : List Char} {conv : Conversion}
      (hargs : record.args.iter ≠ [])
      (hparse : parseTemplate (redact (record.msg.text shows.str)).toList = some parts)
      (hmem : .conversion raw conv ∈ parts) (hkey : conv.key.isSome = true)
  /-- A part of the template or an argument that the filter leaves alone shows a
  value. -/
  | shown {parts : List TemplatePart} {args : List (PyObject ω)} {cells : List (Cell ω)}
      {cell : Cell ω} {v : List Char} (hargs : record.args = .tuple args) (hne : args ≠ [])
      (hparse : parseTemplate (record.msg.text shows.str).toList = some parts)
      (htemplate : secretKeyPattern.pieces (parts.flatMap TemplatePart.chars) =
        parts.flatMap TemplatePart.pieces)
      (hfill : fillParts shows none parts args = some cells) (hmem : cell ∈ cells)
      (hsame : cell.redacted = cell) (hvalue : v ∈ secretKeyPattern.values text.toList)
      (hout : ¬ secretKeyPattern.Outside v text.toList) (hin : v <:+: cell.display shows)

theorem not_conceals_of_breaks {record : LogRecord ω} {text : String}
    (h : record.Breaks shows text) :
    ¬ (redactionFilter shows.str record).Conceals shows text := by
  rintro ⟨message, hmessage, hvalues⟩
  cases h with
  | count hargs h =>
    rcases Option.map_eq_some_iff.mp hmessage with ⟨texts, htexts, rfl⟩
    rw [messageParts_redacted hargs] at htexts
    rcases Option.bind_eq_some_iff.mp htexts with ⟨parts, hparse, hrender⟩
    rcases Option.bind_eq_some_iff.mp hrender with ⟨cells, hfill, -⟩
    refine h parts hparse ?_
    rw [← length_of_fillParts hfill, List.length_map]
  | key hargs hparse hmem hkey =>
    rcases Option.map_eq_some_iff.mp hmessage with ⟨texts, htexts, rfl⟩
    rw [messageParts_redacted hargs, hparse, Option.bind_some, renderParts,
      fillParts_of_key hmem hkey] at htexts
    cases htexts
  | @shown parts args cells cell v hargs hne hparse htemplate hfill hmem hsame hvalue hout hin =>
    rw [getMessage_redacted_cells hargs hne hparse htemplate hfill] at hmessage
    rcases Option.map_eq_some_iff.mp hmessage with ⟨texts, htexts, rfl⟩
    obtain ⟨rfl, -⟩ := showCells_eq_some.mp htexts
    -- the cell is still among the cells of the message
    have hcell : cell.display shows ∈ (cells.map Cell.redacted).map (Cell.display shows) :=
      List.mem_map_of_mem (List.mem_map.mpr ⟨cell, hmem, hsame⟩)
    refine hout (hvalues v hvalue ?_)
    rw [String.toList_ofList]
    exact hin.trans (List.infix_of_mem_flatten hcell)

/-! ## When the filter keeps its promise -/

/-- Objects that are texts. -/
def textShows : Shows String where
  str := id
  repr := id
  ascii := id
  printable := fun _ => false
  int := fun _ => none
  number := fun _ _ _ _ _ => none

/-- The redacted password takes the room of the spaces before it. -/
def loginRecord : LogRecord String where
  levelno := 20
  msg := .str "login of %s with token=3f2a%%: %20s"
  args := .tuple [.str "sync", .str "password: s3cret"]

def plainString : Conversion := { type := 's' }

def wideString : Conversion := { type := 's', width := .digits ['2', '0'] }

def loginParts : List TemplatePart :=
  [.text "login of ".toList, .conversion ['s'] plainString, .text " with token=3f2a%: ".toList,
    .conversion ['2', '0', 's'] wideString]

def loginCells : List (Cell String) :=
  [.text "login of ".toList, .field plainString none none (.str "sync"),
    .text " with token=3f2a%: ".toList, .field wideString (some 20) none (.str "password: s3cret")]

theorem loginRecord_apart : loginRecord.Apart textShows := by
  intro parts cells hparse hfill
  have hparts : parseTemplate "login of %s with token=3f2a%%: %20s".toList = some loginParts := by
    decide
  obtain rfl : parts = loginParts := Option.some.inj (hparse.symm.trans hparts)
  obtain rfl : cells = loginCells := (Option.some.inj hfill).symm
  refine ⟨by decide, by decide, ?_, ?_⟩
  · intro cell hmem
    simp only [loginCells, List.mem_cons, List.not_mem_nil, or_false] at hmem
    rcases hmem with rfl | rfl | rfl | rfl
    · exact .text _
    · exact .whole (.inl rfl) nofun
    · exact .text _
    · exact .whole (.inl rfl) nofun
  · refine ⟨trivial, fun hredacts => absurd rfl hredacts.1, trivial, fun _ => ⟨fun _ _ => ?_, ?_⟩,
      trivial⟩
    · have hends : Words.ends isValueChar false
          "login of sync with token=3f2a%: ".toList = false := by decide
      exact fun htrue => Bool.noConfusion (hends.symm.trans htrue)
    · exact fun hlt => absurd hlt (by decide)

/-- The message of a record, and after the filter. -/
def messages (msg : String) (args : LogArgs String) : Option String × Option String :=
  let record : LogRecord String := { levelno := 20, msg := .str msg, args := args }
  (record.getMessage textShows, (redactionFilter textShows.str record).getMessage textShows)

end TallyConnector
