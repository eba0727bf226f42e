import TallyConnector.Tally.References

/-! # Control characters in responses

`tally/xml_parser.py` promises that "a single bad byte doesn't fail an entire
response": the stray low control characters are stripped before parsing.

The substitution never takes out anything else (`scrub_deletes`), but its
pattern knows the shortest decimal references only. It is complete on the
responses in which every stray control character is written that way, also
after the references between its bytes have gone (`scrub_complete`).
-/

namespace TallyConnector

open Deletion Relation

/-! ## What scrubbing is for -/

/-- The substitution at the start of `parse_collection_response` does to these
bytes what it is there for. -/
structure Scrubbed (xmlBytes : Bytes) : Prop where
  /-- No stray control character remains, in any spelling. -/
  clean : Clean Stray (scrubControlChars 0 xmlBytes)
  idempotent : scrubControlChars 0 (scrubControlChars 0 xmlBytes) = scrubControlChars 0 xmlBytes
  /-- All that is not a stray control character survives, in its order. -/
  precise : Deletes Stray xmlBytes (scrubControlChars 0 xmlBytes)
  /-- The references to other characters survive. -/
  keeps : ∀ s n, Reference s n → ¬ Forbidden n → s <:+: xmlBytes →
    s <:+: scrubControlChars 0 xmlBytes
  /-- If taking out the stray control characters makes a document of the
  response, it parses. -/
  parses : ∀ (fromstring : Bytes → Except String Element) (spec : EntitySpec)
    (cleaned : Bytes) (root : Element), ReflTransGen (Step Stray) xmlBytes cleaned →
    Clean Stray cleaned → fromstring cleaned = .ok root →
    ∃ records, parseCollectionResponse fromstring xmlBytes spec = .ok records

/-- Every stretch that spells a stray control character, maybe with references
that the pattern matches between its bytes, is itself such a reference. -/
def KnownStrays (xmlBytes : Bytes) : Prop :=
  ∀ pre w post s, xmlBytes = pre ++ w ++ post → Spells Fullmatch w s → Stray s → Fullmatch w

/-! ## What the substitution does to every response -/

/-- The substitution takes out nothing but stray control characters. -/
theorem scrub_deletes (xmlBytes : Bytes) : Deletes Stray xmlBytes (scrubControlChars 0 xmlBytes) :=
  (scrub_sweeps xmlBytes).deletes.mono fun _ => Fullmatch.stray

theorem scrub_keeps {xmlBytes s : Bytes} {n : Nat} (href : Reference s n) (hn : ¬ Forbidden n)
    (h : s <:+: xmlBytes) : s <:+: scrubControlChars 0 xmlBytes := by
  rcases h with ⟨pre, post, rfl⟩
  have hne : s ≠ [] := fun hnil => token_separated.nonempty (hnil ▸ href.token)
  exact (scrub_sweeps _).infix_of_spells token_separated (fun _ hs => hs.stray.token) href.token
    (.refl hne) fun hfull => href.not_stray hn hfull.stray

theorem scrub_clean_iff (xmlBytes : Bytes) :
    Clean Stray (scrubControlChars 0 xmlBytes) ↔ KnownStrays xmlBytes :=
  sweeps_clean_iff stray_separated (fun _ => Fullmatch.stray) (scrub_sweeps xmlBytes)

/-! ## What follows where no stray character remains -/

/-- The substitution leaves clean bytes alone. -/
theorem scrub_eq_of_clean {xmlBytes : Bytes} (h : Clean Stray xmlBytes) :
    scrubControlChars 0 xmlBytes = xmlBytes :=
  h.eq_of_steps (scrub_deletes xmlBytes).steps

theorem parses_of_clean {fromstring : Bytes → Except String Element} {spec : EntitySpec}
    {xmlBytes cleaned : Bytes} {root : Element} (h : Clean Stray (scrubControlChars 0 xmlBytes))
    (hsteps : ReflTransGen (Step Stray) xmlBytes cleaned) (hclean : Clean Stray cleaned)
    (hroot : fromstring cleaned = .ok root) :
    ∃ records, parseCollectionResponse fromstring xmlBytes spec = .ok records := by
  have heq : scrubControlChars 0 xmlBytes = cleaned :=
    stray_separated.clean_unique (scrub_deletes xmlBytes).steps hsteps h hclean
  refine ⟨(root.findallBelow (rowTag spec)).map (parseRow spec), ?_⟩
  simp only [parseCollectionResponse, heq, hroot]

/-- Scrubbing is complete and precise exactly on the responses whose stray
control characters are references that the pattern matches. -/
theorem scrub_complete (xmlBytes : Bytes) : Scrubbed xmlBytes ↔ KnownStrays xmlBytes := by
  constructor
  · intro h
    exact (scrub_clean_iff xmlBytes).mp h.clean
  · intro h
    have hclean := (scrub_clean_iff xmlBytes).mpr h
    exact {
      clean := hclean
      idempotent := scrub_eq_of_clean hclean
      precise := scrub_deletes xmlBytes
      keeps := fun s n href hn hin => scrub_keeps href hn hin
      parses := fun _ _ _ _ => parses_of_clean hclean
    }

/-! ## Strays that the pattern does not know -/

/-- An element around its text. -/
def element (text : Bytes) : Bytes :=
  [0x3C, 0x41, 0x3E] ++ text ++ [0x3C, 0x2F, 0x41, 0x3E]

theorem not_scrubbed {xmlBytes s : Bytes} (h : scrubControlChars 0 xmlBytes = element s)
    (hs : Stray s) : ¬ Scrubbed xmlBytes :=
  fun hscrubbed => hscrubbed.clean s ⟨_, _, h.symm⟩ hs

/-- The byte 4 itself, `&#x4;`, `&#04;`, and `&#&#4;5;`, where the removal of
`&#4;` forms `&#5;`. -/
theorem scrub_incomplete :
    ¬ Scrubbed (element [0x04]) ∧
      ¬ Scrubbed (element (reference [0x78, 0x34])) ∧
      ¬ Scrubbed (element (reference [0x30, 0x34])) ∧
      ¬ Scrubbed (element ([0x26, 0x23] ++ reference [0x34] ++ [0x35, 0x3B])) := by
  have hhex : Stray (reference [0x78, 0x34]) :=
    ⟨4, .reference (.hexadecimal (List.cons_ne_nil 0x34 [])
      (List.forall_mem_singleton.mpr (by decide))), by decide⟩
  have hzero : Stray (reference [0x30, 0x34]) :=
    ⟨4, .reference (.decimal (List.cons_ne_nil 0x30 [0x34])
      (List.forall_mem_cons.mpr ⟨by decide, List.forall_mem_singleton.mpr (by decide)⟩)),
      by decide⟩
  have hfive : Stray (reference [0x35]) :=
    ⟨5, .reference (.decimal (List.cons_ne_nil 0x35 [])
      (List.forall_mem_singleton.mpr (by decide))), by decide⟩
  refine ⟨?_, ?_, ?_, ?_⟩
  · exact not_scrubbed (s := [0x04]) (by decide) ⟨4, .raw 4, by decide⟩
  · exact not_scrubbed (by decide) hhex
  · exact not_scrubbed (by decide) hzero
  · exact not_scrubbed (by decide) hfive

end TallyConnector
