import TallyConnector.Calls

/-! # The Frappe site's documents

What the connector assumes of Frappe: a GET returns the documents whose
fields have the given values, a POST creates a document with exactly the
given fields under a fresh name, a PUT overwrites the fields in its body and
keeps all others.
-/

namespace TallyConnector

structure Doc where
  doctype : String
  name : String
  fields : Dict
deriving DecidableEq

namespace Doc

/-- The document has, for every key of the payload, the payload's value. -/
def Holds (doc : Doc) (payload : Dict) : Prop :=
  ∀ field value, payload.lookup field = some value → doc.fields.lookup field = some value

/-- The document's fields after a PUT of the payload. -/
def merge (payload : Dict) (doc : Doc) : Doc := { doc with fields := payload ∪ doc.fields }

@[simp] theorem merge_doctype (payload : Dict) (doc : Doc) :
    (doc.merge payload).doctype = doc.doctype := rfl

@[simp] theorem merge_name (payload : Dict) (doc : Doc) :
    (doc.merge payload).name = doc.name := rfl

theorem lookup_merge (payload : Dict) (doc : Doc) (field : String) :
    (doc.merge payload).fields.lookup field =
      (payload.lookup field).or (doc.fields.lookup field) := by
  unfold merge
  by_cases hmem : field ∈ payload
  · obtain ⟨value, hvalue⟩ := Finmap.mem_iff.mp hmem
    rw [Finmap.lookup_union_left hmem, hvalue]
    rfl
  · rw [Finmap.lookup_union_right hmem, Finmap.lookup_eq_none.mpr hmem]
    rfl

theorem holds_merge (payload : Dict) (doc : Doc) : (doc.merge payload).Holds payload := by
  intro field value hvalue
  rw [lookup_merge, hvalue]
  rfl

/-- A PUT that is repeated changes nothing more. -/
theorem merge_merge (payload : Dict) (doc : Doc) :
    (doc.merge payload).merge payload = doc.merge payload := by
  have hfields : ((doc.merge payload).merge payload).fields = (doc.merge payload).fields := by
    refine Finmap.ext_lookup fun field => ?_
    rw [lookup_merge, lookup_merge]
    cases payload.lookup field <;> rfl
  simpa [merge] using hfields

end Doc

/-- The documents a GET with these filters returns. -/
def matching (docs : List Doc) (doctype : String) (filters : List (String × Json)) : List Doc :=
  docs.filter fun doc =>
    doc.doctype == doctype && filters.all fun f => doc.fields.lookup f.1 == some f.2

/-- The documents carrying a value in a field. -/
def carriers (docs : List Doc) (doctype field : String) (value : Json) : List Doc :=
  matching docs doctype [(field, value)]

theorem mem_carriers {docs : List Doc} {doctype field : String} {value : Json} {doc : Doc} :
    doc ∈ carriers docs doctype field value ↔
      doc ∈ docs ∧ doc.doctype = doctype ∧ doc.fields.lookup field = some value := by
  simp [carriers, matching]

/-- A name no document of the doctype has. -/
def FreshName (docs : List Doc) (doctype name : String) : Prop :=
  name ≠ "" ∧ ∀ doc ∈ docs, doc.doctype = doctype → doc.name ≠ name

instance (docs : List Doc) (doctype name : String) : Decidable (FreshName docs doctype name) :=
  inferInstanceAs (Decidable (_ ∧ _))

/-- `POST /api/resource/<doctype>` -/
def postDoc (docs : List Doc) (doctype name : String) (payload : Dict) : List Doc :=
  ⟨doctype, name, payload⟩ :: docs

/-- `PUT /api/resource/<doctype>/<name>` -/
def putDoc (docs : List Doc) (doctype name : String) (payload : Dict) : List Doc :=
  docs.map fun doc =>
    if doc.doctype = doctype ∧ doc.name = name then doc.merge payload else doc

/-- A PUT that is repeated changes nothing more. -/
theorem putDoc_putDoc (docs : List Doc) (doctype name : String) (payload : Dict) :
    putDoc (putDoc docs doctype name payload) doctype name payload =
      putDoc docs doctype name payload := by
  unfold putDoc
  rw [List.map_map]
  refine List.map_congr_left fun doc _ => ?_
  by_cases h : doc.doctype = doctype ∧ doc.name = name
  · simp [h, Doc.merge_merge]
  · simp [h]

def hasDoc (docs : List Doc) (doctype name : String) : Bool :=
  docs.any fun doc => doc.doctype == doctype && doc.name == name

theorem hasDoc_iff {docs : List Doc} {doctype name : String} :
    hasDoc docs doctype name = true ↔
      ∃ doc ∈ docs, doc.doctype = doctype ∧ doc.name = name := by
  simp [hasDoc]

theorem mem_putDoc {docs : List Doc} {doctype name : String} {payload : Dict} {doc : Doc} :
    doc ∈ putDoc docs doctype name payload ↔
      (∃ old ∈ docs, (old.doctype = doctype ∧ old.name = name) ∧ doc = old.merge payload) ∨
        (doc ∈ docs ∧ ¬(doc.doctype = doctype ∧ doc.name = name)) := by
  simp only [putDoc, List.mem_map]
  constructor
  · rintro ⟨old, hold, rfl⟩
    split
    · next h => exact .inl ⟨old, hold, h, rfl⟩
    · next h => exact .inr ⟨hold, h⟩
  · rintro (⟨old, hold, h, rfl⟩ | ⟨hdoc, h⟩)
    · exact ⟨old, hold, if_pos h⟩
    · exact ⟨doc, hdoc, if_neg h⟩

theorem Doc.holds_self (doctype name : String) (payload : Dict) :
    (⟨doctype, name, payload⟩ : Doc).Holds payload := fun _ _ h => h

theorem exists_putDoc {docs : List Doc} {doctype name : String} (payload : Dict)
    (h : hasDoc docs doctype name = true) :
    ∃ doc ∈ putDoc docs doctype name payload,
      doc.doctype = doctype ∧ doc.name = name ∧ doc.Holds payload := by
  obtain ⟨doc, hdoc, hdoctype, hname⟩ := hasDoc_iff.mp h
  exact ⟨doc.merge payload, mem_putDoc.mpr (.inl ⟨doc, hdoc, ⟨hdoctype, hname⟩, rfl⟩),
    hdoctype, hname, doc.holds_merge payload⟩

/-- The body of a GET's answer, with `fields = ["name"]`. -/
def foundBody (docs : List Doc) : Json :=
  .obj [("data", .list (docs.map fun doc => .obj [("name", .str doc.name)]))]

/-- The body of a POST's or PUT's answer. -/
def savedBody (name : String) : Json := .obj [("data", .obj [("name", .str name)])]

def okOutcome (value : Json) : HttpOutcome := .response { status := 200, body := .json value }

/-- The answer to a request for a document that does not exist. -/
def notFoundOutcome : HttpOutcome := .response { status := 404, body := .empty }

end TallyConnector
