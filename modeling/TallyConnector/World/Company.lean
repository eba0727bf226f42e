import TallyConnector.Models.Registry
import TallyConnector.Tally.XmlBuilder

/-! # The Tally company

What the connector assumes of Tally: every created or altered record gets an
alter id above all earlier ones, a collection request selects records by its
date range and its `$AlterID` filter, and the natural keys of an entity's
current records are distinct.
-/

namespace TallyConnector

/-- One version of a record, with what the parser makes of it. -/
structure Version where
  /-- The entity whose collection contains the record. -/
  entityName : String
  alterId : Nat
  date : Date
  raw : Record
deriving DecidableEq

structure Company where
  records : List Version
  /-- The last alter id given out. -/
  lastId : Nat
deriving DecidableEq

/-- A voucher type formula is part of what the entity's collection is. -/
def Formula.selects (version : Version) : Formula → Bool
  | .voucherTypeName _ => true
  | .alterIdAbove n => decide (n < version.alterId)

def CollectionRequest.selects (request : CollectionRequest) (version : Version) : Bool :=
  version.entityName == request.entityName &&
  request.fromDate.all (fun day => decide (day ≤ version.date)) &&
  request.toDate.all (fun day => decide (version.date ≤ day)) &&
  request.filters.all fun formula => formula.selects version

/-- The usable natural key of a record, if the record is valid and has one. -/
def EntitySpec.keyOf (spec : EntitySpec) (raw : Record) : Option String :=
  match toModel raw spec with
  | .ok model => model.usableKey spec
  | .error _ => none

/-- The parsed record agrees with the version: its `alter_id` is the
version's, and validation leaves its natural key as it is. -/
def Version.agrees (spec : EntitySpec) (version : Version) : Bool :=
  match toModel version.raw spec with
  | .ok model =>
      model.alterId.all (· == (version.alterId : Int)) &&
      (model.usableKey spec).all fun key =>
        version.raw.lookup spec.naturalKeyField == some (.str key)
  | .error _ => true

namespace Company

/-- The snapshot a collection request describes. -/
def select (company : Company) (request : CollectionRequest) : List Version :=
  company.records.filter request.selects

/-- The current records of an entity. -/
def versions (company : Company) (spec : EntitySpec) : List Version :=
  company.records.filter fun version => version.entityName == spec.name

structure WellFormed (registry : Registry) (company : Company) : Prop where
  bounded : ∀ version ∈ company.records, version.alterId ≤ company.lastId
  agrees : ∀ spec ∈ registry.specs, ∀ version ∈ company.versions spec,
    version.agrees spec = true
  distinct : ∀ spec ∈ registry.specs,
    ∀ version ∈ company.versions spec, ∀ version' ∈ company.versions spec,
      (spec.keyOf version.raw).isSome → spec.keyOf version.raw = spec.keyOf version'.raw →
        version = version'

instance (registry : Registry) (company : Company) : Decidable (WellFormed registry company) :=
  decidable_of_iff
    ((∀ version ∈ company.records, version.alterId ≤ company.lastId) ∧
      (∀ spec ∈ registry.specs, ∀ version ∈ company.versions spec,
        version.agrees spec = true) ∧
      ∀ spec ∈ registry.specs,
        ∀ version ∈ company.versions spec, ∀ version' ∈ company.versions spec,
          (spec.keyOf version.raw).isSome →
            spec.keyOf version.raw = spec.keyOf version'.raw → version = version')
    ⟨fun ⟨h₁, h₂, h₃⟩ => ⟨h₁, h₂, h₃⟩, fun h => ⟨h.bounded, h.agrees, h.distinct⟩⟩

/-- Creating, altering and deleting records: what is new has a fresh id. -/
def Evolves (company company' : Company) : Prop :=
  company.lastId ≤ company'.lastId ∧
    ∀ version ∈ company'.records,
      version ∈ company.records ∨ company.lastId < version.alterId

instance (company company' : Company) : Decidable (Evolves company company') :=
  inferInstanceAs (Decidable (_ ∧ _))

variable {registry : Registry} {company company' : Company} {spec : EntitySpec}
variable {version : Version}

theorem mem_versions :
    version ∈ company.versions spec ↔
      version ∈ company.records ∧ version.entityName = spec.name := by
  simp [versions]

theorem mem_select {request : CollectionRequest} :
    version ∈ company.select request ↔
      version ∈ company.records ∧ request.selects version = true := by
  simp [select]

/-- An old id after a change is an id from before it. -/
theorem Evolves.old (h : Evolves company company') (hv : version ∈ company'.records)
    (hid : version.alterId ≤ company.lastId) : version ∈ company.records := by
  rcases h.2 version hv with hold | hnew
  · exact hold
  · omega

theorem WellFormed.model_alterId (h : WellFormed registry company)
    (hspec : spec ∈ registry.specs) (hv : version ∈ company.versions spec) {model : Model}
    (hmodel : toModel version.raw spec = .ok model) {a : Int} (ha : model.alterId = some a) :
    a = version.alterId := by
  have hagrees := h.agrees spec hspec version hv
  simp only [Version.agrees, hmodel, ha, Option.all_some, Bool.and_eq_true, beq_iff_eq] at hagrees
  exact hagrees.1

theorem WellFormed.lookup_key (h : WellFormed registry company)
    (hspec : spec ∈ registry.specs) (hv : version ∈ company.versions spec) {key : String}
    (hkey : spec.keyOf version.raw = some key) :
    version.raw.lookup spec.naturalKeyField = some (.str key) := by
  have hagrees := h.agrees spec hspec version hv
  unfold EntitySpec.keyOf at hkey
  split at hkey
  · next model hmodel =>
    simp only [Version.agrees, hmodel, hkey, Option.all_some, Bool.and_eq_true,
      beq_iff_eq] at hagrees
    exact hagrees.2
  · cases hkey

theorem WellFormed.eq_of_key (h : WellFormed registry company)
    (hspec : spec ∈ registry.specs) {version' : Version}
    (hv : version ∈ company.versions spec) (hv' : version' ∈ company.versions spec)
    {key : String} (hkey : spec.keyOf version.raw = some key)
    (hkey' : spec.keyOf version'.raw = some key) : version = version' :=
  h.distinct spec hspec version hv version' hv' (by simp [hkey]) (hkey.trans hkey'.symm)

end Company

/-! ## The requests of the connector -/

section requests

variable {spec : EntitySpec} {since : Option Int} {dateFrom dateTo : Option Date}
variable {company : Option String} {version : Version}

/-- A date range selects inside the range, for vouchers only. -/
def inRange (spec : EntitySpec) (dateFrom dateTo : Option Date) (version : Version) : Bool :=
  !spec.isVoucher ||
    (dateFrom.all (fun day => decide (day ≤ version.date)) &&
      dateTo.all fun day => decide (version.date ≤ day))

/-- What `build_collection_request` asks for. -/
theorem selects_buildCollectionRequest :
    (buildCollectionRequest spec since dateFrom dateTo company).selects version = true ↔
      version.entityName = spec.name ∧ inRange spec dateFrom dateTo version = true ∧
        ∀ n, since = some n → n < version.alterId := by
  have hfilters :
      (buildCollectionRequest spec since dateFrom dateTo company).filters.all
          (fun formula => formula.selects version) = true ↔
        ∀ n, since = some n → n < version.alterId := by
    cases since <;> cases hvoucher : spec.isVoucher <;>
      cases nonEmpty spec.voucherTypeFilter <;>
      simp [buildCollectionRequest, hvoucher, Formula.selects]
  simp only [CollectionRequest.selects, Bool.and_eq_true, hfilters]
  cases hvoucher : spec.isVoucher <;>
    simp [buildCollectionRequest, hvoucher, inRange, and_assoc]

end requests

end TallyConnector
