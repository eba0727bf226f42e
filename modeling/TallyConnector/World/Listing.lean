import TallyConnector.Sync.Protocol
import TallyConnector.World.Shared

/-! # A record that Tally lists

The smallest company, with one record of one entity, next to Frappe sites that
always answer the same. Histories with it show what an operation can pick up
from a shared store.
-/

namespace TallyConnector

open Effects

variable {δ σ τ : Type}

/-- A record Tally can list and the connector can push. -/
structure Listing (engine : SyncEngine δ) extends Item engine where
  version : Version
  /-- A response that lists the record. -/
  page : TallyOutcome
  /-- A response that lists nothing. -/
  emptyPage : TallyOutcome
  order : List EntitySpec
  hentity : version.entityName = spec.name
  hraw : version.raw = raw
  halter : model.alterId = some (version.alterId : Int)
  hfits : fitsInt64 version.alterId = true
  hlookup : raw.lookup spec.naturalKeyField = some (.str key)
  hpage : engine.recordsOf spec page = .ok [raw]
  hempty : ∀ spec ∈ engine.registry.specs, engine.recordsOf spec emptyPage = .ok []
  horder : engine.registry.resolveSyncOrder = .ok order

namespace Listing

variable {engine : SyncEngine δ} (listing : Listing engine)

/-- Pointing the engine elsewhere changes nothing about the listing. -/
def target (baseUrl : String) : Listing (engine.target baseUrl) where
  spec := listing.spec
  me := listing.me
  raw := listing.raw
  model := listing.model
  key := listing.key
  hspec := listing.hspec
  hme := listing.hme
  hmodel := listing.hmodel
  hkey := listing.hkey
  version := listing.version
  page := listing.page
  emptyPage := listing.emptyPage
  order := listing.order
  hentity := listing.hentity
  hraw := listing.hraw
  halter := listing.halter
  hfits := listing.hfits
  hlookup := listing.hlookup
  hpage := listing.hpage
  hempty := listing.hempty
  horder := listing.horder

/-- The company with that record alone. -/
def company : Company := ⟨[listing.version], listing.version.alterId⟩

/-- Tally lists the record when a request selects it. -/
def answer (request : CollectionRequest) : TallyOutcome :=
  if request.selects listing.version then listing.page else listing.emptyPage

/-- A turn while Tally can be reached. -/
def up (other : Bool) (op : Operation) : Turn := ⟨other, op, listing.company, listing.answer⟩

/-- A turn while Tally cannot be reached. -/
def down (op : Operation) : Turn := ⟨false, op, listing.company, fun _ => .timeout⟩

/-- The record is selected when there is no checkpoint. -/
theorem answer_none :
    listing.answer (engine.collectionRequest listing.spec none none none) = listing.page := by
  unfold answer
  rw [if_pos]
  refine selects_buildCollectionRequest.mpr ⟨listing.hentity, ?_, ?_⟩
  · simp [inRange]
  · intro n hn
    cases hn

/-- It is not selected by the requests of other entities, nor from its own
alter id on. -/
theorem answer_of_not {spec : EntitySpec} {since : Option Int}
    (hsince : spec.name = listing.spec.name → since = some (listing.version.alterId : Int)) :
    listing.answer (engine.collectionRequest spec since none none) = listing.emptyPage := by
  unfold answer
  rw [if_neg]
  intro hselects
  obtain ⟨hentity, -, habove⟩ := selects_buildCollectionRequest.mp hselects
  have hname : spec.name = listing.spec.name := hentity.symm.trans listing.hentity
  exact absurd (habove _ (hsince hname)) (lt_irrefl _)

theorem recordsOf_none :
    engine.recordsOf listing.spec
      (listing.answer (engine.collectionRequest listing.spec none none none)) =
        .ok [listing.raw] := by
  rw [listing.answer_none]
  exact listing.hpage

theorem bumpMax_none :
    SyncEngine.bumpMax none listing.model.alterId = some (listing.version.alterId : Int) := by
  rw [listing.halter]
  simp [SyncEngine.bumpMax]

theorem wellFormed : listing.company.WellFormed engine.registry where
  bounded := by simp [Listing.company]
  agrees := by
    intro spec hspec version hversion
    obtain ⟨hmem, hname⟩ := Company.mem_versions.mp hversion
    obtain rfl : version = listing.version := List.mem_singleton.mp hmem
    have heq := engine.registry.eq_of_name listing.hspec hspec (listing.hentity.symm.trans hname)
    subst heq
    simp [Version.agrees, listing.hraw, listing.hmodel, listing.halter, listing.hkey,
      listing.hlookup]
  distinct := by
    intro spec _ version hversion version' hversion' _ _
    have hmem := (Company.mem_versions.mp hversion).1
    have hmem' := (Company.mem_versions.mp hversion').1
    exact (List.mem_singleton.mp hmem).trans (List.mem_singleton.mp hmem').symm

theorem snapshot_answer (request : CollectionRequest) :
    engine.Snapshot
      { request, outcome := listing.answer request, company := listing.company } := by
  intro spec hspec hname records hrecords
  simp only [Listing.answer] at hrecords
  split at hrecords
  · next hselects =>
    have hentity : listing.version.entityName = request.entityName := by
      simp only [CollectionRequest.selects, Bool.and_eq_true, beq_iff_eq] at hselects
      exact hselects.1.1.1
    have heq := engine.registry.eq_of_name listing.hspec hspec
      (listing.hentity.symm.trans (hentity.trans hname.symm))
    subst heq
    rw [listing.hpage] at hrecords
    cases hrecords
    simp [Company.select, Listing.company, hselects, listing.hraw]
  · next hselects =>
    rw [listing.hempty spec hspec] at hrecords
    cases hrecords
    simp [Company.select, Listing.company, hselects]

/-- Turns during which the company stays as it is are a history. -/
theorem history {turns : List Turn}
    (h : ∀ turn ∈ turns, turn.company = listing.company ∧
      (turn.tally = listing.answer ∨ turn.tally = fun _ => .timeout)) :
    engine.History turns where
  evolves := by
    have hpairwise : (turns.map (·.company)).Pairwise Company.Evolves := by
      refine List.pairwise_map.mpr (List.pairwise_of_forall_mem_list fun turn hturn turn' hturn' => ?_)
      rw [(h turn hturn).1, (h turn' hturn').1]
      exact ⟨le_refl _, fun _ hversion => .inl hversion⟩
    exact hpairwise.isChain
  wellFormed := by
    intro turn hturn
    rw [(h turn hturn).1]
    exact listing.wellFormed
  snapshots := by
    intro turn hturn request
    obtain ⟨hcompany, htally | htally⟩ := h turn hturn
    · rw [hcompany, htally]
      exact listing.snapshot_answer request
    · rw [htally]
      intro spec _ _ records hrecords
      cases hrecords

end Listing

/-! ## Sites that stand still -/

/-- An environment that stands still. -/
def Environment.still (answer : FrappeRequest → HttpOutcome) : Environment δ Unit where
  clock _ := (0, ())
  tally _ _ := (.timeout, ())
  frappe request _ := (answer request, ())
  sqlError _ _ := none

/-- An empty site that stores what it is sent. -/
def serving : FrappeRequest → HttpOutcome
  | .get _ _ _ _ => okOutcome (foundBody [])
  | _ => okOutcome (savedBody "DOC-1")

/-- A site that is down. -/
def refused (_request : FrappeRequest) : HttpOutcome := .connectionError "Connection refused"

/-- A handler for one turn. -/
abbrev handler (answer : FrappeRequest → HttpOutcome) (tally : CollectionRequest → TallyOutcome) :
    (e : Call δ) → Local δ Unit → Call.Resp e × Local δ Unit :=
  ((Environment.still answer).withTally tally).answer

end TallyConnector
