import TallyConnector.Effects.Traces
import TallyConnector.Services.Scheduler
import TallyConnector.World.Groups

/-! # The continuous mode

Running for ever adds nothing to what the connector can do: each world that the
service reaches, incremental syncs and drains of the retry queue reach by
themselves (`service_reaches`). And the engine only works in a cycle whose health
check found both sides well (`service_gated`).
-/

namespace TallyConnector

open Effects

variable {δ : Type} [DecidableEq δ] {engine : SyncEngine δ} {allow : Assumed δ}
variable {init : World δ → Prop}

/-! ## The service and the engine -/

/-- The operations of a cycle. -/
def InService (op : Operation) : Prop := op = .incrementalSync ∨ op = .processRetryQueue 100

/-- How a call of the service itself is answered. -/
inductive Signal where
  | ping (ping : Ping)
  | poll (poll : Poll)
deriving DecidableEq, Repr

def Signal.answer : (call : ServiceCall) → Signal → Option call.Resp
  | .getTally _, .ping answer => some answer
  | .getFrappe _, .ping answer => some answer
  | .poll, .poll found => some found
  | _, _ => none

/-- The service in the world of its engine; it may be started again after it
has ended or crashed. -/
def SyncEngine.serviceMachine (engine : SyncEngine δ) :
    Machine (HostResp (@Call.Resp δ) ServiceCall.Resp) Exn (World δ) Nat Company
      (Choice ⊕ Signal) :=
  (engine.machine InService).host Signal.answer engine.service

/-- The assumption on the engine's answers, decided. -/
def SyncEngine.checkHosted (engine : SyncEngine δ) (e : Call δ ⊕ ServiceCall)
    (choice : Choice ⊕ Signal) (w : World δ) : Bool :=
  match e, choice with
  | .inl e, .inl choice => engine.checkSnapshots e choice w
  | _, _ => true

omit [DecidableEq δ] in
theorem SyncEngine.hosted_of_check (e : Call δ ⊕ ServiceCall) (choice : Choice ⊕ Signal)
    (w : World δ) (h : engine.checkHosted e choice w = true) :
    Machine.Assumption.host engine.snapshots e choice w := by
  rcases e with e | call
  · rcases choice with choice | signal
    · exact engine.snapshots_of_check e choice w h
    · trivial
  · trivial

theorem script_runHealthCheck (settings : Settings) :
    Script (engine.machine InService) (runHealthCheck settings : Service δ HealthStatus) := by
  unfold runHealthCheck checkTally checkFrappe
  refine .bind ((script_side _).bind fun _ => .ret _) fun _ => .bind ?_ fun _ => .ret _
  split
  · exact .ret _
  · exact (script_side _).bind fun _ => .ret _

theorem script_cycle : Script (engine.machine InService) engine.cycle := by
  refine (script_runHealthCheck engine.settings).bind fun health => ?_
  split
  · exact script_op (o := ⟨.incrementalSync, .inl rfl⟩) rfl
      (script_op (o := ⟨.processRetryQueue 100, .inr rfl⟩) rfl (.ret ()))
  · exact .ret ()

theorem script_pollRounds {job : Service δ Unit} (hjob : Script (engine.machine InService) job)
    (rounds : Nat) : Script (engine.machine InService) (pollRounds job rounds) := by
  induction rounds with
  | zero => exact .ret ()
  | succ rounds ih =>
    refine (script_side _).bind fun found => ?_
    cases found with
    | interrupted => exact .ret ()
    | notDue => exact ih
    | due => exact hjob.bind fun _ => ih

theorem script_service (rounds : Nat) :
    Script (engine.machine InService) (engine.service rounds) :=
  script_cycle.bind fun _ => script_pollRounds script_cycle rounds

/-- Every world that the service reaches, whatever the health checks find,
whenever the job is due, whatever fails and wherever it crashes, is reached by
incremental syncs and drains of the retry queue alone. -/
theorem service_reaches {h : Config (HostResp (@Call.Resp δ) ServiceCall.Resp) Exn (World δ)}
    (hh : engine.serviceMachine.Reach (Machine.Assumption.host allow) init h) :
    ∃ c, (engine.machine InService).Reach allow init c ∧ c.world = h.world :=
  Machine.reach_of_host script_service hh

/-- A group is created in the first cycle; the process is lost in the second
one, after Tally has not answered the probe. -/
theorem service_reaches_groups :
    ∃ c, ((groupEngine 1 [[assets]]).machine InService).Reach
        (groupEngine 1 [[assets]]).snapshots World.Fresh c ∧
      c.world.docs.map (·.doctype) = ["Tally Group"] := by
  let engine := groupEngine 1 [[assets]]
  have hinit : (groupWorld (groupCompany [assets] 1)).Fresh := ⟨rfl, rfl, rfl, rfl⟩
  have hanswers : ∀ e choice w, engine.checkHosted e choice w = true →
      Machine.Assumption.host engine.snapshots e choice w := engine.hosted_of_check
  obtain ⟨h, hh, hfinal⟩ := Machine.Reach.exists_of_run (M := engine.serviceMachine)
    hanswers hinit
    [.start 1, .call (.inr (.ping (.response 200))), .call (.inr (.ping (.response 200))),
      .call (.inl .commit), .call (.inl .inMemory), .call (.inl (groupResponse [assets])),
      .call (.inl .inMemory), .call (.inl .commit), .call (.inl (.serve "" [])),
      .call (.inl .commit), .call (.inl (.serve "GRP-1" [])), .call (.inl .inMemory),
      .call (.inl (.clock 0)), .call (.inl .commit), .call (.inl (.clock 0)),
      .call (.inl (.clock 0)), .call (.inl .commit), .call (.inl .inMemory),
      -- the drain
      .call (.inl (.clock 0)), .call (.inl .commit),
      .call (.inr (.poll .due)), .call (.inr (.ping (.requestException "refused"))), .crash]
    (fun h => decide (h.world.docs.map (·.doctype) = ["Tally Group"]))
    (by decide +kernel)
  rcases service_reaches hh with ⟨c, hc, hworld⟩
  refine ⟨c, hc, ?_⟩
  rw [hworld]
  exact of_decide_eq_true hfinal

/-! ## The health check -/

/-- What the last health check has found so far. -/
structure Gate where
  tally : Bool := false
  frappe : Bool := false
deriving DecidableEq, Repr

def Gate.open (gate : Gate) : Prop := gate.tally = true ∧ gate.frappe = true

/-- The calls that the service may make: probes of the configured sides, and
calls of the engine while both have been found well. -/
def Gate.allows (settings : Settings) (gate : Gate) : Call δ ⊕ ServiceCall → Prop
  | .inl _ => gate.open
  | .inr (.getTally url) => url = settings.tallyUrl
  | .inr (.getFrappe url) => settings.frappeBaseUrl ≠ "" ∧ url = pingUrl settings
  | .inr .poll => True

/-- A probe of Tally starts a health check; a round of the scheduler ends what
was known. -/
def Gate.watch (gate : Gate) :
    (call : Call δ ⊕ ServiceCall) → HostResp (@Call.Resp δ) ServiceCall.Resp call → Gate
  | .inl _, _ => gate
  | .inr (.getTally _), (ping : Ping) => { tally := ping.tally.1 }
  | .inr (.getFrappe _), (ping : Ping) => { gate with frappe := ping.frappe.1 }
  | .inr .poll, _ => {}

/-- The service keeps to the gate. -/
abbrev Gated {α : Type} (settings : Settings) (p : Service δ α) (Q : Except Exn α → Gate → Prop)
    (gate : Gate) : Prop :=
  p.Obeys (Gate.allows settings) Gate.watch Q gate

omit [DecidableEq δ] in
/-- While the gate is open, the engine may do what it likes. -/
theorem gated_hosted {α : Type} {settings : Settings} {gate : Gate} (h : gate.open)
    (p : Py δ α) : Gated settings p.hosted (fun _ gate' => gate' = gate) gate := by
  induction p with
  | ret a => rfl
  | raise x => rfl
  | call e k ih => exact ⟨h, ih⟩

omit [DecidableEq δ] in
/-- A health check that finds all well leaves the gate open. -/
theorem gated_runHealthCheck (settings : Settings) (gate : Gate) :
    Gated settings (runHealthCheck settings : Service δ HealthStatus)
      (fun r gate' => ∀ status, r = .ok status → status.allOk = true → gate'.open) gate := by
  refine .bind ⟨rfl, fun ping => .bind ?_⟩
  unfold checkFrappe
  split
  · intro status hstatus hok
    cases hstatus
    simp [HealthStatus.allOk] at hok
  · next hbase =>
    refine ⟨⟨hbase, rfl⟩, fun pong => ?_⟩
    intro status hstatus hok
    cases hstatus
    exact Bool.and_eq_true_iff.mp hok

theorem gated_cycle (gate : Gate) :
    Gated engine.settings engine.cycle (fun _ _ => True) gate := by
  refine .bind ((gated_runHealthCheck engine.settings gate).mono fun r gate' hopen => ?_)
  cases r with
  | error exc => trivial
  | ok health =>
    dsimp only
    split
    · next hok =>
      have hgate := hopen health rfl hok
      refine .bind ((gated_hosted hgate _).mono fun r gate'' heq => ?_)
      subst heq
      cases r with
      | error exc => trivial
      | ok results =>
        refine .bind ((gated_hosted hgate _).mono fun r _ _ => ?_)
        cases r <;> trivial
    · trivial

omit [DecidableEq δ] in
theorem gated_pollRounds {settings : Settings} {job : Service δ Unit}
    (hjob : ∀ gate, Gated settings job (fun _ _ => True) gate) (rounds : Nat) (gate : Gate) :
    Gated settings (pollRounds job rounds) (fun _ _ => True) gate := by
  induction rounds generalizing gate with
  | zero => trivial
  | succ rounds ih =>
    refine .bind ⟨trivial, fun found => ?_⟩
    cases found with
    | interrupted => trivial
    | notDue => exact ih _
    | due =>
      refine .bind ((hjob _).mono fun r gate' _ => ?_)
      cases r with
      | error exc => trivial
      | ok u => exact ih gate'

/-- However the probes and the engine's calls are answered: the service only
probes the configured sides, and the engine only makes a call while the health
check of its cycle has found Tally reachable and Frappe reachable and content
with the credentials. Without a `FRAPPE_BASE_URL` it makes none. -/
theorem service_gated (rounds : Nat) :
    Gated engine.settings (engine.service rounds) (fun _ _ => True) {} ∧
      (engine.settings.frappeBaseUrl = "" →
        (engine.service rounds).All fun call => ∀ e, call ≠ .inl e) := by
  have hgated : Gated engine.settings (engine.service rounds) (fun _ _ => True) {} := by
    refine .bind ((gated_cycle {}).mono fun r gate _ => ?_)
    cases r with
    | error exc => trivial
    | ok u => exact gated_pollRounds gated_cycle rounds gate
  refine ⟨hgated, fun hbase => ?_⟩
  have hshut : (engine.service rounds).All fun call =>
      ∃ gate : Gate, gate.frappe = false ∧ gate.allows engine.settings call := by
    refine hgated.all rfl fun gate call answer hgate hallowed => ?_
    rcases call with e | ⟨url⟩ | ⟨url⟩ | _
    · exact hgate
    · rfl
    · exact absurd hbase hallowed.1
    · rfl
  refine hshut.mono fun call hcall e heq => ?_
  rcases hcall with ⟨gate, hgate, hallowed⟩
  subst heq
  rw [hallowed.2] at hgate
  cases hgate

/-- Out of the box no Frappe site is configured. -/
theorem service_gated_unconfigured :
    (({ groupEngine 1 [[assets]] with settings := {} } : SyncEngine Dict).service 5).All
      fun call => ∀ e, call ≠ .inl e :=
  (service_gated 5).2 rfl

end TallyConnector
