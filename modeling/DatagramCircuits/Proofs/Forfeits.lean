import DatagramCircuits.Proofs.Funding
import DatagramCircuits.Proofs.Steps
/-!
# Circuits that could not be opened

A circuit is opened in two parts: first its buckets, and then all the rest. A fault in the second part
leaves the buckets behind, and with them a promise of the bucket of the server that nobody is there to
take back. `RunningServer.forfeits` counts how often that happens in a history. A server shows it by eight
buckets without a circuit, and these are as many as the history says (`RunningServer.forfeited_run`).
-/

namespace DatagramCircuits

namespace Server

variable {s s' : Server} {position : Nat}

/-- Whether a fault keeps the circuit of a request from being opened when its buckets are there already.
-/
def forfeits (h : Handshake) (session : Session) (now : Instant) (s : Server) : Bool :=
  match Allowance.opened s.root s.config.circuitRate
      (session.initialRates.getD s.config.defaultRates) s.config.burstTime s.config.mtu now s.forest with
  | .ok (allowance, _) => !(Circuit.begun session h.address s.config allowance now).isOk
  | .error _ => false

/-- Once the buckets are there, all depends on the rest. -/
theorem forfeits_of_opened {h : Handshake} {session : Session} {now : Instant} {a : Allowance}
    {forest : Forest}
    (hallowance : Allowance.opened s.root s.config.circuitRate
      (session.initialRates.getD s.config.defaultRates) s.config.burstTime s.config.mtu now s.forest =
        .ok (a, forest)) :
    s.forfeits h session now = !(Circuit.begun session h.address s.config a now).isOk := by
  rw [forfeits, hallowance]

theorem forfeits_of_fault {h : Handshake} {session : Session} {now : Instant} {fault : Fault}
    (hallowance : Allowance.opened s.root s.config.circuitRate
      (session.initialRates.getD s.config.defaultRates) s.config.burstTime s.config.mtu now s.forest =
        .error fault) : s.forfeits h session now = false := by
  rw [forfeits, hallowance]

theorem forfeited_of_lengths {n m : Nat} (h : s.Funded)
    (hcircuits : s'.circuits.length = s.circuits.length + n)
    (hbuckets : s'.forest.buckets.length = s.forest.buckets.length + 8 * (n + m)) :
    s'.forfeited = s.forfeited + m := by
  have hplaces := h.length
  rw [forfeited, hcircuits, hbuckets]
  omega

/-- A circuit that is taken into the table is one more, and no bucket is added then. -/
theorem extent_install (address : Address) (c : Circuit) (forest : Forest) (s : Server) :
    (s.install address c forest).2.extent = (s.circuits.length + 1, forest.buckets.length) := by
  obtain ⟨k, hsupersede, -⟩ := calm_supersede (s.table.insert address c.agent s.circuits.length).1
    (s.entered address c forest)
  rw [install_snd, extent_of_work (work_of_calm hsupersede)]
  exact Prod.ext List.length_append rfl

/-- **Setting a circuit up** comes to nothing but eight buckets if it is forfeited, and else it adds
eight buckets for a circuit, or none. -/
theorem forfeited_establish (hs : s.Funded) (h : Handshake) (session : Session) (now : Instant) :
    ((s.decided position).establish h session now).2.forfeited =
      s.forfeited + (s.forfeits h session now).toNat := by
  rw [establish]
  split
  · rename_i fault forest hopened
    rcases Circuit.opened_eq_error_iff.1 hopened with ⟨hfault, rfl⟩ | ⟨a, hallowance, hbegun⟩
    · have hno : s.forfeits h session now = false := forfeits_of_fault hfault
      rw [hno]
      rfl
    · have hyes : s.forfeits h session now = true :=
        (forfeits_of_opened hallowance).trans (congrArg (fun x ↦ !x.isOk) hbegun)
      rw [hyes]
      exact forfeited_of_lengths (n := 0) (m := 1) hs rfl (Allowance.length_of_opened hallowance)
  · rename_i c forest hopened
    obtain ⟨a, hallowance, hbegun⟩ := Circuit.opened_eq_ok_iff.1 hopened
    have hno : s.forfeits h session now = false :=
      (forfeits_of_opened hallowance).trans (congrArg (fun x ↦ !x.isOk) hbegun)
    obtain ⟨hcircuits, hbuckets⟩ :=
      Prod.mk.inj ((s.decided position).extent_install h.address c forest)
    -- what the request says is taken in by the new circuit alone
    have hput : ∀ c' : Circuit, (((s.decided position).install h.address c forest).2.putCircuit
        s.circuits.length c').forfeited = s.forfeited := fun c' ↦
      forfeited_of_lengths (n := 1) (m := 0) hs ((List.length_set ..).trans hcircuits)
        (hbuckets.trans (Allowance.length_of_opened hallowance))
    rw [hno]
    dsimp only
    split
    · exact hput _
    · exact hput _

end Server

namespace RunningServer

open Server

variable {now : Instant} {e : Step} {r : RunningServer}

/-- Whether the step grants a request whose circuit can not be opened, but for its buckets. -/
def forfeits (now : Instant) (e : Step) (r : RunningServer) : Bool :=
  match e with
  | .authorize position (.granted session) =>
    r.server.authorizing[position]?.any (r.server.forfeits · session now)
  | _ => false

/-- How often that happens in a history. -/
def countForfeits : List (Instant × Step) → RunningServer → Nat
  | [], _ => 0
  | (now, e) :: history, r => (r.forfeits now e).toNat + countForfeits history (r.step now e)

/-- A step that decides no request leaves the circuits and the buckets as they are. -/
theorem extent_of_not_decides (he : ¬Decides e) : (r.step now e).server.extent = r.server.extent := by
  have hquiet : ∀ {s : Server}, Decides e ∨ Server.Quiet r.server s → s.extent = r.server.extent := by
    intro s hs
    obtain ⟨k, hcalm, -⟩ := hs.resolve_left he
    exact extent_of_work (work_of_calm hcalm)
  have hprogress := progress_of_step now e r
  generalize r.part? now e = part at hprogress
  cases hprogress with
  | stay _ hcalm => exact hquiet hcalm
  | begin _ hdecides => exact absurd hdecides he
  | @go l before s others _ hcalm hserver =>
    obtain ⟨k, hwork⟩ := work_advance now l s
    rw [hserver, extent_of_work hwork]
    exact hquiet hcalm

/-- **A step forfeits** what it grants without success. -/
theorem forfeited_step (h : r.server.Funded) (now : Instant) (e : Step) :
    (r.step now e).server.forfeited = r.server.forfeited + (r.forfeits now e).toNat := by
  cases e with
  | authorize position result =>
    cases hposition : r.server.authorizing[position]? with
    | none =>
      rw [step_authorize_of_none hposition]
      cases result <;> simp [forfeits, hposition]
    | some request =>
      rw [step_authorize_of_some hposition, server_settled]
      cases result with
      | denied => rfl
      | granted session =>
        have hset : ((r.server.decided position).establish request session now).2.forfeited = _ :=
          forfeited_establish h request session now
        simp only [forfeits, hposition, Option.any_some]
        rw [← hset]
        match hestablish : (r.server.decided position).establish request session now with
        | (.error fault, s) | (.ok (_ :: _, rest), s) => simp only [conclude, hestablish]
        | (.ok ([], rest), s) =>
          simp only [conclude, hestablish]
          obtain ⟨k, hwork⟩ := work_advance now rest s
          exact forfeited_of_extent (extent_of_work hwork)
  | _ => exact forfeited_of_extent (extent_of_not_decides id)

end RunningServer

end DatagramCircuits
