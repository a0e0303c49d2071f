import DatagramCircuits.Proofs.Buckets
import DatagramCircuits.Proofs.Phases
/-!
# The standing of a circuit

A server looks up its circuits by what they are set up with: the session, the address of the peer,
and the buckets. Together with being open or closed this is the **standing** of a circuit, and
nothing but closing changes it. A tick takes from the buckets of the circuit, and leaves their terms
alone. Nor does it touch what the circuit knows about its notices of empty queues; with the standing
that is the `background` of its work.
-/

namespace DatagramCircuits

namespace Circuit

variable {now : Instant} {c c' : Circuit}

/-- What a circuit is set up with, and whether it is closed. -/
def standing (c : Circuit) : Session × Address × Allowance × Bool :=
  (c.session, c.address, c.allowance, c.isClosed)

/-- What a circuit knows about its notices of empty queues. -/
structure Alert where
  /-- The settings. -/
  config : Config
  /-- Whether a notice is under way. -/
  busy : Bool
  /-- When one was begun last. -/
  last : Option Instant

/-- What the circuit knows about its notices. -/
def alert (c : Circuit) : Alert :=
  ⟨c.config, c.queueEmptyBusy, c.lastQueueEmpty⟩

/-- What regular work never touches. -/
def background (c : Circuit) : (Session × Address × Allowance × Bool) × Alert :=
  (c.standing, c.alert)

/-- Where the background is kept, so is the standing. -/
theorem standing_of_background (h : c'.background = c.background) : c'.standing = c.standing :=
  congrArg Prod.fst h

/-- Circuits of one standing are both open or both closed. -/
theorem isClosed_of_standing (h : c'.standing = c.standing) : c'.isClosed = c.isClosed :=
  congrArg (·.2.2.2) h

/-- Circuits of one standing are of one agent. -/
theorem agent_of_standing (h : c'.standing = c.standing) : c'.agent = c.agent :=
  congrArg (·.1.agent) h

/-- Circuits of one standing have one peer. -/
theorem address_of_standing (h : c'.standing = c.standing) : c'.address = c.address :=
  congrArg (·.2.1) h

/-- Circuits of one standing take from the same buckets. -/
theorem allowance_of_standing (h : c'.standing = c.standing) : c'.allowance = c.allowance :=
  congrArg (·.2.2.1) h

/-! ### Operations -/

/-- A change between two phases of an open circuit keeps the standing. -/
theorem standing_transition {source target : Phase} (hsource : source ≠ .disconnected)
    (htarget : target ≠ .disconnected) (c : Circuit) :
    (c.transition source target).2.standing = c.standing := by
  have hclosed := (sameWork_transition hsource htarget c).isClosed
  rw [standing, hclosed, transition]
  split <;> rfl

/-- Queueing a message keeps the standing. -/
theorem standing_send {category : Category} {m : Message} {reliable notify : Bool}
    (h : c.send category m reliable notify = .ok c') : c'.standing = c.standing := by
  obtain ⟨queues, rfl⟩ := exists_queues_of_send h
  rfl

/-- Taking in a datagram keeps the standing, whatever the answer to it. -/
theorem standing_receive (p : Packet) (length : Nat) (now : Instant) (c : Circuit) :
    (c.receive p length now).2.standing = c.standing := by
  rw [receive]
  split
  · rfl
  split
  · rw [receiveReliable]
    split
    · rfl
    · dsimp only
      split <;> rfl
  · rfl

theorem standing_acknowledge (sequences : List UInt32) (now : Instant) (c : Circuit) :
    (c.acknowledge sequences now).2.standing = c.standing :=
  rfl

theorem standing_flushAcks (c : Circuit) : c.flushAcks.2.standing = c.standing :=
  rfl

/-- The answer to a ping keeps the standing. -/
theorem standing_takePong (id : UInt8) (now : Instant) (c : Circuit) :
    (c.takePong id now).2.standing = c.standing := by
  rw [takePong]
  split
  · split <;> rfl
  · rfl

/-- Beginning a notice of empty queues keeps the standing. -/
theorem standing_beginQueueEmpty (now : Instant) (c : Circuit) :
    (c.beginQueueEmpty now).2.standing = c.standing := by
  unfold beginQueueEmpty
  dsimp only
  split <;> rfl

theorem standing_endQueueEmpty (c : Circuit) : c.endQueueEmpty.standing = c.standing :=
  rfl

/-! ### Closing -/

/-- The circuit once it is closed. -/
def ended (c : Circuit) : Circuit :=
  { c with
    phase := .disconnected
    queues := PerLane.replicate {}
    outstandingPing := none
    tracker := c.tracker.clear }

/-- Closing an open circuit ends it, and takes its buckets out of the forest. -/
theorem close_of_open (h : c.isClosed = false) (f : Forest) :
    c.close f = (true, c.ended, c.allowance.detach f) := by
  rw [close, h]
  rfl

/-- Closing a closed circuit changes nothing. -/
theorem close_of_closed (h : c.isClosed = true) (f : Forest) : c.close f = (false, c, f) :=
  if_pos h

/-! ### Ticks -/

/-- The view shows neither queues nor the numbering nor the account, which is all that transmissions and
the look for datagrams to be sent again touch. -/
structure Untouched {β : Type} (view : Circuit → β) : Prop where
  queues : ∀ (c : Circuit) (queues : PerLane LaneQueue), view { c with queues } = view c
  nextSequence : ∀ (c : Circuit) (nextSequence : UInt32), view { c with nextSequence } = view c
  tracker : ∀ (c : Circuit) (tracker : Tracker), view { c with tracker } = view c

section Untouched

variable {β : Type} {view : Circuit → β}

/-- A transmission is out of the sight of such a view. -/
theorem Untouched.transmit (hview : Untouched view) {p : Outgoing} {d : Octets}
    (h : c.transmit p now = .ok (d, c')) : view c' = view c := by
  rw [Circuit.transmit] at h
  split at h
  · obtain ⟨buffer, -, h⟩ := bind_eq_ok_iff.1 h
    obtain ⟨-, rfl⟩ := Prod.mk.inj (Except.ok.inj h)
    exact (hview.tracker { c with nextSequence := followingSequence c.nextSequence } _).trans
      (hview.nextSequence c _)
  · obtain ⟨buffer, -, h⟩ := bind_eq_ok_iff.1 h
    obtain ⟨⟨known, t⟩, -, h⟩ := bind_eq_ok_iff.1 h
    obtain ⟨-, rfl⟩ := Prod.mk.inj (Except.ok.inj h)
    exact hview.tracker c _

/-- So is a transmission that is broken off. -/
theorem Untouched.spoiled (hview : Untouched view) (p : Outgoing) (c : Circuit) :
    view (c.spoiled p) = view c := by
  rw [Circuit.spoiled]
  split
  · exact hview.nextSequence c _
  · rfl

/-- So is the drop of datagrams that are too old. -/
theorem Untouched.dropOutdated (hview : Untouched view) (now : Instant) (c : Circuit) :
    view (c.dropOutdated now).2 = view c := by
  rw [Circuit.dropOutdated]
  split
  · rfl
  · exact hview.tracker c _

/-- So is the search for datagrams to be sent again, which only moves them between the account and the
queues. -/
theorem Untouched.collectExpired (hview : Untouched view) (now : Instant) (c : Circuit) :
    view (c.collectExpired now).2 = view c := by
  refine (view_foldl view (fun c p ↦ ?_) (c.tracker.expire now).1 _).trans (hview.tracker c _)
  rw [giveBack]
  split
  · exact hview.tracker c _
  · exact hview.queues c _

end Untouched

/-- The background is such a view. -/
theorem untouched_background : Untouched background :=
  ⟨fun _ _ ↦ rfl, fun _ _ ↦ rfl, fun _ _ ↦ rfl⟩

/-- A ping of the circuit's own keeps the background. -/
theorem background_nextPingDatagram (now : Instant) (c : Circuit) :
    (c.nextPingDatagram now).2.background = c.background := by
  rw [nextPingDatagram]
  split <;> rfl

end Circuit

namespace Turn

open Circuit

variable {now : Instant} {t t' : Turn}

/-- From one state of a tick to a later one, neither the background of the circuit changes nor the
terms of a bucket. -/
def Keeps (t t' : Turn) : Prop :=
  t'.circuit.background = t.circuit.background ∧ t'.forest.terms = t.forest.terms

theorem Keeps.trans {t'' : Turn} (h : Keeps t t') (h' : Keeps t' t'') : Keeps t t'' :=
  ⟨h'.1.trans h.1, h'.2.trans h.2⟩

theorem Keeps.standing (h : Keeps t t') : t'.circuit.standing = t.circuit.standing :=
  standing_of_background h.1

/-- The look for datagrams to be sent again keeps the background and the terms. -/
theorem keeps_checkResends (now : Instant) (t : Turn) : Keeps t (t.checkResends now) := by
  rw [checkResends]
  dsimp only
  split
  · exact ⟨rfl, rfl⟩
  · exact ⟨(untouched_background.collectExpired now _).trans (untouched_background.dropOutdated now _), rfl⟩

/-- Owed acknowledgements that are sent keep the background and the terms. -/
theorem keeps_checkAcks (now : Instant) (t : Turn) : Keeps t (t.checkAcks now) := by
  unfold checkAcks
  dsimp only
  split <;> exact ⟨rfl, rfl⟩

/-- A ping that is due keeps the background and the terms. -/
theorem keeps_checkPing (now : Instant) (t : Turn) : Keeps t (t.checkPing now) := by
  rw [checkPing]
  dsimp only
  split
  · exact ⟨rfl, rfl⟩
  · exact ⟨background_nextPingDatagram now _, rfl⟩

/-- Taking from an allowance leaves the terms of the buckets alone. -/
theorem terms_allowance_withdraw (a : Allowance) (category : Category) (n : Nat) (now : Instant)
    (f : Forest) : (a.withdraw category n now f).2.terms = f.terms := by
  cases category with
  | throttled lane => exact f.terms_withdraw ..
  | unthrottled => rfl

/-- Taking from the allowance for a datagram leaves the terms of the buckets alone. -/
theorem terms_of_withdraw {a : Allowance} {category : Category} {n : Nat} {granted : Bool}
    {f f' : Forest} (h : a.withdraw category n now f = (granted, f')) : f'.terms = f.terms :=
  (congrArg (·.2.terms) h).symm.trans (terms_allowance_withdraw a category n now f)

/-- One visit of a lane keeps the background and the terms, whether a datagram leaves it or not. -/
theorem keeps_of_serveLane {lane : Lane} {d : Option Octets}
    (h : t.serveLane lane now = .ok (d, t')) : Keeps t t' := by
  obtain ⟨q, -, -, rfl⟩ | ⟨p, q, forest, -, hwithdraw, -, rfl⟩ |
    ⟨p, q, forest, datagram, circuit, -, hwithdraw, hsent, -, rfl⟩ := serveLane_eq_ok h
  · exact ⟨rfl, rfl⟩
  · exact ⟨rfl, terms_of_withdraw hwithdraw⟩
  · exact ⟨(untouched_background.transmit hsent).trans rfl, terms_of_withdraw hwithdraw⟩

/-- A lane that can not be served keeps what any other does. -/
theorem keeps_of_serveLane_error {lane : Lane} {fault : Fault}
    (h : t.serveLane lane now = .error (fault, t')) : Keeps t t' := by
  obtain ⟨p, q, forest, -, hwithdraw, -, rfl⟩ := serveLane_eq_error h
  exact ⟨(untouched_background.spoiled p _).trans rfl, terms_of_withdraw hwithdraw⟩

theorem keeps_of_serveResends (h : t.serveResends now = .ok t') : Keeps t t' := by
  have hkeeps : ComesTo (Keeps t) now (t.serveResends now) := comesTo_serveResends (fun _ _ h ↦ h)
    (fun h hlane ↦ h.trans (keeps_of_serveLane hlane)) ⟨rfl, rfl⟩
  rwa [h] at hkeeps

theorem keeps_of_serveOrdinary {lane : Lane} (h : t.serveOrdinary now lane = .ok t') :
    Keeps t t' := by
  have hkeeps : ComesTo (Keeps t) now (t.serveOrdinary now lane) := comesTo_serveOrdinary (fun _ _ h ↦ h)
    (fun h hlane ↦ h.trans (keeps_of_serveLane hlane)) ⟨rfl, rfl⟩ lane
  rwa [h] at hkeeps

/-- All states of a tick keep the background and the terms of the state before the lanes are served. -/
theorem comesTo_keeps (now : Instant) (t : Turn) :
    ComesTo (Keeps t) now (t.serveLanes now) :=
  comesTo_serveLanes (fun _ _ h ↦ h) (fun h hlane ↦ h.trans (keeps_of_serveLane hlane)) ⟨rfl, rfl⟩

/-- All lanes together keep the background and the terms. -/
theorem keeps_of_serveLanes (h : t.serveLanes now = .ok t') : Keeps t t' := by
  have hkeeps := comesTo_keeps now t
  rwa [h] at hkeeps

end Turn

namespace Circuit

/-- What is due anyway keeps the background, and the terms of the buckets. -/
theorem keeps_checks (now : Instant) (c : Circuit) (f : Forest) :
    Turn.Keeps { circuit := c, forest := f }
      (((Turn.checkResends now { circuit := c, forest := f }).checkAcks now).checkPing now) :=
  ((Turn.keeps_checkResends now _).trans (Turn.keeps_checkAcks now _)).trans (Turn.keeps_checkPing now _)

/-- A tick keeps the background of the circuit, and the terms of the buckets. -/
theorem background_of_tick {now : Instant} {c : Circuit} {f : Forest} {t : Turn}
    (h : c.tick now f = .ok t) :
    t.circuit.background = c.background ∧ t.forest.terms = f.terms := by
  obtain ⟨-, rfl⟩ | ⟨-, t₁, hlanes, rfl⟩ := tick_eq_ok h
  · exact ⟨rfl, rfl⟩
  · have hkeeps := (keeps_checks now c f).trans (Turn.keeps_of_serveLanes hlanes)
    exact ⟨hkeeps.1, hkeeps.2⟩

/-- A tick that ends with a fault keeps them as well. -/
theorem background_of_tick_error {now : Instant} {c : Circuit} {f : Forest} {t : Turn} {fault : Fault}
    (h : c.tick now f = .error (fault, t)) :
    t.circuit.background = c.background ∧ t.forest.terms = f.terms := by
  have hkeeps := Turn.comesTo_keeps now
    (((Turn.checkResends now { circuit := c, forest := f }).checkAcks now).checkPing now)
  rw [(tick_eq_error h).2] at hkeeps
  obtain ⟨u, lane, hu, hlane⟩ := hkeeps
  exact ((keeps_checks now c f).trans hu).trans (Turn.keeps_of_serveLane_error hlane)

/-- **A tick** changes neither the standing of the circuit nor the terms of a bucket. -/
theorem keeps_of_tick {now : Instant} {c : Circuit} {f : Forest} {t : Turn}
    (h : c.tick now f = .ok t) : t.circuit.standing = c.standing ∧ t.forest.terms = f.terms :=
  (background_of_tick h).imp_left standing_of_background

/-- A new circuit is open, has the session and the address that it is set up with, and takes from an
allowance that was opened for it. -/
theorem exists_of_opened {session : Session} {address : Address} {config : Config}
    {root : BucketId} {now : Instant} {f f' : Forest} {c : Circuit}
    (h : opened session address config root now f = .ok (c, f')) :
    c.session = session ∧ c.address = address ∧ c.isClosed = false ∧
      ∃ rates, Allowance.opened root config.circuitRate rates config.burstTime config.mtu now f =
        .ok (c.allowance, f') := by
  obtain ⟨allowance, hallowance, hbegun⟩ := opened_eq_ok_iff.1 h
  obtain ⟨roundTrip, tracker, -, -, rfl⟩ := begun_eq_ok hbegun
  exact ⟨rfl, rfl, rfl, _, hallowance⟩

end Circuit

end DatagramCircuits
