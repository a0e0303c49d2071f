import DatagramCircuits.Proofs.Chain
import DatagramCircuits.Proofs.Record
import DatagramCircuits.Proofs.Work
/-!
# The moves of a circuit

Whatever is done with a circuit, it makes a few kinds of **moves**, each recorded by what happened in it.
Every operation is a chain of moves whose record is the record of the operation
(`moves_of_apply`), so an invariant is proved once per move, and not once per operation.

The kinds are sorted by what they may touch.

* `Quiet` moves leave the queues, the numbering and the entries of the account alone
  (`Quiet.sameBooks`): acknowledgements and pings are sent, timers and counters move.
* `Arrival` moves take a datagram in, and leave the same things alone. What is to be acknowledged grows.
* `Service` moves are those of a tick once it has looked for datagrams to be sent again. They all
  happen at the instant of the tick, and none of them changes the timeout.
* `Move` adds the rest: queuing, the ways out of the account, and samples of the round trip.
-/

namespace DatagramCircuits

namespace Circuit

/-- The operation puts nothing into a queue but what it frames from a message with the property. -/
def Operation.QueuesOnly (P : Message → Prop) : Operation → Prop
  | .send _ m _ _ => P m
  | .enqueue _ => False
  | _ => True

/-- The two circuits differ at most in phase, timers and counters, and both of them are closed or none. -/
structure SameWork (c c' : Circuit) : Prop where
  config : c'.config = c.config
  queues : c'.queues = c.queues
  nextSequence : c'.nextSequence = c.nextSequence
  nextPing : c'.nextPing = c.nextPing
  outstandingPing : c'.outstandingPing = c.outstandingPing
  tracker : c'.tracker = c.tracker
  isClosed : c'.isClosed = c.isClosed

/-- The two circuits agree in queues, numbering, the entries of the account, and the estimate of the
round trip. -/
structure SameBooks (c c' : Circuit) : Prop where
  config : c'.config = c.config
  queues : c'.queues = c.queues
  nextSequence : c'.nextSequence = c.nextSequence
  unacked : c'.tracker.unacked = c.tracker.unacked
  roundTrip : c'.tracker.roundTrip = c.tracker.roundTrip

theorem SameWork.rfl {c : Circuit} : SameWork c c :=
  ⟨Eq.refl _, Eq.refl _, Eq.refl _, Eq.refl _, Eq.refl _, Eq.refl _, Eq.refl _⟩

/-- What becomes of a reliable datagram, given whether it arrived before. -/
def reliableDisposition (p : Packet) (known flushAcks : Bool) : Disposition :=
  if known then .duplicate p.isResent else .accept flushAcks

/-- The account with a reliable datagram to be acknowledged. -/
def takeReliable (p : Packet) (bytes : Nat) (t : Tracker) : Tracker :=
  { t with
    pendingAcks := t.pendingAcks ++ [p.header.sequence]
    ackBytes := bytes
    seen := (t.seen.offer p.header.sequence).2 }

/-- The record of a message of the protocol, if it can be framed. -/
def signalEvents (mtu : Nat) (m : Control) : List Event :=
  match signal mtu m with
  | .ok d => [.signalled d]
  | .error _ => []

/-- A move that leaves queues, numbering and the entries of the account alone. -/
inductive Quiet : Circuit → List Event → Circuit → Prop
  /-- Timers, counters and the phase move. -/
  | keep {c c' : Circuit} (h : SameWork c c') : Quiet c [] c'
  /-- Some acknowledgements are sent in a datagram of their own, no more than fit. -/
  | acks (c : Circuit) {n : Nat} (hn : n ≤ acksPerDatagram c.config.mtu) :
    Quiet c (signalEvents c.config.mtu (.acks (c.tracker.peekAcks n)))
      { c with tracker := (c.tracker.takeAcks n).2 }
  /-- A ping is sent. -/
  | ping (c : Circuit) (now : Instant) :
    Quiet c (signalEvents c.config.mtu c.pingMessage) (c.nextPingDatagram now).2
  /-- A ping is answered. -/
  | pong (c : Circuit) (id : UInt8) : Quiet c (signalEvents c.config.mtu (.pong id)) c

/-- A move that takes a datagram in. -/
inductive Arrival : Circuit → List Event → Circuit → Prop
  /-- A datagram arrives that is not to be acknowledged. -/
  | plain (c : Circuit) (p : Packet) {disposition : Disposition}
      (h : disposition = .closed ∨ p.isReliable = false ∧ disposition = .accept false) :
    Arrival c [.arrived p disposition] c
  /-- A datagram arrives that is to be acknowledged. -/
  | reliable (c : Circuit) {p : Packet} (hp : p.isReliable = true) (bytes : Nat)
      (flushAcks : Bool) :
    Arrival c
      [.arrived p (reliableDisposition p (c.tracker.seen.offer p.header.sequence).1 flushAcks)]
      { c with tracker := takeReliable p bytes c.tracker }

/-- A move of a tick that serves the queues. -/
inductive Service (now : Instant) : Circuit → List Event → Circuit → Prop
  /-- Something that leaves the queues alone. -/
  | quiet {c c' : Circuit} {k : List Event} (h : Quiet c k c') : Service now c k c'
  /-- What was of no use is dropped, and nothing is left. -/
  | discard {c : Circuit} {lane : Lane} {q : LaneQueue}
      (h : (c.queues.get lane).take? c.isUseful = (none, q)) :
    Service now c [] { c with queues := c.queues.set lane q }
  /-- The next datagram has to wait. -/
  | holdBack {c : Circuit} {lane : Lane} {p : Outgoing} {q : LaneQueue}
      (h : (c.queues.get lane).take? c.isUseful = (some p, q)) :
    Service now c [] { c with queues := c.queues.set lane (q.holdBack p) }
  /-- The next datagram is sent. -/
  | transmit {c c' : Circuit} {lane : Lane} {p : Outgoing} {q : LaneQueue} {d : Octets}
      (h : (c.queues.get lane).take? c.isUseful = (some p, q))
      (hsent : { c with queues := c.queues.set lane q }.transmit p now = .ok (d, c')) :
    Service now c [.transmitted p d now] c'

/-- A move of a circuit that queues nothing but pieces of messages with the property. -/
inductive Move (P : Message → Prop) : Circuit → List Event → Circuit → Prop
  /-- A move that may also happen in serving the queues. -/
  | service {now : Instant} {c c' : Circuit} {k : List Event} (h : Service now c k c') : Move P c k c'
  /-- A datagram arrives. -/
  | arrival {c c' : Circuit} {k : List Event} (h : Arrival c k c') : Move P c k c'
  /-- A datagram is queued. -/
  | queue (c : Circuit) {lane : Lane} {buffer : Octets} {notify : Bool}
      (h : ({ category := .throttled lane, buffer, notify } : Outgoing).Carries P c.config.mtu) :
    Move P c [.queued { category := .throttled lane, buffer, notify }]
      (c.push lane { category := .throttled lane, buffer, notify })
  /-- An acknowledgement arrives. -/
  | acknowledge (c : Circuit) (n : UInt32) (now : Instant) :
    Move P c ((c.tracker.acknowledge n now).1.toList.map (.acknowledged · now))
      { c with tracker := (c.tracker.acknowledge n now).2 }
  /-- The outstanding ping is answered. -/
  | sample (c : Circuit) (d : Span) :
    Move P c [] { c with outstandingPing := none, tracker := c.tracker.sample d }
  /-- What is too old is given up. -/
  | outdate (c : Circuit) (now : Instant) :
    Move P c ((c.dropOutdated now).1.map .outdated) (c.dropOutdated now).2
  /-- What was not acknowledged in time is queued to be sent again, or handed out. -/
  | expire (c : Circuit) (now : Instant) :
    Move P c ((c.collectExpired now).1.map .unacknowledged) (c.collectExpired now).2
  /-- The circuit is closed. -/
  | close (c : Circuit) :
    Move P c (c.tracker.unacked.map (.cleared ·.packet))
      { c with
        phase := .disconnected
        queues := PerLane.replicate {}
        outstandingPing := none
        tracker := c.tracker.clear }

theorem Move.quiet {P : Message → Prop} {c c' : Circuit} {k : List Event} (h : Quiet c k c') :
    Move P c k c' :=
  .service (show Service 0 c k c' from .quiet h)

/-! ### What quiet moves leave alone -/

theorem Quiet.sameBooks {c c' : Circuit} {k : List Event} (h : Quiet c k c') : SameBooks c c' := by
  cases h with
  | keep h =>
    exact ⟨h.config, h.queues, h.nextSequence, congrArg _ h.tracker, congrArg _ h.tracker⟩
  | acks => exact ⟨rfl, rfl, rfl, rfl, rfl⟩
  | ping =>
    rw [nextPingDatagram]
    split <;> exact ⟨rfl, rfl, rfl, rfl, rfl⟩
  | pong => exact ⟨rfl, rfl, rfl, rfl, rfl⟩

theorem Arrival.sameBooks {c c' : Circuit} {k : List Event} (h : Arrival c k c') :
    SameBooks c c' := by
  cases h <;> exact ⟨rfl, rfl, rfl, rfl, rfl⟩

/-- The record of a message of the protocol tells of nothing else. -/
theorem exists_signalEvents (mtu : Nat) (m : Control) :
    ∃ l : List Octets, signalEvents mtu m = l.map .signalled := by
  rw [signalEvents]
  split
  · rename_i d _
    exact ⟨[d], rfl⟩
  · exact ⟨[], rfl⟩

/-- What is recorded of a message of the protocol is its datagram. -/
theorem signal_of_mem_emissions {mtu : Nat} {m : Control} {d : Octets}
    (h : d ∈ emissions (signalEvents mtu m)) : signal mtu m = .ok d := by
  rw [signalEvents] at h
  split at h
  · rename_i d' hd
    obtain rfl := List.mem_singleton.1 h
    exact hd
  · exact absurd h List.not_mem_nil

/-- What is sent in a quiet move are messages of the protocol, and nothing else happens. -/
theorem Quiet.exists_signalled {c c' : Circuit} {k : List Event} (h : Quiet c k c') :
    ∃ l : List Octets, k = l.map .signalled := by
  cases h with
  | keep h => exact ⟨[], rfl⟩
  | acks => exact exists_signalEvents ..
  | ping => exact exists_signalEvents ..
  | pong => exact exists_signalEvents ..

theorem Arrival.exists_arrived {c c' : Circuit} {k : List Event} (h : Arrival c k c') :
    ∃ p disposition, k = [.arrived p disposition] := by
  cases h <;> exact ⟨_, _, rfl⟩

/-- A quiet move sends nothing out of a queue. -/
theorem Quiet.transmissions_eq_nil {c c' : Circuit} {k : List Event} (h : Quiet c k c') :
    transmissions k = [] := by
  obtain ⟨l, rfl⟩ := h.exists_signalled
  exact filterMap_map_eq_nil (fun _ ↦ rfl) l

/-- In a quiet move nothing leaves the account. -/
theorem Quiet.departures_eq_nil {c c' : Circuit} {k : List Event} (h : Quiet c k c') :
    departures k = [] := by
  obtain ⟨l, rfl⟩ := h.exists_signalled
  exact filterMap_map_eq_nil (fun _ ↦ rfl) l

/-- In a quiet move nothing is put into a queue. -/
theorem Quiet.queued_eq_nil {c c' : Circuit} {k : List Event} (h : Quiet c k c') :
    queued k = [] := by
  obtain ⟨l, rfl⟩ := h.exists_signalled
  exact filterMap_map_eq_nil (fun _ ↦ rfl) l

end Circuit

end DatagramCircuits
