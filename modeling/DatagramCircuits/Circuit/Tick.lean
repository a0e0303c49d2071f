import DatagramCircuits.Circuit.Event
import DatagramCircuits.Circuit.Signals
/-!
# Ticks

The regular work of a circuit: look for datagrams to be sent again, send acknowledgements, send a
ping, each when its time has come; then serve the queues. The lane of resent datagrams is served
first. Unless too many datagrams wait for an acknowledgement, each of the other lanes sends one
datagram after that, if it has one and the allowance affords it.

**A sequence number is given at the first transmission.** The datagram with it is what goes into the
account and is sent again later, with the flag for that set; acknowledgements that travel along are
put behind the copy that is sent, and never into the account.

**A datagram whose sender wants to hear of it is not sent again.** When its time is up it leaves the
account and is handed out. Acknowledgements do not travel with it.

**A fault ends a tick in the midst.** What the tick did to the circuit and to the buckets by then stays
done, and its output is lost.
-/

namespace DatagramCircuits

/-- What a tick produced. -/
structure TickOutput where
  /-- The datagrams to be sent. -/
  datagrams : List Octets := []
  /-- The ordinary lanes that have nothing left to send. -/
  emptied : List Lane := []
  /-- Whether new datagrams were held back since too many wait for an acknowledgement. -/
  stalled : Bool := false
  /-- The number of datagrams sent out of the lane of resent ones. -/
  resent : Nat := 0
  /-- The number of datagrams given up because of their age. -/
  droppedUnacked : Nat := 0
  /-- The datagrams whose senders are to hear that they were not acknowledged. -/
  unacknowledged : List Outgoing := []
deriving DecidableEq, Repr

/-- A tick in progress. -/
structure Turn where
  /-- The circuit. -/
  circuit : Circuit
  /-- The buckets that all circuits draw from. -/
  forest : Forest
  /-- What was produced so far. -/
  output : TickOutput := {}
  /-- What happened so far. Nothing depends on it. -/
  log : List Circuit.Event := []

namespace Circuit

/-! ### Transmission -/

/-- Puts acknowledgements behind a datagram, as many as there is room for, if acknowledgements may
travel with it. -/
def piggyback (mtu : Nat) (p : Outgoing) (datagram : Octets) (t : Tracker) : Octets × Tracker :=
  if p.isReliable && !p.notify then
    let (n, longer) := Datagram.appendAcks mtu (t.peekAcks Datagram.maxAppendedAcks) datagram
    (longer, (t.takeAcks n).2)
  else (datagram, t)

/-- The sequence number after the given one; 0 is left out. -/
def followingSequence (n : UInt32) : UInt32 :=
  max (n + 1) 1

/-- Sends a datagram for the first time. -/
def transmitFirst (p : Outgoing) (now : Instant) (c : Circuit) : Except Fault (Octets × Circuit) := do
  let buffer ← Datagram.setSequence c.nextSequence p.buffer
  let (datagram, tracker) := piggyback c.config.mtu p buffer c.tracker
  let sent :=
    { p with buffer, sequence := c.nextSequence, firstSend := some now, lastSend := some now }
  let tracker := if p.isReliable then tracker.track sent else tracker
  return (datagram, { c with tracker, nextSequence := followingSequence c.nextSequence })

/-- Sends a datagram again. -/
def transmitAgain (p : Outgoing) (now : Instant) (c : Circuit) : Except Fault (Octets × Circuit) := do
  let datagram ← Datagram.setFlags (p.flags ||| { resent := true }) p.buffer
  let (_, tracker) ← c.tracker.noteResent p.sequence now
  let (datagram, tracker) := piggyback c.config.mtu p datagram tracker
  return (datagram, { c with tracker })

/-- Sends a datagram. One with a sequence number was sent before. -/
def transmit (p : Outgoing) (now : Instant) (c : Circuit) : Except Fault (Octets × Circuit) :=
  if p.sequence = 0 then c.transmitFirst p now else c.transmitAgain p now

/-- The circuit that a fault in sending a datagram leaves behind: a first transmission has used up its
sequence number. -/
def spoiled (p : Outgoing) (c : Circuit) : Circuit :=
  if p.sequence = 0 then { c with nextSequence := followingSequence c.nextSequence } else c

/-! ### Datagrams that were not acknowledged -/

/-- Whether there is still a use for a datagram: it was not sent yet, or is not acknowledged. -/
def isUseful (c : Circuit) (p : Outgoing) : Bool :=
  p.sequence == 0 || c.tracker.isUnacked p.sequence

/-- The circuit after the time for an acknowledgement of a datagram was up. -/
def giveBack (c : Circuit) (p : Outgoing) : Circuit :=
  if p.notify then { c with tracker := (c.tracker.remove p.sequence).2 }
  else c.push .resend { p with category := .throttled .resend }

/-- Gives up what is too old, if anything ever is. -/
def dropOutdated (now : Instant) (c : Circuit) : List Outgoing × Circuit :=
  match c.config.maxUnackedAge with
  | none => ([], c)
  | some age =>
    let (dropped, tracker) := c.tracker.dropOlder age now
    (dropped, { c with tracker })

/-- Looks for datagrams whose time is up: they are queued to be sent again, or handed out. -/
def collectExpired (now : Instant) (c : Circuit) : List Outgoing × Circuit :=
  let (expired, tracker) := c.tracker.expire now
  (expired.filter Outgoing.notify, expired.foldl giveBack { c with tracker })

end Circuit

namespace Turn

/-- Adds datagrams to the output. -/
def emit (l : List Octets) (t : Turn) : Turn :=
  { t with output := { t.output with datagrams := t.output.datagrams ++ l } }

/-- Notes what happened. -/
def note (l : List Circuit.Event) (t : Turn) : Turn :=
  { t with log := t.log ++ l }

/-- Adds messages of the protocol to the output. -/
def signal (l : List Octets) (t : Turn) : Turn :=
  (t.emit l).note (l.map .signalled)

/-- The search for datagrams to be sent again, when it is due. -/
def checkResends (now : Instant) (t : Turn) : Turn :=
  let c := t.circuit
  if now < c.resendDue then t
  else
    let (dropped, c) := { c with resendDue := now + c.config.resendInterval }.dropOutdated now
    let (unacknowledged, c) := c.collectExpired now
    let output := { t.output with droppedUnacked := dropped.length, unacknowledged }
    { t with circuit := c, output }.note
      (dropped.map Circuit.Event.outdated ++ unacknowledged.map Circuit.Event.unacknowledged)

/-- The sending of acknowledgements, when it is due. -/
def checkAcks (now : Instant) (t : Turn) : Turn :=
  let c := t.circuit
  if now < c.ackDue then t
  else
    let (l, tracker) := Circuit.ackDatagrams c.config.mtu c.tracker
    { t with circuit := { c with tracker, ackDue := now + c.config.ackInterval } }.signal l

/-- The sending of a ping, when it is due. -/
def checkPing (now : Instant) (t : Turn) : Turn :=
  let c := t.circuit
  if now < c.pingDue then t
  else
    let (d, c) := { c with pingDue := now + c.config.pingInterval }.nextPingDatagram now
    { t with circuit := c }.signal d.toList

/-- Sends the first useful datagram of a lane, if the allowance affords it; otherwise it is held back. A
datagram that is at fault is lost, and what it took of the allowance is not given back. -/
def serveLane (lane : Lane) (now : Instant) (t : Turn) : Except (Fault × Turn) (Option Octets × Turn) :=
  let c := t.circuit
  match (c.queues.get lane).take? c.isUseful with
  | (none, q) => .ok (none, { t with circuit := { c with queues := c.queues.set lane q } })
  | (some p, q) =>
    match c.allowance.withdraw (.throttled lane) p.length now t.forest with
    | (false, forest) =>
      .ok (none, { t with circuit := { c with queues := c.queues.set lane (q.holdBack p) }, forest })
    | (true, forest) =>
      let c := { c with queues := c.queues.set lane q }
      match c.transmit p now with
      | .ok (d, circuit) => .ok (some d, { t with circuit, forest }.note [.transmitted p d now])
      | .error fault => .error (fault, { t with circuit := c.spoiled p, forest })

/-- Serves the lane of resent datagrams, and counts what it sends. -/
def serveResends (now : Instant) (t : Turn) : Except (Fault × Turn) Turn := do
  match ← t.serveLane .resend now with
  | (none, t) => return t
  | (some d, t) =>
    let t := t.emit [d]
    return { t with output := { t.output with resent := t.output.resent + 1 } }

/-- Serves an ordinary lane, and tells if nothing is left in it. -/
def serveOrdinary (now : Instant) (t : Turn) (lane : Lane) : Except (Fault × Turn) Turn := do
  let (d, t) ← t.serveLane lane now
  let t := t.emit d.toList
  if (t.circuit.queues.get lane).isEmpty then
    return { t with output := { t.output with emptied := t.output.emptied ++ [lane] } }
  else return t

/-- Whether so many datagrams wait for an acknowledgement that new ones have to wait. -/
def isStalled (t : Turn) : Bool :=
  decide (t.circuit.config.highWater < t.circuit.tracker.unacked.length)

/-- Serves all lanes. -/
def serveLanes (now : Instant) (t : Turn) : Except (Fault × Turn) Turn := do
  let t ← t.serveResends now
  if t.isStalled then return { t with output := { t.output with stalled := true } }
  else Lane.ordinary.foldlM (serveOrdinary now) t

/-- Counts what the tick produced. -/
def count (t : Turn) : Turn :=
  let c := t.circuit
  { t with
    circuit :=
      { c with
        sent := c.sent + UInt64.ofNat t.output.datagrams.length
        resent := c.resent + UInt64.ofNat t.output.resent
        stalls := if t.output.stalled then c.stalls + 1 else c.stalls } }

/-! ### Outcomes -/

section Outcome

variable {now : Instant} {lane : Lane} {t t' : Turn} {fault : Fault}

/-- Serving a lane without a fault finds nothing of use, or holds the next datagram back, or sends it. -/
theorem serveLane_eq_ok {d : Option Octets} (h : t.serveLane lane now = .ok (d, t')) :
    (∃ q, (t.circuit.queues.get lane).take? t.circuit.isUseful = (none, q) ∧ d = none ∧
      t' = { t with circuit := { t.circuit with queues := t.circuit.queues.set lane q } }) ∨
    (∃ p q forest, (t.circuit.queues.get lane).take? t.circuit.isUseful = (some p, q) ∧
      t.circuit.allowance.withdraw (.throttled lane) p.length now t.forest = (false, forest) ∧
      d = none ∧ t' = { t with
        circuit := { t.circuit with queues := t.circuit.queues.set lane (q.holdBack p) }, forest }) ∨
    ∃ p q forest datagram circuit,
      (t.circuit.queues.get lane).take? t.circuit.isUseful = (some p, q) ∧
      t.circuit.allowance.withdraw (.throttled lane) p.length now t.forest = (true, forest) ∧
      { t.circuit with queues := t.circuit.queues.set lane q }.transmit p now =
        .ok (datagram, circuit) ∧
      d = some datagram ∧
      t' = { t with circuit, forest }.note [.transmitted p datagram now] := by
  rw [serveLane] at h
  dsimp only at h
  split at h
  · rename_i q htake
    obtain ⟨rfl, rfl⟩ := Prod.mk.inj (Except.ok.inj h)
    exact .inl ⟨q, htake, rfl, rfl⟩
  · rename_i p q htake
    split at h
    · rename_i forest hwithdraw
      obtain ⟨rfl, rfl⟩ := Prod.mk.inj (Except.ok.inj h)
      exact .inr (.inl ⟨p, q, forest, htake, hwithdraw, rfl, rfl⟩)
    · rename_i forest hwithdraw
      split at h
      · rename_i datagram circuit hsent
        obtain ⟨rfl, rfl⟩ := Prod.mk.inj (Except.ok.inj h)
        exact .inr (.inr ⟨p, q, forest, datagram, circuit, htake, hwithdraw, hsent, rfl, rfl⟩)
      · cases h

/-- A fault in serving a lane is one in sending the next datagram. -/
theorem serveLane_eq_error (h : t.serveLane lane now = .error (fault, t')) :
    ∃ p q forest, (t.circuit.queues.get lane).take? t.circuit.isUseful = (some p, q) ∧
      t.circuit.allowance.withdraw (.throttled lane) p.length now t.forest = (true, forest) ∧
      { t.circuit with queues := t.circuit.queues.set lane q }.transmit p now = .error fault ∧
      t' = { t with
        circuit := { t.circuit with queues := t.circuit.queues.set lane q }.spoiled p, forest } := by
  rw [serveLane] at h
  dsimp only at h
  split at h
  · cases h
  · rename_i p q htake
    split at h
    · cases h
    · rename_i forest hwithdraw
      split at h
      · cases h
      · rename_i fault' hsent
        obtain ⟨rfl, rfl⟩ := Prod.mk.inj (Except.error.inj h)
        exact ⟨p, q, forest, htake, hwithdraw, hsent, rfl⟩

/-- A part of a tick comes to a state with the property, or it ends with a fault in serving a lane in
such a state. -/
def ComesTo (motive : Turn → Prop) (now : Instant) : Except (Fault × Turn) Turn → Prop
  | .ok t => motive t
  | .error (fault, t') => ∃ t lane, motive t ∧ t.serveLane lane now = .error (fault, t')

variable {motive : Turn → Prop}

theorem ComesTo.bind {x : Except (Fault × Turn) Turn} {next : Turn → Except (Fault × Turn) Turn}
    (h : ComesTo motive now x) (hnext : ∀ t, motive t → ComesTo motive now (next t)) :
    ComesTo motive now (x >>= next) := by
  cases x with
  | ok t => exact hnext t h
  | error e => exact h

section Preserved

variable (houtput : ∀ t output, motive t → motive { t with output })
  (hserve : ∀ {t t' lane d}, motive t → t.serveLane lane now = .ok (d, t') → motive t')

include houtput hserve

theorem comesTo_serveResends (h : motive t) : ComesTo motive now (t.serveResends now) := by
  rw [serveResends]
  cases hlane : t.serveLane .resend now with
  | error e => exact ⟨t, .resend, h, hlane⟩
  | ok r =>
    obtain ⟨_ | d, t'⟩ := r
    · exact hserve h hlane
    · exact houtput t' _ (hserve h hlane)

theorem comesTo_serveOrdinary (h : motive t) (lane : Lane) :
    ComesTo motive now (t.serveOrdinary now lane) := by
  rw [serveOrdinary]
  cases hlane : t.serveLane lane now with
  | error e => exact ⟨t, lane, h, hlane⟩
  | ok r =>
    obtain ⟨d, t'⟩ := r
    show ComesTo motive now (if _ then _ else _)
    split
    · exact houtput t' _ (hserve h hlane)
    · exact houtput t' _ (hserve h hlane)

theorem comesTo_foldlM (h : motive t) (lanes : List Lane) :
    ComesTo motive now (lanes.foldlM (serveOrdinary now) t) := by
  induction lanes generalizing t with
  | nil => exact h
  | cons lane lanes ih =>
    rw [List.foldlM_cons]
    exact (comesTo_serveOrdinary houtput hserve h lane).bind fun t ht ↦ ih ht

/-- **What serving a lane preserves, serving all of them preserves.** -/
theorem comesTo_serveLanes (h : motive t) : ComesTo motive now (t.serveLanes now) := by
  rw [serveLanes]
  refine (comesTo_serveResends houtput hserve h).bind fun t ht ↦ ?_
  split
  · exact houtput _ _ ht
  · exact comesTo_foldlM houtput hserve ht _

end Preserved

end Outcome

end Turn

/-- Does the regular work of a circuit. A fault comes with the tick as far as it went. -/
def Circuit.tick (now : Instant) (c : Circuit) (f : Forest) : Except (Fault × Turn) Turn := do
  let t : Turn := { circuit := c, forest := f }
  if c.isClosed then return t
  let t := ((t.checkResends now).checkAcks now).checkPing now
  return (← t.serveLanes now).count

namespace Circuit

variable {now : Instant} {c : Circuit} {f : Forest} {t : Turn}

/-- A tick without a fault does nothing, or serves all lanes after what is due anyway. -/
theorem tick_eq_ok (h : c.tick now f = .ok t) :
    c.isClosed = true ∧ t = { circuit := c, forest := f } ∨
      c.isClosed = false ∧ ∃ t₁,
        (((Turn.checkResends now { circuit := c, forest := f }).checkAcks now).checkPing
          now).serveLanes now = .ok t₁ ∧ t = t₁.count := by
  rw [tick] at h
  dsimp only at h
  split at h
  · rename_i hclosed
    exact .inl ⟨hclosed, (Except.ok.inj h).symm⟩
  · rename_i hopen
    obtain ⟨t₁, hlanes, h⟩ := bind_eq_ok_iff.1 h
    exact .inr ⟨eq_false_of_ne_true hopen, t₁, hlanes, (Except.ok.inj h).symm⟩

/-- A fault in a tick is one in serving the lanes. -/
theorem tick_eq_error {fault : Fault} (h : c.tick now f = .error (fault, t)) :
    c.isClosed = false ∧
      (((Turn.checkResends now { circuit := c, forest := f }).checkAcks now).checkPing
        now).serveLanes now = .error (fault, t) := by
  rw [tick] at h
  dsimp only at h
  split at h
  · cases h
  · rename_i hopen
    rcases bind_eq_error_iff.1 h with h | ⟨t₁, -, h⟩
    · exact ⟨eq_false_of_ne_true hopen, h⟩
    · cases h

end Circuit

end DatagramCircuits
