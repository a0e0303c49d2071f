import DatagramCircuits.Circuit.LaneQueue
import DatagramCircuits.Circuit.Phase
import DatagramCircuits.Config
import DatagramCircuits.Delivery.Tracker
import DatagramCircuits.Identity
import DatagramCircuits.Message.Control
import DatagramCircuits.Datagram.Framing
import DatagramCircuits.Traffic.Allowance
/-!
# Circuits

A circuit is the state of a server towards one agent at one address: queues by lane, the account of
reliable delivery, an allowance of octets, timers and counters.

**A circuit is a value,** and what happens to it is a function from the circuit, the instant and
sometimes the forest of buckets to the new values. Modules beside this one hold what it makes of an
arriving datagram (`Receive`), the messages of the protocol that it sends (`Signals`), and its regular
work (`Tick`).

**A closed circuit stays closed.** Closing empties the queues and the account, gives the allowance
back, and is reported only once.
-/

namespace DatagramCircuits

/-- What is known about the session of an authorized agent. -/
structure Session where
  /-- The agent, which also names the circuit. -/
  agent : Uuid
  /-- The session. -/
  session : Uuid
  /-- The code that goes with the session. -/
  code : UInt32
  /-- The rates to start with, instead of the configured ones. -/
  initialRates : Option Rates := none
deriving DecidableEq, Repr

/-- The state towards one agent at one address. -/
structure Circuit where
  /-- Whom the circuit belongs to. -/
  session : Session
  /-- The address of the peer. -/
  address : Address
  /-- The settings. -/
  config : Config
  /-- The buckets of the circuit. -/
  allowance : Allowance
  /-- Where the circuit is in its life. -/
  phase : Phase := .connecting
  /-- The datagrams that wait to be sent. -/
  queues : PerLane LaneQueue := PerLane.replicate {}
  /-- The next sequence number, which is never 0. -/
  nextSequence : UInt32 := 1
  /-- The id of the next ping. -/
  nextPing : UInt8 := 0
  /-- The ping that is not answered yet, and when it was sent. -/
  outstandingPing : Option (UInt8 × Instant) := none
  /-- The account of reliable delivery. -/
  tracker : Tracker
  /-- When something arrived last. -/
  lastReceived : Instant
  /-- When to look for datagrams to be sent again. -/
  resendDue : Instant
  /-- When to send acknowledgements. -/
  ackDue : Instant
  /-- When to send a ping. -/
  pingDue : Instant
  /-- When a notice of empty queues was begun last. -/
  lastQueueEmpty : Option Instant := none
  /-- Whether a notice of empty queues is under way. -/
  queueEmptyBusy : Bool := false
  /-- Datagrams sent. -/
  sent : UInt64 := 0
  /-- Datagrams sent again. -/
  resent : UInt64 := 0
  /-- Datagrams received. -/
  received : UInt64 := 0
  /-- Ticks with too many datagrams waiting for an acknowledgement. -/
  stalls : UInt64 := 0

namespace Circuit

/-- A circuit that knows nothing yet, with its buckets. What it is to remember needs room, and the
timers run out at instants of the clock. -/
def begun (session : Session) (address : Address) (config : Config) (allowance : Allowance)
    (now : Instant) : Except Fault Circuit := do
  let roundTrip ←
    RoundTrip.unsampled config.initialTimeout config.minTimeout config.maxTimeout config.smoothing
  let tracker ← Tracker.create roundTrip config.seenCapacity
  let resendDue ← Instant.after now config.resendInterval
  let ackDue ← Instant.after now config.ackInterval
  let pingDue ← Instant.after now config.pingInterval
  return {
    session, address, config, allowance, tracker, resendDue, ackDue, pingDue
    lastReceived := now }

/-- Opens a circuit below the bucket of the server. A fault comes with the buckets as it leaves them:
those of the circuit are not taken back. -/
def opened (session : Session) (address : Address) (config : Config) (root : BucketId)
    (now : Instant) (f : Forest) : Except (Fault × Forest) (Circuit × Forest) := do
  let rates := session.initialRates.getD config.defaultRates
  let (allowance, f) ←
    (Allowance.opened root config.circuitRate rates config.burstTime config.mtu now f).mapError (·, f)
  let c ← (begun session address config allowance now).mapError (·, f)
  return (c, f)

section Opening

variable {session : Session} {address : Address} {config : Config} {allowance : Allowance}
  {root : BucketId} {now : Instant} {f f' : Forest} {c : Circuit} {fault : Fault}

/-- A circuit has all its timers set to instants of the clock, and its allowance as it is given. -/
theorem begun_eq_ok (h : begun session address config allowance now = .ok c) :
    ∃ roundTrip tracker,
      RoundTrip.unsampled config.initialTimeout config.minTimeout config.maxTimeout
        config.smoothing = .ok roundTrip ∧
      Tracker.create roundTrip config.seenCapacity = .ok tracker ∧
      c = {
        session, address, config, allowance, tracker
        lastReceived := now
        resendDue := now + config.resendInterval
        ackDue := now + config.ackInterval
        pingDue := now + config.pingInterval } := by
  obtain ⟨roundTrip, hround, h⟩ := bind_eq_ok_iff.1 h
  obtain ⟨tracker, htracker, h⟩ := bind_eq_ok_iff.1 h
  obtain ⟨resendDue, hresend, h⟩ := bind_eq_ok_iff.1 h
  obtain ⟨ackDue, hack, h⟩ := bind_eq_ok_iff.1 h
  obtain ⟨pingDue, hping, h⟩ := bind_eq_ok_iff.1 h
  obtain ⟨-, rfl⟩ := Instant.after_eq_ok_iff.1 hresend
  obtain ⟨-, rfl⟩ := Instant.after_eq_ok_iff.1 hack
  obtain ⟨-, rfl⟩ := Instant.after_eq_ok_iff.1 hping
  exact ⟨roundTrip, tracker, hround, htracker, (Except.ok.inj h).symm⟩

/-- A circuit is open once its buckets are, and it can begin. -/
theorem opened_eq_ok_iff : opened session address config root now f = .ok (c, f') ↔
    ∃ allowance, Allowance.opened root config.circuitRate
        (session.initialRates.getD config.defaultRates) config.burstTime config.mtu now f =
          .ok (allowance, f') ∧
      begun session address config allowance now = .ok c := by
  simp only [opened, bind_eq_ok_iff, mapError_eq_ok_iff, Prod.exists]
  refine ⟨?_, ?_⟩
  · rintro ⟨allowance, forest, hallowance, c', hbegun, h⟩
    obtain ⟨rfl, rfl⟩ := Prod.mk.inj (Except.ok.inj h)
    exact ⟨allowance, hallowance, hbegun⟩
  · rintro ⟨allowance, hallowance, hbegun⟩
    exact ⟨allowance, f', hallowance, c, hbegun, rfl⟩

/-- A fault leaves the buckets as they were, or it came when those of the circuit were there. -/
theorem opened_eq_error_iff : opened session address config root now f = .error (fault, f') ↔
    Allowance.opened root config.circuitRate (session.initialRates.getD config.defaultRates)
        config.burstTime config.mtu now f = .error fault ∧ f = f' ∨
      ∃ allowance, Allowance.opened root config.circuitRate
          (session.initialRates.getD config.defaultRates) config.burstTime config.mtu now f =
            .ok (allowance, f') ∧
        begun session address config allowance now = .error fault := by
  cases hallowance : Allowance.opened root config.circuitRate
    (session.initialRates.getD config.defaultRates) config.burstTime config.mtu now f with
  | error e => simp [opened, hallowance, bind, Except.bind]
  | ok r =>
    cases hbegun : begun session address config r.1 now <;>
      simp [opened, hallowance, hbegun, bind, Except.bind, pure, Except.pure, Prod.ext_iff, and_comm,
        and_assoc]

end Opening

/-- The agent of the circuit. -/
def agent (c : Circuit) : Uuid :=
  c.session.agent

/-- Whether the circuit is closed. -/
def isClosed (c : Circuit) : Bool :=
  c.phase == .disconnected

/-! ### Phases -/

/-- Goes from one phase to another, if the circuit is in the first one. -/
def transition (source target : Phase) (c : Circuit) : Bool × Circuit :=
  if c.phase = source then (true, { c with phase := target }) else (false, c)

/-- Takes the circuit into use. -/
def connect (c : Circuit) : Bool × Circuit :=
  c.transition .connecting .connected

/-- Expects the peer to be silent for longer. -/
def pause (c : Circuit) : Bool × Circuit :=
  c.transition .connected .paused

/-- Ends a pause. -/
def resume (c : Circuit) : Bool × Circuit :=
  c.transition .paused .connected

/-- Closes the circuit, if that did not happen before. -/
def close (c : Circuit) (f : Forest) : Bool × Circuit × Forest :=
  if c.isClosed then (false, c, f)
  else
    (true,
      { c with
        phase := .disconnected
        queues := PerLane.replicate {}
        outstandingPing := none
        tracker := c.tracker.clear },
      c.allowance.detach f)

/-- How long the peer may be silent. -/
def livenessTimeout (c : Circuit) : Span :=
  if c.phase = .paused then c.config.pausedLiveness else c.config.liveness

/-- Whether the peer is silent for too long. -/
def isTimedOut (now : Instant) (c : Circuit) : Bool :=
  decide (c.livenessTimeout < now - c.lastReceived)

/-! ### Queues -/

/-- Why a message is not accepted for sending. -/
inductive SendError where
  /-- The category has no queue. -/
  | noQueue (category : Category)
  /-- The message can not be framed. -/
  | frame (e : Message.FrameError)
  /-- The circuit of the agent is closed. -/
  | closed (agent : Uuid)
  /-- The agent has no circuit. -/
  | noCircuit (agent : Uuid)
deriving DecidableEq, Repr

/-- The wording of a refusal. -/
def SendError.message : SendError → String
  | noQueue category => s!"category {category.name} has no outbound queue"
  | frame e => e.message
  | closed agent => s!"connection {agent.text} is closed"
  | noCircuit agent => s!"no connection for {agent.text}"

/-- The circuit with a datagram at the end of a queue. -/
def push (lane : Lane) (p : Outgoing) (c : Circuit) : Circuit :=
  { c with queues := c.queues.modify lane (·.push p) }

/-- Puts a datagram into the queue of its category. -/
def enqueue (p : Outgoing) (c : Circuit) : Except SendError Circuit :=
  match p.category with
  | .unthrottled => .error (.noQueue p.category)
  | .throttled lane => if c.isClosed then .error (.closed c.agent) else .ok (c.push lane p)

/-- Frames a message and puts its datagrams into the queue of the category. -/
def send (category : Category) (m : Message) (reliable notify : Bool) (c : Circuit) :
    Except SendError Circuit :=
  match category with
  | .unthrottled => .error (.noQueue category)
  | .throttled lane => do
    let datagrams ← (m.frame reliable c.config.mtu).mapError .frame
    if c.isClosed then throw (.closed c.agent)
    return datagrams.foldl (fun c buffer ↦ c.push lane { category, buffer, notify }) c

/-! ### Rates -/

/-- Negotiates the rates of the lanes anew. -/
def renegotiate (requested : Rates) (now : Instant) (c : Circuit) (f : Forest) :
    Except Fault (Adjustment × Forest) :=
  c.allowance.renegotiate c.config.warnings requested now f

/-- The rates that the lanes have now. -/
def rates (c : Circuit) (f : Forest) : Rates :=
  c.allowance.rates f

/-! ### Notices of empty queues -/

/-- Begins a notice of empty queues, unless one is under way or the last one was begun too recently. -/
def beginQueueEmpty (now : Instant) (c : Circuit) : Bool × Circuit :=
  let tooSoon := c.lastQueueEmpty.any fun last ↦ decide (now - last < c.config.queueEmptyInterval)
  if tooSoon || c.queueEmptyBusy then (false, c)
  else (true, { c with queueEmptyBusy := true, lastQueueEmpty := some now })

/-- Ends a notice of empty queues. -/
def endQueueEmpty (c : Circuit) : Circuit :=
  { c with queueEmptyBusy := false }

/-! ### Summary -/

/-- The figures of a circuit. -/
structure Summary where
  /-- The agent. -/
  agent : Uuid
  /-- The address of the peer. -/
  address : Address
  /-- Where the circuit is in its life. -/
  phase : Phase
  /-- How many datagrams wait in each lane. -/
  depths : PerLane Nat
  /-- How many datagrams wait for an acknowledgement. -/
  unacked : Nat
  /-- How many acknowledgements are still to be sent. -/
  pendingAcks : Nat
  /-- The estimate of the round trip. -/
  smoothed : Option Span
  /-- The timeout for an acknowledgement. -/
  timeout : Span
  /-- Datagrams sent. -/
  sent : UInt64
  /-- Datagrams sent again. -/
  resent : UInt64
  /-- Datagrams received. -/
  received : UInt64
  /-- Ticks with too many datagrams waiting for an acknowledgement. -/
  stalls : UInt64
  /-- The rates of the lanes. -/
  rates : Rates
deriving DecidableEq, Repr

/-- The figures of the circuit. -/
def summary (c : Circuit) (f : Forest) : Summary where
  agent := c.agent
  address := c.address
  phase := c.phase
  depths := c.queues.map LaneQueue.depth
  unacked := c.tracker.unacked.length
  pendingAcks := c.tracker.pendingAcks.length
  smoothed := c.tracker.roundTrip.smoothed
  timeout := c.tracker.roundTrip.timeout
  sent := c.sent
  resent := c.resent
  received := c.received
  stalls := c.stalls
  rates := c.rates f

end Circuit

end DatagramCircuits
