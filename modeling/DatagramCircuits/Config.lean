import DatagramCircuits.Decimal.Shortest
import DatagramCircuits.Span
import DatagramCircuits.Traffic.Rates
/-!
# Configuration

The settings of a server, with the values they have unless they are chosen otherwise, and the check
that they fit together. `Config.check` names the first rule that is broken, in a fixed order;
`Config.Valid` says that none is.
-/

namespace DatagramCircuits

/-- The settings of a server. -/
structure Config where
  /-- The largest size of a datagram, with everything in it. -/
  mtu : Nat := 1400
  /-- Octets per second that all circuits share; zero stands for no limit. -/
  serverRate : UInt64 := 0
  /-- Octets per second of one circuit, which the sum of its lanes is never negotiated above. -/
  circuitRate : UInt64 := 1500000
  /-- The rates of a circuit before its peer asks for others. -/
  defaultRates : Rates := ⟨12500, 62500, 12500, 12500, 62500, 125000, 125000⟩
  /-- The time in which a bucket fills up. -/
  burstTime : Span := Span.second
  /-- The factor by which rates are multiplied when a peer is told about them. -/
  echoMultiplier : Float32 := 1.0
  /-- The timeout for an acknowledgement before the round trip is known. -/
  initialTimeout : Span := Span.second
  /-- The shortest timeout for an acknowledgement. -/
  minTimeout : Span := 500 * Span.millisecond
  /-- The longest timeout for an acknowledgement. -/
  maxTimeout : Span := 20 * Span.second
  /-- The weight of a new sample of the round trip. -/
  smoothing : Float := 0.125
  /-- The time between two searches for datagrams to be sent again. -/
  resendInterval : Span := 100 * Span.millisecond
  /-- The time between two datagrams of acknowledgements. -/
  ackInterval : Span := 500 * Span.millisecond
  /-- The time between two pings. -/
  pingInterval : Span := 5 * Span.second
  /-- How long a peer may be silent. -/
  liveness : Span := 60 * Span.second
  /-- How long the peer of a paused circuit may be silent. -/
  pausedLiveness : Span := 300 * Span.second
  /-- The age at which unacknowledged datagrams are given up, if they ever are. -/
  maxUnackedAge : Option Span := none
  /-- The number of unacknowledged datagrams above which new ones are held back. -/
  highWater : Nat := 50
  /-- How many sequence numbers of the peer are remembered. -/
  seenCapacity : Nat := 1000
  /-- How many datagrams are kept for an address while its circuit is being set up. -/
  maxBuffered : Nat := 50
  /-- The number of shards for circuits that are being set up. -/
  pendingShards : Nat := 16
  /-- How many datagrams may wait to be decoded. -/
  inboxCapacity : Nat := 4096
  /-- How long to wait for a datagram before looking whether to stop. -/
  pollTimeout : Span := 100 * Span.millisecond
  /-- How long to rest after a tick in which nothing was sent. -/
  idleSleep : Span := 5 * Span.millisecond
  /-- The shortest time between two notices of empty queues on one circuit. -/
  queueEmptyInterval : Span := 20 * Span.millisecond
  /-- How many notices of empty queues may wait. -/
  jobCapacity : Nat := 1024
  /-- How many notices of empty queues are worked on at a time. -/
  workers : Nat := 2
  /-- Whether somebody reads warnings. What they say is put together only then. -/
  warnings : Bool := false
deriving Repr

namespace Config

/-- The smallest datagram size that can be configured. -/
def minMtu : Nat := 128

/-- What may be wrong with settings. -/
inductive Error where
  | mtu (mtu : Nat)
  | minTimeoutZero
  | timeoutBounds (low high : Span)
  | initialTimeout (timeout low high : Span)
  | smoothing (weight : Float)
  | circuitRate (rate : UInt64)
  | serverRate (rate : UInt64)
  | burstTimeZero
  | echoMultiplier
  | intervalZero
  | liveness
  | highWaterZero
  | seenCapacityZero
  | pendingShardsZero
  | capacityZero
  | workersZero
deriving DecidableEq, Repr

/-- The wording of what is wrong. -/
def Error.message : Error → String
  | mtu n => s!"MTU {n} is too small - minimum is {minMtu}"
  | minTimeoutZero => "minimum RTO must be positive"
  | timeoutBounds low high =>
    s!"minimum RTO {Span.text low} is bigger than maximum RTO {Span.text high}"
  | initialTimeout timeout low high =>
    s!"initial RTO {Span.text timeout} is outside [{Span.text low}, {Span.text high}]"
  | smoothing weight => s!"RTT smoothing factor must be in (0, 1], was {floatText weight}"
  | circuitRate rate =>
    s!"connection max rate {rate} is below the sum of category floors {Lane.floorTotal}"
  | serverRate rate =>
    s!"server rate {rate} does not allow a single full-size datagram per second"
  | burstTimeZero => "burst time must be positive"
  | echoMultiplier => "throttle echo multiplier must be positive"
  | intervalZero => "timer intervals must be positive"
  | liveness =>
    "paused liveness timeout must be at least the regular liveness timeout, which must be positive"
  | highWaterZero => "unacked high-water mark must be positive"
  | seenCapacityZero => "seen sequence capacity must be positive"
  | pendingShardsZero => "number of pending circuit shards must be positive"
  | capacityZero => "queue capacities must be positive"
  | workersZero => "at least one job worker is required"

/-- The rules, in the order in which they are checked: what would be wrong, and whether it is. -/
def rules (c : Config) : List (Error × Bool) :=
  [(.mtu c.mtu, decide (c.mtu < minMtu)),
    (.minTimeoutZero, c.minTimeout == 0),
    (.timeoutBounds c.minTimeout c.maxTimeout, decide (c.maxTimeout < c.minTimeout)),
    (.initialTimeout c.initialTimeout c.minTimeout c.maxTimeout,
      decide (c.initialTimeout < c.minTimeout ∨ c.maxTimeout < c.initialTimeout)),
    (.smoothing c.smoothing, !decide (0.0 < c.smoothing ∧ c.smoothing ≤ 1.0)),
    (.circuitRate c.circuitRate, decide (c.circuitRate.toNat < Lane.floorTotal)),
    (.serverRate c.serverRate, c.serverRate != 0 && decide (c.serverRate.toNat < c.mtu)),
    (.burstTimeZero, c.burstTime == 0),
    (.echoMultiplier, !(c.echoMultiplier.isFinite && decide (0.0 < c.echoMultiplier))),
    (.intervalZero, c.resendInterval == 0 || c.ackInterval == 0 || c.pingInterval == 0),
    (.liveness, c.liveness == 0 || decide (c.pausedLiveness < c.liveness)),
    (.highWaterZero, c.highWater == 0),
    (.seenCapacityZero, c.seenCapacity == 0),
    (.pendingShardsZero, c.pendingShards == 0),
    (.capacityZero, c.inboxCapacity == 0 || c.jobCapacity == 0),
    (.workersZero, c.workers == 0)]

/-- Names the first rule that is broken. -/
def check (c : Config) : Except Error Unit :=
  match c.rules.find? Prod.snd with
  | some (e, _) => .error e
  | none => .ok ()

/-- The settings fit together. -/
def Valid (c : Config) : Prop :=
  c.check = .ok ()

theorem valid_iff (c : Config) : c.Valid ↔ ∀ r ∈ c.rules, r.2 = false := by
  simp only [Valid, check]
  cases h : c.rules.find? Prod.snd with
  | none => simpa [List.find?_eq_none] using h
  | some r =>
    simp only [reduceCtorEq, false_iff]
    exact fun all ↦ by simpa [all r (List.mem_of_find?_eq_some h)] using List.find?_some h

theorem Valid.minMtu_le {c : Config} (h : c.Valid) : minMtu ≤ c.mtu := by
  simpa using c.valid_iff.1 h (.mtu c.mtu, decide (c.mtu < minMtu)) List.mem_cons_self

end Config

end DatagramCircuits
