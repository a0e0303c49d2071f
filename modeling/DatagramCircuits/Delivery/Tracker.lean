import DatagramCircuits.Delivery.Outgoing
import DatagramCircuits.Delivery.RoundTrip
import DatagramCircuits.Delivery.SeenWindow
import DatagramCircuits.Fault
/-!
# The account of reliable delivery

For each circuit, four things are kept in one account: the reliable datagrams that were sent and are
not acknowledged, the sequence numbers that are still to be acknowledged to the peer, the window of
numbers seen from the peer, and the estimate of the round trip.

**A datagram is either waiting for its acknowledgement or waiting to be sent again.** `expire` marks
those whose time is up and hands out copies; a marked one is left alone until `noteResent` says that
its copy went out. It stays in the account until it is acknowledged or removed.

**Only a datagram that was sent once yields a sample of the round trip,** since an acknowledgement
does not tell which transmission it answers.
-/

namespace DatagramCircuits

/-- A datagram in the account. -/
structure Tracked where
  /-- The datagram as it was sent first, with the times of its transmissions. -/
  packet : Outgoing
  /-- Whether a copy is waiting to be sent again. -/
  awaitingResend : Bool := false
deriving DecidableEq, Repr

/-- The sequence number of the datagram. -/
def Tracked.sequence (e : Tracked) : UInt32 :=
  e.packet.sequence

/-- The account of reliable delivery. -/
structure Tracker where
  /-- The datagrams that are not acknowledged, in ascending order of their sequence numbers. -/
  unacked : List Tracked := []
  /-- The sequence numbers to be acknowledged, in order of arrival. -/
  pendingAcks : List UInt32 := []
  /-- The sequence numbers seen from the peer. -/
  seen : SeenWindow
  /-- The estimate of the round trip. -/
  roundTrip : RoundTrip
  /-- The octets that arrived since the last acknowledgement. -/
  ackBytes : Nat := 0

namespace Tracker

/-- An account of nothing so far, which remembers the given number of sequence numbers. -/
def create (roundTrip : RoundTrip) (capacity : Nat) : Except Fault Tracker := do
  return { seen := ← SeenWindow.create capacity, roundTrip }

/-- Takes a sample of the round trip into account. -/
def sample (d : Span) (t : Tracker) : Tracker :=
  { t with roundTrip := t.roundTrip.sample d }

/-! ### Datagrams sent -/

/-- The entry of a sequence number. -/
def find? (t : Tracker) (n : UInt32) : Option Tracked :=
  t.unacked.find? (·.sequence == n)

/-- Whether a sequence number is still to be acknowledged. -/
def isUnacked (t : Tracker) (n : UInt32) : Bool :=
  (t.find? n).isSome

/-- The lowest sequence number that is still to be acknowledged. -/
def oldest? (t : Tracker) : Option UInt32 :=
  t.unacked.head?.map Tracked.sequence

/-- The entries with one put in at its place, instead of any with the same sequence number. -/
def insert (e : Tracked) (l : List Tracked) : List Tracked :=
  l.filter (·.sequence < e.sequence) ++ e :: l.filter (e.sequence < ·.sequence)

/-- Enters a datagram after its first transmission. -/
def track (p : Outgoing) (t : Tracker) : Tracker :=
  { t with unacked := insert { packet := p } t.unacked }

/-- Takes a datagram out of the account. -/
def remove (n : UInt32) (t : Tracker) : Option Outgoing × Tracker :=
  ((t.find? n).map Tracked.packet,
    { t with unacked := t.unacked.filter (·.sequence != n) })

/-- Notes that a datagram was sent again, if it is in the account. The retries are counted in 32
bits. -/
def noteResent (n : UInt32) (now : Instant) (t : Tracker) : Except Fault (Bool × Tracker) :=
  match t.find? n with
  | none => .ok (false, t)
  | some e =>
    if e.packet.retries.toNat + 1 < UInt32.size then
      let packet := { e.packet with retries := e.packet.retries + 1, lastSend := some now }
      .ok (true, { t with unacked := insert { packet } t.unacked })
    else .error .overflow

/-- Takes a datagram out of the account that was acknowledged. If it was sent only once, the time
since then is a sample of the round trip. -/
def acknowledge (n : UInt32) (now : Instant) (t : Tracker) : Option Outgoing × Tracker :=
  match t.remove n with
  | (none, t) => (none, t)
  | (some p, t) =>
    match p.lastSend with
    | some sent => (some p, if p.retries = 0 then t.sample (now - sent) else t)
    | none => (some p, t)

/-- Takes the datagrams out of the account that were acknowledged, one after the other. -/
def acknowledgeAll : List UInt32 → Instant → Tracker → List Outgoing × Tracker
  | [], _, t => ([], t)
  | n :: rest, now, t =>
    let (p, t) := t.acknowledge n now
    let (l, t) := acknowledgeAll rest now t
    (p.toList ++ l, t)

/-- Whether the time for an acknowledgement is up, and no copy is waiting already. -/
def isExpired (timeout : Span) (now : Instant) (e : Tracked) : Bool :=
  !e.awaitingResend && e.packet.lastSend.any fun sent ↦ decide (timeout ≤ now - sent)

/-- Marks the datagrams whose time is up, and hands out copies of them. -/
def expire (now : Instant) (t : Tracker) : List Outgoing × Tracker :=
  let expired := isExpired t.roundTrip.timeout now
  ((t.unacked.filter expired).map Tracked.packet,
    { t with unacked := t.unacked.map fun e ↦ if expired e then { e with awaitingResend := true } else e })

/-- Whether a datagram was sent first at least `age` ago. -/
def isOutdated (age : Span) (now : Instant) (e : Tracked) : Bool :=
  e.packet.firstSend.any fun sent ↦ decide (age ≤ now - sent)

/-- Takes the datagrams out of the account that were sent first at least `age` ago. -/
def dropOlder (age : Span) (now : Instant) (t : Tracker) : List Outgoing × Tracker :=
  let outdated := isOutdated age now
  ((t.unacked.filter outdated).map Tracked.packet,
    { t with unacked := t.unacked.filter (!outdated ·) })

/-! ### Datagrams received -/

/-- Whether a datagram with the sequence number arrived before. If not, the number is recorded. -/
def offer (n : UInt32) (t : Tracker) : Bool × Tracker :=
  let (known, seen) := t.seen.offer n
  (known, { t with seen })

/-- Notes that a datagram is to be acknowledged. -/
def owe (n : UInt32) (t : Tracker) : Tracker :=
  { t with pendingAcks := t.pendingAcks ++ [n] }

/-- Notes that a datagram of the given length is to be acknowledged. The octets since the last
acknowledgement are counted in 64 bits. -/
def queueAck (n : UInt32) (length : Nat) (t : Tracker) : Except Fault Tracker := do
  let ackBytes ← within64 (t.ackBytes + length)
  return { t.owe n with ackBytes }

/-- The first acknowledgements to be sent, at most `limit` of them. -/
def peekAcks (limit : Nat) (t : Tracker) : List UInt32 :=
  t.pendingAcks.take limit

/-- Takes the first acknowledgements to be sent out of the account, at most `limit` of them. With
the last of them, the octets are counted anew. -/
def takeAcks (limit : Nat) (t : Tracker) : List UInt32 × Tracker :=
  let pendingAcks := t.pendingAcks.drop limit
  let ackBytes := if pendingAcks.isEmpty then 0 else t.ackBytes
  (t.peekAcks limit, { t with pendingAcks, ackBytes })

/-- The account without anything sent or to be acknowledged. What was seen and estimated stays. -/
def clear (t : Tracker) : Tracker :=
  { t with unacked := [], pendingAcks := [], ackBytes := 0 }

end Tracker

end DatagramCircuits
