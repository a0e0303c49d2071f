import DatagramCircuits.Circuit.Basic
import DatagramCircuits.Datagram.Packet
/-!
# Arriving datagrams

What a circuit makes of a datagram before anyone looks at its message. Any datagram is a sign of life,
and the acknowledgements it carries are taken in. A reliable one is to be acknowledged, also when it
arrived before, since the peer evidently missed the first acknowledgement; but it is delivered once.
-/

namespace DatagramCircuits

/-- What is to become of an arriving datagram. -/
inductive Disposition where
  /-- The message is to be delivered. Acknowledgements may be due at once. -/
  | accept (flushAcks : Bool)
  /-- The datagram arrived before. -/
  | duplicate (resent : Bool)
  /-- The circuit is closed. -/
  | closed
deriving DecidableEq, Repr

namespace Circuit

/-- How many times the MTU may arrive before acknowledgements are due at once. -/
def ackThreshold : Nat := 2

/-- Takes acknowledgements in, and tells which datagrams of the account they were for. -/
def acknowledge (sequences : List UInt32) (now : Instant) (c : Circuit) : List Outgoing × Circuit :=
  let (acknowledged, tracker) := c.tracker.acknowledgeAll sequences now
  (acknowledged, { c with tracker })

/-- Takes the sequence number of a reliable datagram in. **A fault comes after that:** where the octets
can not be counted, or the MTU is beyond what they can be compared with, the number is to be
acknowledged all the same. -/
def receiveReliable (p : Packet) (length : Nat) (c : Circuit) : Except Fault Disposition × Circuit :=
  match c.tracker.queueAck p.header.sequence length with
  | .error fault => (.error fault, { c with tracker := c.tracker.owe p.header.sequence })
  | .ok tracker =>
    let (known, tracker) := tracker.offer p.header.sequence
    let c := { c with tracker }
    if known then (.ok (.duplicate p.isResent), c)
    else
      (do
        let threshold ← within64 (ackThreshold * c.config.mtu)
        return .accept (decide (threshold ≤ tracker.ackBytes)), c)

/-- Takes an arriving datagram of the given length in. -/
def receive (p : Packet) (length : Nat) (now : Instant) (c : Circuit) :
    Except Fault Disposition × Circuit :=
  if c.isClosed then (.ok .closed, c)
  else
    let c := (c.acknowledge p.acks now).2
    let c := { c with received := c.received + 1, lastReceived := now }
    if p.isReliable then c.receiveReliable p length else (.ok (.accept false), c)

end Circuit

end DatagramCircuits
