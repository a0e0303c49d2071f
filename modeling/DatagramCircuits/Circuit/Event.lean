import DatagramCircuits.Circuit.Receive
/-!
# What happens to the datagrams of a circuit

The record of a circuit's work, one entry for each datagram that is queued, is sent, arrives, or leaves
the account of reliable delivery. A tick writes its record as it goes; nothing in the circuit ever reads
it, so it is there for statements about histories only.

**Every way out of the account has an entry of its own,** so that a history says for each reliable
datagram what became of it.
-/

namespace DatagramCircuits

namespace Circuit

/-- Something that happened in the work of a circuit. -/
inductive Event where
  /-- A datagram was put into the queue of its category. -/
  | queued (p : Outgoing)
  /-- A datagram was taken out of its queue, as `p`, and left as `datagram`. -/
  | transmitted (p : Outgoing) (datagram : Octets) (now : Instant)
  /-- A message of the protocol itself was sent. -/
  | signalled (datagram : Octets)
  /-- A datagram of the account was acknowledged. -/
  | acknowledged (p : Outgoing) (now : Instant)
  /-- A datagram of the account was given up because of its age. -/
  | outdated (p : Outgoing)
  /-- A datagram of the account was handed out, for its sender to hear of it. -/
  | unacknowledged (p : Outgoing)
  /-- A datagram of the account was dropped when the circuit was closed. -/
  | cleared (p : Outgoing)
  /-- A datagram arrived, and that was to become of it. -/
  | arrived (p : Packet) (disposition : Disposition)
deriving DecidableEq, Repr

end Circuit

end DatagramCircuits
