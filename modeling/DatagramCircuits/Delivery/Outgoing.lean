import DatagramCircuits.Datagram.Header
import DatagramCircuits.Span
import DatagramCircuits.Traffic.Lane
/-!
# Datagrams on their way out

A framed datagram together with what is known about its transmission. It has sequence number 0 until
it is sent for the first time.
-/

namespace DatagramCircuits

/-- A datagram to be sent, or sent and not yet acknowledged. -/
structure Outgoing where
  /-- What it is sent under. -/
  category : Category
  /-- The datagram. -/
  buffer : Octets
  /-- The sequence number, or 0 as long as there is none. -/
  sequence : UInt32 := 0
  /-- How often it was sent again. -/
  retries : UInt32 := 0
  /-- When it was sent first. -/
  firstSend : Option Instant := none
  /-- When it was sent last. -/
  lastSend : Option Instant := none
  /-- Whether the sender wants to hear of a missing acknowledgement. Such a datagram is not sent
  again. -/
  notify : Bool := false
deriving DecidableEq, Repr

namespace Outgoing

/-- The flags of the datagram. -/
def flags (p : Outgoing) : Flags :=
  Datagram.flags p.buffer

/-- Whether the datagram is to be acknowledged. -/
def isReliable (p : Outgoing) : Bool :=
  p.flags.reliable

/-- The length of the datagram. -/
def length (p : Outgoing) : Nat :=
  p.buffer.length

/-- The datagram as text: what it is sent under, its number and its length, and what is special. -/
def text (p : Outgoing) : String :=
  let retries := if p.retries = 0 then "" else s!":retry{p.retries}"
  let mark := if p.notify then ":cb" else ""
  s!"OUT\x7b{p.category.name}:#{p.sequence}:{p.length}B{retries}{mark}\x7d"

end Outgoing

end DatagramCircuits
