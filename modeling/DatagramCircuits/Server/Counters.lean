/-!
# Counters of a server

What a server counts, in 64 bits that wrap around.
-/

namespace DatagramCircuits

/-- Why a datagram is dropped. -/
inductive DropCause where
  /-- It can not be read. -/
  | malformed
  /-- It belongs to no circuit, and is no request for one. -/
  | orphaned
  /-- It arrived before. -/
  | duplicate
deriving DecidableEq, Repr

/-- The counters. -/
structure Counters where
  /-- Datagrams taken from the socket. -/
  received : UInt64 := 0
  /-- Datagrams given to the socket. -/
  sent : UInt64 := 0
  /-- Datagrams that were sent again. -/
  resent : UInt64 := 0
  /-- Datagrams dropped since they can not be read. -/
  malformed : UInt64 := 0
  /-- Datagrams dropped since they belong to no circuit. -/
  orphaned : UInt64 := 0
  /-- Datagrams dropped since they arrived before. -/
  duplicate : UInt64 := 0
  /-- Datagrams given up because of their age. -/
  droppedUnacked : UInt64 := 0
  /-- Ticks of circuits with too many datagrams waiting for an acknowledgement. -/
  ackStalls : UInt64 := 0
  /-- Requests for a circuit that were denied. -/
  denied : UInt64 := 0
  /-- Circuits that were set up. -/
  established : UInt64 := 0
  /-- Circuits that were closed. -/
  closed : UInt64 := 0
  /-- Jobs that there was no room for. -/
  jobsRejected : UInt64 := 0
deriving DecidableEq, Repr

namespace Counters

/-- Counts a dropped datagram. -/
def countDropped (c : Counters) : DropCause → Counters
  | .malformed => { c with malformed := c.malformed + 1 }
  | .orphaned => { c with orphaned := c.orphaned + 1 }
  | .duplicate => { c with duplicate := c.duplicate + 1 }

/-- Counts a datagram taken from the socket. -/
def countReceived (c : Counters) : Counters :=
  { c with received := c.received + 1 }

/-- Counts datagrams given to the socket. -/
def countSent (n : Nat) (c : Counters) : Counters :=
  { c with sent := c.sent + UInt64.ofNat n }

/-- Counts datagrams that were sent again. -/
def countResent (n : Nat) (c : Counters) : Counters :=
  { c with resent := c.resent + UInt64.ofNat n }

/-- Counts datagrams given up because of their age. -/
def countDroppedUnacked (n : Nat) (c : Counters) : Counters :=
  { c with droppedUnacked := c.droppedUnacked + UInt64.ofNat n }

/-- Counts a tick with too many datagrams waiting for an acknowledgement. -/
def countAckStall (c : Counters) : Counters :=
  { c with ackStalls := c.ackStalls + 1 }

/-- Counts a request for a circuit that was denied. -/
def countDenied (c : Counters) : Counters :=
  { c with denied := c.denied + 1 }

/-- Counts a circuit that was set up. -/
def countEstablished (c : Counters) : Counters :=
  { c with established := c.established + 1 }

/-- Counts a circuit that was closed. -/
def countClosed (c : Counters) : Counters :=
  { c with closed := c.closed + 1 }

/-- Counts a job that there was no room for. -/
def countJobRejected (c : Counters) : Counters :=
  { c with jobsRejected := c.jobsRejected + 1 }

end Counters

end DatagramCircuits
