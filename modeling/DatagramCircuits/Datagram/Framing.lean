import DatagramCircuits.Datagram.Header
import DatagramCircuits.Message.Basic
import DatagramCircuits.Octets.ZeroRuns
/-!
# Framing

A message becomes one or more datagrams of at most `mtu` octets. Each of them has a header without
extra octets and with sequence number 0, the message id, and a consecutive piece of the payload; an
empty payload makes one datagram with an empty piece. Where zero coding is asked for, it is decided
for each datagram on its own, and only a form that is strictly shorter is used.

`appendAcks` puts acknowledgements behind a finished datagram, as many of them as the MTU and the
single octet of their count leave room for.
-/

namespace DatagramCircuits

namespace Message

/-- Why a message can not be framed. -/
inductive FrameError where
  /-- The id can not be read back. -/
  | unreadableId (e : MessageId.Unreadable)
  /-- Header and id leave no room for a payload. -/
  | noRoom (mtu : Nat)
  /-- The message may not be split, and is too long for one datagram. -/
  | notSplittable (id : MessageId) (length room : Nat)
deriving DecidableEq, Repr

/-- The wording of a refusal. -/
def FrameError.message : FrameError → String
  | .unreadableId e => e.message
  | .noRoom mtu => s!"MTU {mtu} leaves no room for a payload"
  | .notSplittable id length room =>
    s!"message {id.text} has {length} bytes, but can not be split and only {room} fit into a datagram"

/-- The number of payload octets that fit into one datagram with the given id. -/
def roomFor (id : MessageId) (mtu : Nat) : Nat :=
  mtu - (Header.fixedLength + id.encodedLength)

/-- The datagram with one piece of the payload. -/
def frameOne (m : Message) (reliable : Bool) (piece : Octets) : Octets :=
  let body := m.id.encode ++ piece
  if m.zeroCoded && decide (ZeroRuns.encodedLength body < body.length) then
    ({ flags := { reliable, zeroCoded := true } } : Header).octets ++ ZeroRuns.encode body
  else
    ({ flags := { reliable } } : Header).octets ++ body

/-- The datagrams of a message. -/
def frame (m : Message) (reliable : Bool) (mtu : Nat) : Except FrameError (List Octets) := do
  (m.id.check).mapError .unreadableId
  let room := roomFor m.id mtu
  if room = 0 then throw (.noRoom mtu)
  if room < m.payload.length ∧ ¬ m.id.Splittable then
    throw (.notSplittable m.id m.payload.length room)
  let pieces := if m.payload.isEmpty then [[]] else Octets.pieces room m.payload
  return pieces.map (m.frameOne reliable)

end Message

namespace Datagram

/-- The largest number of acknowledgements that can follow a body. -/
def maxAppendedAcks : Nat := 255

/-- How many of `count` acknowledgements can be appended to a datagram of `length` octets. -/
def appendable (mtu length count : Nat) : Nat :=
  min (min count ((mtu - (length + 1)) / 4)) maxAppendedAcks

/-- The octets of appended acknowledgements, followed by their count. -/
def ackTrailer (acks : List UInt32) : Octets :=
  acks.flatMap (fun n ↦ Octets.bigEndian 4 n.toNat) ++ [UInt8.ofNat acks.length]

/-- Appends the first acknowledgements, as many as there is room for, and tells their number. -/
def appendAcks (mtu : Nat) (acks : List UInt32) (d : Octets) : Nat × Octets :=
  let n := appendable mtu d.length acks.length
  if n = 0 then (0, d)
  else
    let longer := d ++ ackTrailer (acks.take n)
    let flags := Datagram.flags longer ||| { appendedAcks := true }
    (n, longer.set 0 flags.toOctet)

end Datagram

end DatagramCircuits
