import DatagramCircuits.Datagram.Packet
/-!
# Reading with checked access

`Datagram.parse` is made of operations on lists that have a result in any case: what is taken from a list
that is too short is shorter, a place outside of it has a default, and a difference below zero is zero.
This module holds the same reader over operations that have a range and are at fault outside of it. Each
of them stands where a reader of a buffer goes to a place in it, or computes one.

**Nothing is ever read outside of the datagram** when this reader never is at fault and is the same as the
other one. Whether octets are enough is asked by the reader itself, in the same places as there.
-/

namespace DatagramCircuits

namespace Octets

/-- The octet at a place. -/
def octetAt (i : Nat) (s : Octets) : Except Fault UInt8 :=
  match s[i]? with
  | some b => .ok b
  | none => .error .outOfRange

/-- The difference of two lengths, the first of which has to be the larger one. -/
def difference (m n : Nat) : Except Fault Nat :=
  if m < n then .error .outOfRange else .ok (m - n)

/-- The octets in front of a place, and those from there on. -/
def divide (n : Nat) (s : Octets) : Except Fault (Octets × Octets) :=
  if s.length < n then .error .outOfRange else .ok (s.take n, s.drop n)

/-- The first octet, and those behind it. -/
def nextOctet : Octets → Except Fault (UInt8 × Octets)
  | [] => .error .outOfRange
  | b :: s => .ok (b, s)

/-- The number in the first four octets, and the octets behind them. -/
def nextNumber (s : Octets) : Except Fault (UInt32 × Octets) := do
  let (field, rest) ← divide 4 s
  return (UInt32.ofNat (ofBigEndian field), rest)

/-- As many numbers as given, one after the other. -/
def nextNumbers : Nat → Octets → Except Fault (List UInt32)
  | 0, _ => .ok []
  | count + 1, s => do
    let (n, s) ← nextNumber s
    let l ← nextNumbers count s
    return n :: l

end Octets

namespace Datagram

/-- Cuts appended acknowledgements off the end of a datagram. -/
def splitAcksChecked (d : Octets) : Except (Failure Error) (Octets × List UInt32) :=
  if (Datagram.flags d).appendedAcks then do
    let last ← Failure.ofFault (Octets.difference d.length 1)
    let count ← Failure.ofFault (Octets.octetAt last d)
    let trailer := 4 * count.toNat + 1
    if d.length < minLength + trailer then throw (.refused (.acksTooShort d.length count.toNat))
    let place ← Failure.ofFault (Octets.difference d.length trailer)
    let (front, behind) ← Failure.ofFault (Octets.divide place d)
    let acks ← Failure.ofFault (Octets.nextNumbers count.toNat behind)
    return (front, acks)
  else return (d, [])

/-- Reads a header, leaving the body. -/
def readHeaderChecked (s : Octets) : Except (Failure Error) (Header × Octets) := do
  if s.length < Header.fixedLength then throw (.refused (.header (.tooShort s.length)))
  let (flags, s) ← Failure.ofFault (Octets.nextOctet s)
  let (sequence, s) ← Failure.ofFault (Octets.nextNumber s)
  let (declared, s) ← Failure.ofFault (Octets.nextOctet s)
  if s.length < declared.toNat then
    throw (.refused (.header (.extraTooShort declared.toNat s.length)))
  let (extra, s) ← Failure.ofFault (Octets.divide declared.toNat s)
  return (⟨Flags.ofOctet flags, sequence, extra⟩, s)

/-- Reads a datagram. -/
def parseChecked (mtu : Nat) (d : Octets) : Except (Failure Error) Packet := do
  if d.length < minLength then throw (.refused (.tooShort d.length))
  let (front, acks) ← splitAcksChecked d
  let (header, rest) ← readHeaderChecked front
  let body ← expandBody mtu header.flags rest
  let (id, payload) ← Failure.ofRefusal (splitId body)
  return { header, id, payload, acks }

end Datagram

end DatagramCircuits
