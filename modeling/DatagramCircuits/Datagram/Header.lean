import DatagramCircuits.Fault
import DatagramCircuits.Octets.Basic
/-!
# Datagram headers

Every datagram starts with an octet of flags, a sequence number of four octets, and a counted string
of extra octets. Four flags are in use; the other four bits are dropped when flags are read.

A framed datagram waits with sequence number 0 and is completed in place when it is sent, so flags
and sequence number can also be read and replaced in a finished datagram. Replacing them in octets
that are too short to hold them is a fault.
-/

namespace DatagramCircuits

/-- The flags of a datagram. -/
structure Flags where
  /-- The receiver is to acknowledge the datagram. -/
  reliable : Bool := false
  /-- The datagram was sent before. -/
  resent : Bool := false
  /-- The body is zero-coded. -/
  zeroCoded : Bool := false
  /-- Acknowledgements follow the body. -/
  appendedAcks : Bool := false
deriving DecidableEq, Repr

namespace Flags

/-- The octet of the flags. -/
def toOctet (f : Flags) : UInt8 :=
  (if f.reliable then 1 else 0) + (if f.resent then 2 else 0) +
    (if f.zeroCoded then 4 else 0) + (if f.appendedAcks then 8 else 0)

/-- The flags in an octet; its upper four bits mean nothing. -/
def ofOctet (b : UInt8) : Flags where
  reliable := b.toNat.testBit 0
  resent := b.toNat.testBit 1
  zeroCoded := b.toNat.testBit 2
  appendedAcks := b.toNat.testBit 3

/-- The flags set in one or the other. -/
instance : OrOp Flags where
  or f g :=
    { reliable := f.reliable || g.reliable
      resent := f.resent || g.resent
      zeroCoded := f.zeroCoded || g.zeroCoded
      appendedAcks := f.appendedAcks || g.appendedAcks }

@[simp] theorem ofOctet_toOctet (f : Flags) : ofOctet f.toOctet = f := by
  obtain ⟨a, b, c, d⟩ := f
  cases a <;> cases b <;> cases c <;> cases d <;> rfl

end Flags

/-- The header of a datagram. -/
structure Header where
  /-- The flags. -/
  flags : Flags := {}
  /-- The sequence number. -/
  sequence : UInt32 := 0
  /-- Octets that belong to the header and mean nothing here. -/
  extra : Octets := []
deriving DecidableEq, Repr

namespace Header

/-- The length of flags, sequence number and count of extra octets. -/
def fixedLength : Nat := 6

/-- The length of the written form. -/
def encodedLength (h : Header) : Nat :=
  fixedLength + h.extra.length

/-- The header as text. -/
def text (h : Header) : String :=
  let mark (set : Bool) (s : String) := if set then s else ""
  let marks := mark h.flags.reliable ":R" ++ mark h.flags.resent ":S" ++
    mark h.flags.zeroCoded ":Z" ++ mark h.flags.appendedAcks ":A"
  let extra := if h.extra.isEmpty then "" else s!":+{h.extra.length}"
  s!"HDR\x7b#{h.sequence}{marks}{extra}\x7d"

/-- The octets of the header, the count of extra octets modulo its width. -/
def octets (h : Header) : Octets :=
  h.flags.toOctet ::
    (Octets.bigEndian 4 h.sequence.toNat ++ UInt8.ofNat h.extra.length :: h.extra)

/-- The written form. More extra octets than their count can say are a fault. -/
def encode (h : Header) : Except Fault Octets := do
  let _ ← Octets.countOctet h.extra.length
  return h.octets

/-- Why octets are refused as the start of a datagram. -/
inductive Error where
  /-- There are fewer octets than the fixed part has. -/
  | tooShort (length : Nat)
  /-- There are fewer extra octets than the header says. -/
  | extraTooShort (declared available : Nat)
deriving DecidableEq, Repr

/-- The wording of a refusal. -/
def Error.message : Error → String
  | .tooShort length => s!"datagram of {length} bytes is shorter than the header prefix"
  | .extraTooShort declared available =>
    s!"header declares {declared} extra bytes, but only {available} bytes follow"

/-- Reads a header, leaving the body. -/
def read : Octets.Reader Error Header := fun s ↦
  if s.length < fixedLength then .error (.tooShort s.length)
  else
    let flags := Flags.ofOctet (s.headD 0)
    let sequence := UInt32.ofNat (Octets.ofBigEndian ((s.drop 1).take 4))
    let declared := (s.getD 5 0).toNat
    let rest := s.drop fixedLength
    if rest.length < declared then .error (.extraTooShort declared rest.length)
    else .ok (⟨flags, sequence, rest.take declared⟩, rest.drop declared)

end Header

/-! ### Flags and sequence number of a finished datagram -/

namespace Datagram

/-- The flags of a datagram; nothing is set in no octets. -/
def flags (d : Octets) : Flags :=
  Flags.ofOctet (d.headD 0)

/-- The datagram with other flags. -/
def setFlags (f : Flags) : Octets → Except Fault Octets
  | [] => .error .outOfRange
  | _ :: d => .ok (f.toOctet :: d)

/-- The datagram with another sequence number. -/
def setSequence (n : UInt32) (d : Octets) : Except Fault Octets :=
  if d.length < 5 then .error .outOfRange
  else .ok (d.take 1 ++ Octets.bigEndian 4 n.toNat ++ d.drop 5)

end Datagram

end DatagramCircuits
