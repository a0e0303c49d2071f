import DatagramCircuits.Datagram.Header
import DatagramCircuits.Message.Id
import DatagramCircuits.Octets.ZeroRuns
/-!
# Packets

A packet is what a datagram says: its header, the message id, the payload, and the acknowledgements
that came along.

A datagram is read from both ends. Appended acknowledgements are cut off behind, by the count in the
last octet; then the header is taken off in front, and what is left is the body, expanded if it is
zero-coded. Anything inconsistent is refused. A zero-coded body may expand to eight times the MTU;
where that product does not fit into 64 bits, reading is at fault.
-/

namespace DatagramCircuits

/-- The content of a datagram. -/
structure Packet where
  /-- The header. -/
  header : Header
  /-- The type of the message. -/
  id : MessageId
  /-- The octets behind the message id. -/
  payload : Octets
  /-- The acknowledgements that were appended. -/
  acks : List UInt32
deriving DecidableEq, Repr

namespace Packet

/-- Whether the sender waits for an acknowledgement. -/
def isReliable (p : Packet) : Bool :=
  p.header.flags.reliable

/-- Whether the sender says that it sent the datagram before. -/
def isResent (p : Packet) : Bool :=
  p.header.flags.resent

end Packet

namespace Datagram

/-- The shortest datagram: a header without extra octets and an id of one octet. -/
def minLength : Nat := Header.fixedLength + 1

/-- How many times the MTU a zero-coded body may expand to. -/
def expansionFactor : Nat := 8

/-- Why a datagram is refused. -/
inductive Error where
  /-- It is shorter than any datagram. -/
  | tooShort (length : Nat)
  /-- It is too short for the acknowledgements it says it carries. -/
  | acksTooShort (length count : Nat)
  /-- The header is refused. -/
  | header (e : Header.Error)
  /-- The zero-coded body is refused. -/
  | zeroRuns (e : ZeroRuns.Error)
  /-- The body ends before the message id does. -/
  | idTooShort (length : Nat)
deriving DecidableEq, Repr

/-- The wording of a refusal. -/
def Error.message : Error → String
  | .tooShort length => s!"datagram of {length} bytes is shorter than the minimum of {minLength}"
  | .acksTooShort length count => s!"datagram of {length} bytes is too short for {count} appended acks"
  | .header e => e.message
  | .zeroRuns e => e.message
  | .idTooShort length => s!"datagram body of {length} bytes is shorter than its message id"

/-- The numbers written by groups of four octets. -/
def readAcks (trailer : Octets) : List UInt32 :=
  (Octets.pieces 4 trailer).map fun s ↦ UInt32.ofNat (Octets.ofBigEndian s)

/-- Cuts appended acknowledgements off the end of a datagram. -/
def splitAcks (d : Octets) : Except Error (Octets × List UInt32) :=
  if (Datagram.flags d).appendedAcks then
    let count := (d.getLastD 0).toNat
    let trailer := 4 * count + 1
    if d.length < minLength + trailer then .error (.acksTooShort d.length count)
    else
      let front := d.length - trailer
      .ok (d.take front, readAcks ((d.drop front).take (4 * count)))
  else .ok (d, [])

/-- The body behind a header, expanded if the header says that it is coded. -/
def expandBody (mtu : Nat) (flags : Flags) (body : Octets) : Except (Failure Error) Octets :=
  if flags.zeroCoded then do
    let limit ← Failure.ofFault (within64 (expansionFactor * mtu))
    match ZeroRuns.decode limit body with
    | ⟨octets, none⟩ => return octets
    | ⟨_, some e⟩ => throw (.refused (.zeroRuns e))
  else .ok body

/-- The message id in front of a body, and the payload behind it. -/
def splitId (body : Octets) : Except Error (MessageId × Octets) :=
  (MessageId.read body).mapError fun _ ↦ .idTooShort body.length

/-- Reads a datagram. -/
def parse (mtu : Nat) (d : Octets) : Except (Failure Error) Packet := do
  if d.length < minLength then throw (.refused (.tooShort d.length))
  let (front, acks) ← Failure.ofRefusal (splitAcks d)
  let (header, rest) ← Failure.ofRefusal ((Header.read front).mapError .header)
  let body ← expandBody mtu header.flags rest
  let (id, payload) ← Failure.ofRefusal (splitId body)
  return { header, id, payload, acks }

end Datagram

end DatagramCircuits
