import DatagramCircuits.Fault
import DatagramCircuits.Identity
import DatagramCircuits.Message.Basic
import DatagramCircuits.Traffic.Rates
/-!
# Control messages

Six message types belong to the protocol itself: the setup of a circuit and its end, standalone
acknowledgements, pings and their answers, and the rates that a peer asks for. `Control.read` reads
the body of one of them, and says of every other id that it belongs to the application.

The formats are of their own kinds. Numbers are written with the least significant octet first, the
identifiers of a setup request with the most significant one. Acknowledgements are counted by an
octet, so that more than 255 of them are a fault. The block of rates is preceded by its length, and
may be longer than the rates are; what is beyond them is skipped.
-/

namespace DatagramCircuits

/-- What a client asks for when it wants a circuit. -/
structure SetupRequest where
  /-- The code that goes with the session. -/
  code : UInt32
  /-- The session that the agent says it belongs to. -/
  session : Uuid
  /-- The agent that wants the circuit. -/
  agent : Uuid
deriving DecidableEq, Repr

/-- A message of the protocol itself. -/
inductive Control where
  /-- A request to set up a circuit, the first message of a client. -/
  | setup (request : SetupRequest)
  /-- Acknowledgements of reliable datagrams. -/
  | acks (sequences : List UInt32)
  /-- A request for a sign of life; the peer may forget about datagrams before `oldest`. -/
  | ping (id : UInt8) (oldest : UInt32)
  /-- The answer to the ping with the same id. -/
  | pong (id : UInt8)
  /-- The rates that the peer asks for. -/
  | throttle (rates : Rates)
  /-- The end of the circuit. -/
  | close
deriving DecidableEq, Repr

/-- Why the body of a control message is refused. -/
inductive Control.Error where
  /-- The body ends too early. -/
  | underrun (e : Octets.Underrun)
  /-- There is room for fewer acknowledgements than declared. -/
  | acksTooShort (declared available : Nat)
  /-- The block of rates is too short, or longer than the body. -/
  | throttleTooShort (declared available : Nat)
  /-- The rates themselves are too short. -/
  | rates (e : Rates.PackedTooShort)
deriving DecidableEq, Repr

/-- The wording of a refusal. -/
def Control.Error.message : Control.Error → String
  | .underrun e => e.message
  | .acksTooShort declared available =>
    s!"ack message declares {declared} acks, but has room for only {available}"
  | .throttleTooShort declared available =>
    s!"throttle block of {declared} bytes (with {available} remaining) is too short"
  | .rates e => e.message

namespace SetupRequest

/-- The written form. -/
def encode (r : SetupRequest) : Octets :=
  Octets.littleEndian 4 r.code.toNat ++ Octets.bigEndian 16 r.session.toNat ++
    Octets.bigEndian 16 r.agent.toNat

/-- Reads a request. -/
def read : Octets.Reader Octets.Underrun SetupRequest := do
  let code ← Octets.readLittle 4
  let session ← Octets.readBig 16
  let agent ← Octets.readBig 16
  return ⟨UInt32.ofNat code, Uuid.ofNat session, Uuid.ofNat agent⟩

end SetupRequest

namespace Control

/-- The largest number of acknowledgements in one message. -/
def maxAcks : Nat := 255

/-- The length of a message with `count` acknowledgements. -/
def acksLength (count : Nat) : Nat :=
  1 + 4 * count

/-- The type of the message. -/
def id : Control → MessageId
  | setup _ => .setup
  | acks _ => .acks
  | ping _ _ => .ping
  | pong _ => .pong
  | throttle _ => .throttle
  | close => .close

/-- The block of rates behind its length, times the multiplier with the given representation. -/
def encodeThrottle (multiplier : UInt32) (rates : Rates) : Octets :=
  UInt8.ofNat Rates.packedLength :: rates.pack multiplier

/-- The body of acknowledgements, behind their count modulo its width. -/
def encodeAcks (sequences : List UInt32) : Octets :=
  UInt8.ofNat sequences.length ::
    sequences.flatMap fun n ↦ Octets.littleEndian 4 n.toNat

/-- The octets of the body. -/
def body : Control → Octets
  | setup request => request.encode
  | acks sequences => encodeAcks sequences
  | ping id oldest => id :: Octets.littleEndian 4 oldest.toNat
  | pong id => [id]
  | throttle rates => encodeThrottle (1.0 : Float32).toBits rates
  | close => []

/-- The number of entries that the body counts. -/
def entryCount : Control → Nat
  | acks sequences => sequences.length
  | _ => 0

/-- The body of the message. More acknowledgements than their count can say are a fault. -/
def encode (c : Control) : Except Fault Octets := do
  let _ ← Octets.countOctet c.entryCount
  return c.body

/-- The message to be framed, with whatever its body says. -/
def message (c : Control) : Message where
  id := c.id
  payload := c.body

/-- The message to be framed. -/
def toMessage (c : Control) : Except Fault Message := do
  let _ ← c.encode
  return c.message

/-! ### Reading -/

/-- Reads acknowledgements. -/
def readAcks : Octets.Reader Error (List UInt32) := do
  let declared ← (Octets.readLittle 1).withError Error.underrun
  let left ← get
  if left.length < 4 * declared then throw (.acksTooShort declared (left.length / 4))
  set (left.drop (4 * declared))
  return (Octets.pieces 4 (left.take (4 * declared))).map fun s ↦
    UInt32.ofNat (Octets.ofLittleEndian s)

/-- Reads a ping. -/
def readPing : Octets.Reader Octets.Underrun (UInt8 × UInt32) := do
  let id ← Octets.readLittle 1
  let oldest ← Octets.readLittle 4
  return (UInt8.ofNat id, UInt32.ofNat oldest)

/-- Reads a block of rates. -/
def readThrottle : Octets.Reader Error Rates := do
  let declared ← (Octets.readLittle 1).withError Error.underrun
  let left ← get
  if declared < Rates.packedLength ∨ left.length < declared then
    throw (.throttleTooShort declared left.length)
  let rates ← Rates.unpack.withError Error.rates
  modify (·.drop (declared - Rates.packedLength))
  return rates

/-- Reads the body of a control message with the given id. Other ids belong to the application, and
nothing is consumed then. -/
def read (id : MessageId) : Octets.Reader Error (Option Control) := do
  if id = .setup then
    return some (.setup (← SetupRequest.read.withError Error.underrun))
  else if id = .acks then
    return some (.acks (← readAcks))
  else if id = .ping then
    let (id, oldest) ← readPing.withError Error.underrun
    return some (.ping id oldest)
  else if id = .pong then
    return some (.pong (UInt8.ofNat (← (Octets.readLittle 1).withError Error.underrun)))
  else if id = .throttle then
    return some (.throttle (← readThrottle))
  else if id = .close then
    return some .close
  else
    return none

end Control

/-- The ids of the messages of the protocol. -/
def Control.ids : List MessageId :=
  [.setup, .acks, .ping, .pong, .throttle, .close]

theorem Control.id_mem_ids (c : Control) : c.id ∈ ids := by
  cases c <;> simp [ids, id]

/-- The message belongs to the application: no message of the protocol has its id. -/
def Message.IsApplication (m : Message) : Prop :=
  m.id ∉ Control.ids

instance : DecidablePred Message.IsApplication := fun m ↦
  inferInstanceAs (Decidable (m.id ∉ Control.ids))

end DatagramCircuits
