import DatagramCircuits.Circuit.Chronicle
/-!
# Two peers

Two circuits that send each other datagrams, each of them the peer of the other. What an application does
with its end, and what the network does, is all in the choice of the next deed: a message is sent, time
passes, or one of the datagrams that the other end ever sent arrives.

**A fault ends a deed, and the circuit goes on** with what the fault leaves behind
(`Circuit.afterFault`). The answer is lost then, and with it the datagrams in it.

**The network is not reliable, but it does not forge.** Any datagram that was sent may arrive now, later,
several times or never, and nothing else arrives.

**An accepted datagram is seen to later.** Its message is handled in a deed of its own, at any time after
the datagram was accepted and with whatever happened in between, as other work may go on meanwhile.
-/

namespace DatagramCircuits

/-- What the message asks a circuit to do. A request to set up a circuit asks for nothing when there is
one. -/
def Control.operation? (now : Instant) : Control → Option Circuit.Operation
  | setup _ => none
  | acks sequences => some (.acknowledge sequences now)
  | ping id _ => some (.answerPing id)
  | pong id => some (.takePong id now)
  | throttle rates => some (.renegotiate rates now)
  | close => some .close

namespace Circuit

/-- Something that a circuit did. -/
structure Act where
  /-- What was to be done. -/
  operation : Operation
  /-- The answer, unless a fault was met. -/
  answer : Except Fault Answer
  /-- What happened, in order. -/
  events : List Event

/-- The datagrams that were sent. -/
def Act.datagrams (x : Act) : List Octets :=
  match x.answer with
  | .ok answer => answer.datagrams
  | .error _ => []

/-- The packet that was accepted, if it is that. -/
def Act.accepted? (x : Act) : Option Packet :=
  match x.operation, x.answer with
  | .receive p _ _, .ok (.received (.accept _)) => some p
  | _, _ => none

/-- One of two peers: its circuit, and what that did so far. -/
structure Peer where
  /-- The circuit. -/
  circuit : Circuit
  /-- The past of the circuit. -/
  past : List Act := []

namespace Peer

/-- What happened in the work of the circuit. -/
def record (a : Peer) : List Event :=
  a.past.flatMap Act.events

/-- The datagrams that the circuit sent, in order. -/
def sent (a : Peer) : List Octets :=
  a.past.flatMap Act.datagrams

/-- The packets that the circuit accepted, in order. -/
def accepted (a : Peer) : List Packet :=
  a.past.filterMap Act.accepted?

/-- The peer after an operation with its circuit, with the buckets as it finds them. -/
def after (a : Peer) (o : Operation) (f : Forest) : Peer :=
  let events := a.circuit.events o f
  match a.circuit.apply o f with
  | .ok (answer, circuit, _) => { circuit, past := a.past ++ [⟨o, .ok answer, events⟩] }
  | .error fault =>
    { circuit := (a.circuit.afterFault o f).1, past := a.past ++ [⟨o, .error fault, events⟩] }

/-- Opens the circuit of a peer. -/
def opened (session : Session) (address : Address) (config : Config) (root : BucketId)
    (now : Instant) (f : Forest) : Except Fault Peer := do
  let (circuit, _) ← (Circuit.opened session address config root now f).mapError Prod.fst
  return { circuit }

end Peer

/-- Something that one of two peers does. -/
inductive Deed where
  /-- A message of the application is queued. -/
  | send (category : Category) (m : { m : Message // m.IsApplication }) (reliable notify : Bool)
  /-- The regular work is done. -/
  | tick (now : Instant)
  /-- All acknowledgements are sent. -/
  | flushAcks
  /-- A ping is sent. -/
  | ping (now : Instant)
  /-- A datagram arrives, given by its place among those that the other peer sent. -/
  | deliver (i : Nat) (now : Instant)
  /-- A message is handled, given by the place of its datagram among those that were accepted. -/
  | handle (i : Nat) (now : Instant)

/-- What the peer does with its circuit, given the other peer. Nothing, if there is no such datagram, or
if it can not be read, or if its message is none of the protocol. -/
def Deed.operation? (a b : Peer) : Deed → Option Operation
  | send category m reliable notify => some (.send category m reliable notify)
  | tick now => some (.tick now)
  | flushAcks => some .flushAcks
  | ping now => some (.ping now)
  | deliver i now =>
    match b.sent[i]? with
    | none => none
    | some d =>
      match Datagram.parse a.circuit.config.mtu d with
      | .ok p => some (.receive p d.length now)
      | .error _ => none
  | handle i now =>
    match a.accepted[i]? with
    | none => none
    | some p =>
      match Control.read p.id p.payload with
      | .ok (some m, _) => m.operation? now
      | _ => none

/-- The peer after one more deed, with the buckets as it finds them. -/
def Peer.perform (a : Peer) (x : Deed) (f : Forest) (b : Peer) : Peer :=
  match x.operation? a b with
  | none => a
  | some o => a.after o f

/-- Two peers. -/
structure Exchange where
  /-- The one peer. -/
  left : Peer
  /-- The other peer. -/
  right : Peer

namespace Exchange

/-- A deed of one of two peers, with the buckets as it finds them. -/
inductive Step where
  /-- The one peer does something. -/
  | left (x : Deed) (f : Forest)
  /-- The other peer does something. -/
  | right (x : Deed) (f : Forest)

/-- The peers after one more deed. -/
def step (s : Exchange) : Step → Exchange
  | .left x f => { s with left := s.left.perform x f s.right }
  | .right x f => { s with right := s.right.perform x f s.left }

/-- The peers after any number of deeds, in any order. -/
def run (steps : List Step) (s : Exchange) : Exchange :=
  steps.foldl step s

end Exchange

end Circuit

end DatagramCircuits
