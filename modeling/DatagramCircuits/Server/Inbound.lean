import DatagramCircuits.Server.Action
/-!
# Arriving datagrams on a server

The way of a datagram: it is taken from the socket and waits to be decoded, if there is room for it.
Decoding reads it and finds out where it belongs.

* A datagram from the address of a circuit goes to that circuit.
* While the circuit of an address is being set up, its datagrams are kept, up to a number.
* Otherwise only the request for a circuit is of interest; it is handed over to be authorized.

A circuit that accepts a datagram may want to send acknowledgements first. Then the message is seen to:
the protocol's own messages here, all others by the application.
-/

namespace DatagramCircuits

namespace Server

/-- The largest datagram that is taken from the socket; of a longer one only the beginning is. -/
def receiveLimit : Nat := 65536

/-- Takes a datagram from the socket. It gets lost if too many wait to be decoded. -/
def arrive (source : Address) (datagram : Octets) (s : Server) : Server :=
  let s := s.count Counters.countReceived
  if s.inbox.length < s.config.inboxCapacity then
    { s with inbox := s.inbox ++ [(source, datagram.take receiveLimit)] }
  else s

/-! ### Messages -/

/-- Sees to a message of the protocol. -/
def control (id : CircuitId) (c : Circuit) (m : Control) (now : Instant) (s : Server) :
    Outcome × Server :=
  match m with
  | .acks sequences => (.finished, s.putCircuit id (c.acknowledge sequences now).2)
  | .ping ping _ =>
    match c.answerPing ping with
    | .ok d => (.waiting (Action.sendAll c.address [d]), s)
    | .error _ => (.finished, s)
  | .pong ping => (.finished, s.putCircuit id (c.takePong ping now).2)
  | .throttle rates =>
    match c.renegotiate rates now s.forest with
    | .ok (adjustment, forest) =>
      (.finished, { s with forest }.record (.adjusted id c.agent adjustment))
    | .error fault => (.failed fault, s)
  | .close => (.finished, (s.closeCircuit id .protocolClose).2)
  | .setup _ => (.finished, s)

/-- Sees to the message of a datagram that a circuit accepted. -/
def deliver (id : CircuitId) (p : Packet) (now : Instant) (s : Server) : Outcome × Server :=
  match s.circuit? id with
  | none => (.finished, s)
  | some c =>
    match Control.read p.id p.payload with
    | .error _ => (.finished, s.drop .malformed)
    | .ok (some m, _) => s.control id c m now
    | .ok (none, _) =>
      let message := ⟨p.id, p.payload, p.header.sequence, p.isReliable⟩
      (.waiting [], s.record (.delivered id c.agent message))

/-! ### Datagrams -/

/-- Gives a datagram of the given length to a circuit. -/
def receive (id : CircuitId) (p : Packet) (length : Nat) (now : Instant) (s : Server) :
    Outcome × Server :=
  match s.circuit? id with
  | none => (.finished, s)
  | some c =>
    match c.receive p length now with
    | (.error fault, c) => (.failed fault, s.putCircuit id c)
    | (.ok .closed, _) => (.finished, s.drop .orphaned)
    | (.ok (.duplicate _), c) => (.finished, (s.putCircuit id c).drop .duplicate)
    | (.ok (.accept false), c) => (s.putCircuit id c).deliver id p now
    | (.ok (.accept true), c) =>
      match c.flushAcks with
      | ([], c) => (s.putCircuit id c).deliver id p now
      | (acks, c) =>
        (.waiting (Action.sendAll c.address acks ++ [.deliver id p]), s.putCircuit id c)

/-- Reads a datagram, and goes on with what it says. -/
def readDatagram (datagram : Octets) (s : Server) (next : Packet → Outcome × Server) :
    Outcome × Server :=
  match Datagram.parse s.config.mtu datagram with
  | .ok p => next p
  | .error (.refused _) => (.finished, s.drop .malformed)
  | .error (.fault fault) => (.failed fault, s)

/-- Gives a datagram that was kept to its circuit. -/
def replay (id : CircuitId) (datagram : Octets) (now : Instant) (s : Server) : Outcome × Server :=
  s.readDatagram datagram fun p ↦ s.receive id p datagram.length now

/-- Sees to a datagram from an address whose circuit is being set up. -/
def keep (source : Address) (datagram : Octets) (kept : List Octets) (s : Server) : Server :=
  if kept.length < s.config.maxBuffered then
    { s with pending := s.pending.insert source (kept ++ [datagram]) }
  else s.drop .orphaned

/-- Sees to a datagram from an address without a circuit. -/
def request (source : Address) (p : Packet) (length : Nat) (s : Server) : Server :=
  if p.id ≠ .setup then s.drop .orphaned
  else
    match SetupRequest.read p.payload with
    | .error _ => s.drop .malformed
    | .ok (request, _) =>
      { s with
        pending := s.pending.insert source []
        authorizing := s.authorizing ++ [{ address := source, request, packet := p, length }] }

/-- Decodes a datagram. -/
def handle (source : Address) (datagram : Octets) (now : Instant) (s : Server) : Outcome × Server :=
  s.readDatagram datagram fun p ↦
    match s.table.byAddress.get? source with
    | some id => s.receive id p datagram.length now
    | none =>
      match s.pending.get? source with
      | some kept => (.finished, s.keep source datagram kept)
      | none => (.finished, s.request source p datagram.length)

/-! ### New circuits -/

/-- Takes a circuit into use, and tells the application. -/
def announce (id : CircuitId) (s : Server) : Server :=
  match s.circuit? id with
  | none => s
  | some c =>
    let s := s.putCircuit id c.connect.2
    (s.count Counters.countEstablished).record (.established id c.address c.session)

/-- Takes a new circuit into the table, and closes those that are in its way. Tells what was kept for
its address meanwhile. -/
def install (address : Address) (c : Circuit) (forest : Forest) (s : Server) :
    Option (List Octets) × Server :=
  let id := s.circuits.length
  let (kept, pending) := s.pending.remove address
  let (displaced, table) := s.table.insert address c.agent id
  let s := { s with forest, circuits := s.circuits ++ [c], pending, table }
  (kept, displaced.foldl (fun s old ↦ (s.closeCircuit old .superseded).2) s)

/-- Sets up a circuit for a request that was granted. The request is taken in as the first datagram of
the circuit, circuits in the way are closed, and what was kept meanwhile is to be replayed. Tells the
acknowledgements that come before all that. A fault keeps the circuit from being opened, but not from
having taken its share of the bucket of the server. -/
def establish (h : Handshake) (session : Session) (now : Instant) (s : Server) :
    Except Fault (List Octets × List Action) × Server :=
  match Circuit.opened session h.address s.config s.root now s.forest with
  | .error (fault, forest) => (.error fault, { s with forest })
  | .ok (c, forest) =>
    let id := s.circuits.length
    let (kept, s) := s.install h.address c forest
    match c.receive h.packet h.length now with
    | (.error fault, c) => (.error fault, s.putCircuit id c)
    | (.ok _, c) =>
      let (acks, c) := c.flushAcks
      (.ok (acks, .announce id :: (kept.getD []).map (.replay id ·)), s.putCircuit id c)

/-- Forgets a request that was denied, with all that was kept meanwhile. -/
def deny (h : Handshake) (s : Server) : Server :=
  { s with pending := (s.pending.remove h.address).2 }.count Counters.countDenied

end Server

end DatagramCircuits
