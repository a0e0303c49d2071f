import DatagramCircuits.Circuit.Receive
import DatagramCircuits.Circuit.Tick
import DatagramCircuits.Collection.Sharded
import DatagramCircuits.Jobs.Pool
import DatagramCircuits.Server.Counters
import DatagramCircuits.Server.Table
/-!
# Servers

A server owns the circuits that were ever set up, the table of those in use, the buckets that they all
draw from, and what is on its way: datagrams to be decoded, requests for a circuit that are being
authorized, circuits that fell silent and are to be closed, notices of empty queues.

**A circuit keeps its position.** `CircuitId` is the identity of a circuit; agent and address are not,
since both may get another circuit.

**What reaches the outside is recorded as an `Effect`:** datagrams given to the socket, messages
delivered to the application, and what it is told about circuits.

This module has the state, the closing of circuits, and what the application can ask for. The work of
the tasks that run side by side is in `Inbound`, `Outbound` and `Task`.
-/

namespace DatagramCircuits

/-- A message for the application. -/
structure ReceivedMessage where
  /-- The type of the message. -/
  id : MessageId
  /-- The body. -/
  payload : Octets
  /-- The sequence number of the datagram that it came in. -/
  sequence : UInt32
  /-- Whether the datagram was to be acknowledged. -/
  reliable : Bool
deriving DecidableEq, Repr

/-- Something that reaches the outside. -/
inductive Effect where
  /-- A datagram is given to the socket. -/
  | sent (target : Address) (datagram : Octets)
  /-- A circuit was set up. -/
  | established (circuit : CircuitId) (address : Address) (session : Session)
  /-- A circuit was closed. -/
  | closed (circuit : CircuitId) (agent : Uuid) (address : Address) (reason : CloseReason)
  /-- The rates of a circuit were negotiated anew. -/
  | adjusted (circuit : CircuitId) (agent : Uuid) (adjustment : Adjustment)
  /-- A message is delivered. -/
  | delivered (circuit : CircuitId) (agent : Uuid) (message : ReceivedMessage)
  /-- A datagram was not acknowledged in time, and its sender wanted to hear of it. -/
  | unacknowledged (circuit : CircuitId) (agent : Uuid) (packet : Outgoing)
  /-- Queues of a circuit have run empty. -/
  | queueEmpty (circuit : CircuitId) (agent : Uuid) (lanes : List Lane) (time : Instant)
deriving DecidableEq, Repr

/-- A request for a circuit that is being authorized. -/
structure Handshake where
  /-- Where the request came from. -/
  address : Address
  /-- What is asked for. -/
  request : SetupRequest
  /-- The datagram of the request. -/
  packet : Packet
  /-- The length of that datagram. -/
  length : Nat
deriving DecidableEq, Repr

/-- The answer to a request for a circuit. -/
inductive Authorization where
  /-- The agent may have a circuit, with this session. -/
  | granted (session : Session)
  /-- The agent may not have a circuit. -/
  | denied
deriving DecidableEq, Repr

/-- A notice of empty queues that is to be given. -/
structure Notice where
  /-- The circuit. -/
  circuit : CircuitId
  /-- The lanes that have nothing left to send. -/
  lanes : List Lane
deriving DecidableEq, Repr

/-- The state that all tasks of a server share. -/
structure Server where
  /-- The settings. -/
  config : Config
  /-- The buckets of all circuits. -/
  forest : Forest
  /-- The bucket of the server. -/
  root : BucketId
  /-- The circuits that were ever set up. -/
  circuits : List Circuit := []
  /-- The circuits in use. -/
  table : Table := {}
  /-- The datagrams from addresses whose circuit is being set up, in order of arrival. -/
  pending : Sharded Address (List Octets)
  /-- The counters. -/
  counters : Counters := {}
  /-- The datagrams to be decoded, in order of arrival. -/
  inbox : List (Address × Octets) := []
  /-- The requests for a circuit that are being authorized. -/
  authorizing : List Handshake := []
  /-- The circuits that were found silent for too long. -/
  closing : List CircuitId := []
  /-- The notices of empty queues. -/
  notices : Pool Notice
  /-- Whether the tasks are to end. -/
  stopping : Bool := false
  /-- What reached the outside, latest last. -/
  effects : List Effect := []

namespace Server

/-- A server with the given settings, which have to be valid. -/
def create (config : Config) (now : Instant) : Except (Failure Config.Error) Server := do
  Failure.ofRefusal config.check
  let burst :=
    if config.serverRate = 0 then 0 else burstCapacity config.burstTime config.mtu config.serverRate
  let (root, forest) := Forest.addRoot {} config.serverRate burst now
  let _ ← Failure.ofFault (withinCapacity config.inboxCapacity)
  let pending ← Failure.ofFault (Sharded.create config.pendingShards)
  let notices ← Failure.ofFault (Pool.create config.jobCapacity)
  return { config, forest, root, pending, notices }

/-- The number of tasks beside the workers: one receives, one decodes, one sends. -/
def loopCount : Nat := 3

/-- Starts the tasks, and tells their number. It can be done once. -/
def start (s : Server) : Nat × Server :=
  match s.notices.start s.config.workers with
  | (0, _) => (0, s)
  | (workers, notices) => (workers + loopCount, { s with notices })

/-- Tells the tasks to end. -/
def shutdown (s : Server) : Server :=
  { s with stopping := true }

/-- The server with one more effect. -/
def record (e : Effect) (s : Server) : Server :=
  { s with effects := s.effects ++ [e] }

/-- The server with other counters. -/
def count (change : Counters → Counters) (s : Server) : Server :=
  { s with counters := change s.counters }

/-- The server with one more datagram dropped. -/
def drop (cause : DropCause) (s : Server) : Server :=
  s.count (·.countDropped cause)

/-! ### Circuits -/

/-- The circuit at a position. -/
def circuit? (s : Server) (id : CircuitId) : Option Circuit :=
  s.circuits[id]?

/-- The server with another state of a circuit. -/
def putCircuit (id : CircuitId) (c : Circuit) (s : Server) : Server :=
  { s with circuits := s.circuits.set id c }

/-- The circuit of an agent. -/
def ofAgent? (s : Server) (agent : Uuid) : Option (CircuitId × Circuit) := do
  let id ← s.table.byAgent.get? agent
  return (id, ← s.circuit? id)

/-- Closes a circuit and takes it out of the table. That happens once in the life of a circuit, and
tells whether it happened now. -/
def closeCircuit (id : CircuitId) (reason : CloseReason) (s : Server) : Bool × Server :=
  match s.circuit? id with
  | none => (false, s)
  | some c =>
    match c.close s.forest with
    | (false, _) => (false, s)
    | (true, c, forest) =>
      let s := { s.putCircuit id c with forest, table := s.table.remove c.address c.agent id }
      (true, (s.count Counters.countClosed).record (.closed id c.agent c.address reason))

/-! ### What the application can ask for -/

/-- Queues a message on the circuit of an agent. -/
def send (agent : Uuid) (category : Category) (m : Message) (reliable notify : Bool) (s : Server) :
    Except Circuit.SendError Server :=
  match s.ofAgent? agent with
  | none => .error (.noCircuit agent)
  | some (id, c) => do
    return s.putCircuit id (← c.send category m reliable notify)

/-- Closes the circuit of an agent, if there is one. -/
def close (agent : Uuid) (reason : CloseReason) (s : Server) : Bool × Server :=
  match s.table.byAgent.get? agent with
  | none => (false, s)
  | some id => s.closeCircuit id reason

/-- Takes the circuit of an agent to another phase, if there is one. -/
def changePhase (agent : Uuid) (change : Circuit → Bool × Circuit) (s : Server) : Bool × Server :=
  match s.ofAgent? agent with
  | none => (false, s)
  | some (id, c) =>
    let (changed, c) := change c
    (changed, s.putCircuit id c)

/-- Expects an agent to be silent for longer. -/
def pause (agent : Uuid) (s : Server) : Bool × Server :=
  s.changePhase agent Circuit.pause

/-- Ends a pause. -/
def resume (agent : Uuid) (s : Server) : Bool × Server :=
  s.changePhase agent Circuit.resume

/-- The rates of the circuit of an agent, in the form in which the peer is told about them. -/
def packedRates? (s : Server) (agent : Uuid) : Option Octets := do
  let (_, c) ← s.ofAgent? agent
  return (c.rates s.forest).pack s.config.echoMultiplier.toBits

/-- The figures of the circuit of an agent. -/
def summary? (s : Server) (agent : Uuid) : Option Circuit.Summary := do
  let (_, c) ← s.ofAgent? agent
  return c.summary s.forest

/-- The figures of all circuits in use. -/
def summaries (s : Server) : List Circuit.Summary :=
  s.table.byAgent.values.filterMap fun id ↦ (s.circuit? id).map (·.summary s.forest)

end Server

end DatagramCircuits
