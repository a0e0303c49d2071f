import DatagramCircuits.Datagram.Framing
import DatagramCircuits.Message.Control
/-!
# Datagrams of a client

What a client sends: one message in one datagram, numbered, with flags and acknowledgements of its
choice. A message that can not be framed, or needs several datagrams, is a fault of the caller.
-/

namespace DatagramCircuits

namespace Client

/-- The MTU of a client. -/
def mtu : Nat := 1400

/-- The datagram of a message. -/
def datagram (m : Message) (sequence : UInt32) (flags : Flags) (acks : List UInt32) :
    Except Fault Octets :=
  match m.frame flags.reliable mtu with
  | .ok [d] => do
    let d ← Datagram.setSequence sequence d
    let d ← Datagram.setFlags (Datagram.flags d ||| flags) d
    return (Datagram.appendAcks mtu acks d).2
  | _ => .error .notSingle

/-- The datagram of a control message. -/
def control (c : Control) (sequence : UInt32) (flags : Flags) : Except Fault Octets := do
  datagram (← c.toMessage) sequence flags []

/-- The reliable datagram that asks for a circuit. -/
def setup (request : SetupRequest) (sequence : UInt32) : Except Fault Octets :=
  control (.setup request) sequence { reliable := true }

end Client

end DatagramCircuits
