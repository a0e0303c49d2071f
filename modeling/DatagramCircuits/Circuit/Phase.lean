/-!
# The life of a circuit

A circuit is set up, used, possibly paused and resumed, and closed for one of several reasons. On
interfaces the phases have numbers, and the reasons a wording.
-/

namespace DatagramCircuits

/-- Where a circuit is in its life. -/
inductive Phase where
  /-- The circuit is being set up. -/
  | connecting
  /-- The circuit is in use. -/
  | connected
  /-- The peer is expected to be silent for longer than usual. -/
  | paused
  /-- The circuit is closed for good. -/
  | disconnected
deriving DecidableEq, Repr

namespace Phase

/-- All phases, in the order of their numbers. -/
def all : List Phase :=
  [connecting, connected, paused, disconnected]

/-- The number of the phase. -/
def number : Phase → Nat
  | connecting => 0
  | connected => 1
  | paused => 2
  | disconnected => 3

/-- The name of the phase in texts. -/
def name : Phase → String
  | connecting => "Connecting"
  | connected => "Connected"
  | paused => "Paused"
  | disconnected => "Disconnected"

/-- The phase with the given number. -/
def ofNumber? (n : Nat) : Option Phase :=
  all.find? (·.number == n)

theorem ofNumber?_number (p : Phase) : ofNumber? p.number = some p := by
  cases p <;> rfl

end Phase

/-- Why a circuit was closed. -/
inductive CloseReason where
  /-- The agent left. -/
  | logout
  /-- Nothing arrived from the peer for too long. -/
  | timeout
  /-- The peer said that it closes the circuit. -/
  | protocolClose
  /-- The peer did something that the protocol does not allow. -/
  | protocolError
  /-- Whoever runs the server wanted the circuit closed. -/
  | administrative
  /-- The agent or the address has got another circuit. -/
  | superseded
deriving DecidableEq, Repr

/-- The wording of a reason. -/
def CloseReason.text : CloseReason → String
  | .logout => "logout"
  | .timeout => "no packets received"
  | .protocolClose => "closed by peer"
  | .protocolError => "protocol error"
  | .administrative => "closed by administrator"
  | .superseded => "superseded by a new circuit"

end DatagramCircuits
