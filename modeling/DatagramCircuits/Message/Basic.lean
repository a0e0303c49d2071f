import DatagramCircuits.Message.Id
/-!
# Messages

A message before framing: its id and its serialized body, with the wish to have it zero-coded where
that makes a datagram shorter.
-/

namespace DatagramCircuits

/-- A message to be framed. -/
structure Message where
  /-- The type of the message. -/
  id : MessageId
  /-- The serialized body. -/
  payload : Octets
  /-- Zero-code each datagram of the message that gets shorter by it. -/
  zeroCoded : Bool := false
deriving DecidableEq, Repr

/-- The message as text. -/
def Message.text (m : Message) : String :=
  let mark := if m.zeroCoded then ":Z" else ""
  s!"MSG\x7b{m.id.text}:{m.payload.length}{mark}\x7d"

end DatagramCircuits
