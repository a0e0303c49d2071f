import DatagramCircuits.Octets.Basic
/-!
# Message ids

A message id names the type of a message. Ids fall into three frequency classes, and frequent types
get short ids: one octet in the high class, an escape octet and one more in the medium class, two
escape octets and two more in the low class.

**The escape octet is no number of the high or the medium class.** Such an id can be written but not
read back; `MessageId.Readable` excludes it, and `MessageId.check` refuses it before framing.
-/

namespace DatagramCircuits

/-- The type of a message, by frequency class. -/
inductive MessageId where
  /-- A frequent type. -/
  | high (n : UInt8)
  /-- A type of medium frequency. -/
  | medium (n : UInt8)
  /-- A rare type. -/
  | low (n : UInt16)
deriving DecidableEq, Repr

namespace MessageId

/-- The octet that leads over to the next frequency class. -/
def escape : UInt8 := 0xFF

/-- A request for a sign of life. -/
def ping : MessageId := high 1

/-- The answer to `ping`. -/
def pong : MessageId := high 2

/-- Terrain patches. They are packed to fill a datagram, so they can not be split. -/
def layerData : MessageId := high 11

/-- A request to set up a circuit. -/
def setup : MessageId := low 3

/-- Rates that the peer asks for. -/
def throttle : MessageId := low 81

/-- Acknowledgements in a datagram of their own. -/
def acks : MessageId := low 0xFFFB

/-- The end of a circuit. -/
def close : MessageId := low 0xFFFD

/-- The id as text: the class and the number. -/
def text : MessageId → String
  | high n => s!"H{n}"
  | medium n => s!"M{n}"
  | low n => s!"L{n}"

/-! ### The written form -/

/-- The written form. -/
def encode : MessageId → Octets
  | high n => [n]
  | medium n => [escape, n]
  | low n => escape :: escape :: Octets.bigEndian 2 n.toNat

/-- The length of the written form. -/
def encodedLength : MessageId → Nat
  | high _ => 1
  | medium _ => 2
  | low _ => 4

@[simp] theorem length_encode (id : MessageId) : id.encode.length = id.encodedLength := by
  cases id <;> rfl

/-- The length of the id that the octets start with, as far as they tell. -/
def peekLength : Octets → Option Nat
  | [] => none
  | [first] => if first = escape then none else some 1
  | first :: second :: _ =>
    if first = escape then if second = escape then some 4 else some 2 else some 1

/-- Reads an id. -/
def read : Octets.Reader Octets.Underrun MessageId := do
  let first ← Octets.readBig 1
  if first ≠ escape.toNat then return high (UInt8.ofNat first)
  let second ← Octets.readBig 1
  if second ≠ escape.toNat then return medium (UInt8.ofNat second)
  let n ← Octets.readBig 2
  return low (UInt16.ofNat n)

/-! ### Ids that can be read back -/

/-- An id can be read back when its number is not taken for an escape. -/
def Readable : MessageId → Prop
  | high n | medium n => n ≠ escape
  | low _ => True

instance : DecidablePred Readable := fun id ↦ by
  cases id <;> unfold Readable <;> infer_instance

/-- An id whose number is taken for an escape. -/
structure Unreadable where
  /-- The id. -/
  id : MessageId
deriving DecidableEq, Repr

/-- The wording of the refusal. -/
def Unreadable.message (e : Unreadable) : String :=
  s!"{e.id.text} collides with the escape byte"

/-- Refuses an id that can not be read back. -/
def check (id : MessageId) : Except Unreadable Unit :=
  if id.Readable then .ok () else .error ⟨id⟩

/-- Whether messages of this type may be divided among several datagrams. -/
def Splittable (id : MessageId) : Prop :=
  id ≠ layerData

instance : DecidablePred Splittable := fun id ↦
  inferInstanceAs (Decidable (id ≠ layerData))

end MessageId

end DatagramCircuits
