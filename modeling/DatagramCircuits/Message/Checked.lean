import DatagramCircuits.Datagram.Checked
import DatagramCircuits.Message.Control
/-!
# Control messages read with checked access

A reader of control messages asks for most of its numbers whether they are there. In two formats it does
not: once the octets behind a length were found to be enough, the numbers of acknowledgements and of rates
are taken without asking again, and so is what follows the rates in their block. This module holds these
two readers over operations that are at fault where octets are missing, and the reader that is told by the
id which format to expect.

**No octets are ever missing** when this reader never is at fault and is the same as `Control.read`.
-/

namespace DatagramCircuits

/-- A failure whose refusals are embedded in a larger error type. -/
def Failure.map {ε ε' : Type} (f : ε → ε') : Failure ε → Failure ε'
  | .fault cause => .fault cause
  | .refused e => .refused (f e)

namespace Octets

/-- A reader that may meet a fault, among those that may also refuse. -/
def Reader.ofFault {ε α : Type} (r : Reader Fault α) : Reader (Failure ε) α :=
  r.withError .fault

/-- A reader that may refuse, among those that may also meet a fault. -/
def Reader.ofRefusal {ε α : Type} (r : Reader ε α) : Reader (Failure ε) α :=
  r.withError .refused

/-- The number in the first `width` octets, least significant first. They have to be there. -/
def nextLittle (width : Nat) : Reader Fault Nat := fun s ↦ do
  let (field, rest) ← divide width s
  return (ofLittleEndian field, rest)

/-- As many such numbers of four octets as given, one after the other. -/
def nextLittles : Nat → Reader Fault (List Nat)
  | 0 => return []
  | count + 1 => do
    let n ← nextLittle 4
    let l ← nextLittles count
    return n :: l

/-- Passes over what is left of `declared` octets when `used` of them were read. -/
def skipRest (declared used : Nat) : Reader Fault Unit := fun s ↦ do
  let slack ← difference declared used
  let (_, rest) ← divide slack s
  return ((), rest)

end Octets

/-- Reads packed rates, one after the other. -/
def Rates.unpackChecked : Octets.Reader (Failure PackedTooShort) Rates := do
  let left ← get
  if left.length < packedLength then throw (.refused ⟨left.length⟩)
  let numbers ← (Octets.nextLittles Lane.all.length).ofFault
  return PerLane.ofFn fun lane ↦ eighthOfBinary32 (numbers.getD lane.index 0)

namespace Control

/-- Reads acknowledgements. -/
def readAcksChecked : Octets.Reader (Failure Error) (List UInt32) := do
  let declared ← ((Octets.readLittle 1).withError Error.underrun).ofRefusal
  let left ← get
  if left.length < 4 * declared then throw (.refused (.acksTooShort declared (left.length / 4)))
  let numbers ← (Octets.nextLittles declared).ofFault
  return numbers.map UInt32.ofNat

/-- Reads a block of rates. -/
def readThrottleChecked : Octets.Reader (Failure Error) Rates := do
  let declared ← ((Octets.readLittle 1).withError Error.underrun).ofRefusal
  let left ← get
  if declared < Rates.packedLength ∨ left.length < declared then
    throw (.refused (.throttleTooShort declared left.length))
  let rates ← Rates.unpackChecked.withError (Failure.map Error.rates)
  (Octets.skipRest declared Rates.packedLength).ofFault
  return rates

/-- Reads the body of a control message with the given id. The formats that ask for each number whether
it is there have nothing to check. -/
def readChecked (id : MessageId) : Octets.Reader (Failure Error) (Option Control) := do
  if id = .acks then
    return some (.acks (← readAcksChecked))
  else if id = .throttle then
    return some (.throttle (← readThrottleChecked))
  else
    (read id).ofRefusal

end Control

end DatagramCircuits
