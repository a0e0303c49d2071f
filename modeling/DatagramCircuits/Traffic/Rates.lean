import DatagramCircuits.Fault
import DatagramCircuits.Octets.Basic
import DatagramCircuits.Span
import DatagramCircuits.Traffic.PerLane
/-!
# Rates

The rates of the lanes in octets per second, their packed form on the wire, and the capacity of a
bucket with a given rate.

**On the wire a rate is a 32-bit float in bits per second**, least significant octet first, and the
seven of them stand in lane order. Reading one takes an eighth of it, rounded down and clipped to 64
bits. What is negative or not finite reads as zero, so that it comes down to the floor of its lane
when the rates are negotiated. The reading is exact arithmetic on the bits (`eighthOfBinary32`).
-/

namespace DatagramCircuits

/-- Rates of the lanes in octets per second. -/
abbrev Rates := PerLane UInt64

namespace Rates

/-- The sum of the rates. -/
def total (r : Rates) : Nat :=
  (r.toList.map UInt64.toNat).foldl (· + ·) 0

/-- The rate of a category; outside the lanes it is zero. -/
def ofCategory (r : Rates) : Category → UInt64
  | .throttled lane => r.get lane
  | .unthrottled => 0

/-- The rates as text. -/
def text (r : Rates) : String :=
  let entries := Lane.all.map fun lane ↦ s!"{lane.name}:{r.get lane}"
  "THRTL\x7b" ++ ",".intercalate entries ++ "\x7d"

/-! ### The packed form -/

/-- The number of octets of a packed rate. -/
def packedWidth : Nat := 4

/-- The number of octets of the packed form. -/
def packedLength : Nat := Lane.all.length * packedWidth

/-- An eighth of the number with the given 32-bit float representation, rounded down and clipped to
64 bits. It is zero for what is negative or not finite. -/
def eighthOfBinary32 (bits : Nat) : UInt64 :=
  let exponent := (bits >>> 23) % 256
  let fraction := bits % (1 <<< 23)
  if (bits >>> 31) % 2 = 1 ∨ exponent = 255 ∨ exponent = 0 then 0
  else
    -- the number is `(2 ^ 23 + fraction) * 2 ^ (exponent - 150)`, and an eighth takes three off
    let eighth := ((1 <<< 23 + fraction) <<< exponent) >>> 153
    UInt64.ofNat (min eighth (UInt64.size - 1))

/-- The representation of a rate in bits per second times a multiplier, which is given by its own
representation. A multiplier that is no number is passed on as it is, only made quiet. Nothing times
infinity is no number either, and has the sign bit set. -/
def scaledBits (multiplier : UInt32) (rate : UInt64) : UInt32 :=
  let factor := Float32.ofBits multiplier
  let product := (rate.toFloat * 8.0 * factor.toFloat).toFloat32
  if factor.isNaN then multiplier ||| 0x00400000
  else if product.isNaN then 0xFFC00000
  else product.toBits

/-- The packed form of one rate, in bits per second times the multiplier. -/
def packOne (multiplier : UInt32) (rate : UInt64) : Octets :=
  Octets.littleEndian packedWidth (scaledBits multiplier rate).toNat

/-- The packed form, in bits per second times the multiplier with the given representation. -/
def pack (multiplier : UInt32) (r : Rates) : Octets :=
  r.toList.flatMap (packOne multiplier)

/-- Too few octets for packed rates. -/
structure PackedTooShort where
  /-- The number of octets there were. -/
  available : Nat
deriving DecidableEq, Repr

/-- The wording of the refusal. -/
def PackedTooShort.message (e : PackedTooShort) : String :=
  s!"packed throttles need {packedLength} bytes, got {e.available}"

/-- The rates in the first `packedLength` octets. -/
def ofPacked (s : Octets) : Rates :=
  PerLane.ofFn fun lane ↦
    eighthOfBinary32 (Octets.ofLittleEndian ((s.drop (lane.index * packedWidth)).take packedWidth))

/-- Reads packed rates. -/
def unpack : Octets.Reader PackedTooShort Rates := fun s ↦
  if s.length < packedLength then .error ⟨s.length⟩
  else .ok (ofPacked s, s.drop packedLength)

end Rates

/-- The capacity of a bucket with the given rate: what drips in during `burstTime`, and at least one
full datagram. -/
def burstCapacity (burstTime : Span) (mtu : Nat) (rate : UInt64) : UInt64 :=
  max (rate.toFloat * burstTime.seconds).toUInt64 (UInt64.ofNat mtu)

end DatagramCircuits
