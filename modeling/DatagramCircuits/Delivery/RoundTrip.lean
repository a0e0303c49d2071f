import DatagramCircuits.Fault
import DatagramCircuits.Span
/-!
# Round trips and the timeout

How long a round trip takes is estimated from samples: the first sample is the estimate, and every
further one moves it by a fixed weight. What is not answered within five times the estimate, kept
between two bounds, counts as lost. There is no term for the variance.
-/

namespace DatagramCircuits

/-- An estimate of the round trip, and the timeout that follows from it. -/
structure RoundTrip where
  /-- The estimate, once there was a sample. -/
  smoothed : Option Span
  /-- How long an answer may take. -/
  timeout : Span
  /-- The weight of a sample. -/
  weight : Float
  /-- The shortest timeout. -/
  low : Span
  /-- The longest timeout. -/
  high : Span
deriving DecidableEq, Repr

namespace RoundTrip

/-- The timeout in multiples of the estimate. -/
def timeoutFactor : Nat := 5

/-- A span cut off at the bounds of the timeout. -/
def clamp (low high d : Span) : Span :=
  max low (min d high)

/-- An estimate without samples, with a first timeout. The bounds have to be in order. -/
def unsampled (timeout low high : Span) (weight : Float) : Except Fault RoundTrip :=
  if low ≤ high then
    .ok { smoothed := none, timeout := clamp low high timeout, weight, low, high }
  else .error .emptyInterval

/-- The nearest whole number in 64 bits; halves are rounded up, and what is negative or no number is
zero. -/
def nearest (x : Float) : Nat :=
  let whole := x.toUInt64
  if 0.5 ≤ x - whole.toFloat then min (whole.toNat + 1) (UInt64.size - 1) else whole.toNat

/-- An estimate moved towards a sample. -/
def smooth (weight : Float) (previous sample : Span) : Span :=
  nearest (Float.ofNat previous * (1.0 - weight) + Float.ofNat sample * weight)

/-- Takes a sample into account. -/
def sample (d : Span) (r : RoundTrip) : RoundTrip :=
  let smoothed := match r.smoothed with
    | none => d
    | some previous => smooth r.weight previous d
  { r with smoothed := some smoothed, timeout := clamp r.low r.high (timeoutFactor * smoothed) }

theorem low_le_clamp (low high d : Span) : low ≤ clamp low high d :=
  Nat.le_max_left ..

theorem clamp_le_high {low high : Span} (h : low ≤ high) (d : Span) : clamp low high d ≤ high :=
  Nat.max_le.2 ⟨h, Nat.min_le_right ..⟩

end RoundTrip

end DatagramCircuits
