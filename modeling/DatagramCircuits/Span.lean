import DatagramCircuits.Fault
/-!
# Instants and spans of time

Time is counted in whole nanoseconds. An **instant** is counted from a fixed origin, a **span** is
the length of an interval; both are natural numbers, and the difference of two instants is cut off
at zero, so a clock that runs backwards makes spans of no length. A timer counts in milliseconds, and
is never early.

**The clock shows whole seconds in 63 bits,** so there may be no instant that is a span later
(`Instant.after`). That is checked where a timer is set for the first time, since a span of the settings
alone may be too long for it. Two other sums of a running circuit are left unchecked, as they are in
range until the clock has gone through a third of what it can show. A timer that is set again has
run out, so what is added to the instant is no longer than the instant itself; and the fivefold of an
estimated round trip (`RoundTrip.sample`) is written in 64 bits, where the estimate is a length of time
that went by on the clock.

The text of a span names it in the largest unit in which it is at least one, with the fraction
written out and without trailing zeros: `1.5s`, `20ms`, `1.5µs`, `7ns`, and `0ns` for nothing.
-/

namespace DatagramCircuits

/-- A point in time, in nanoseconds from the origin of the clock. -/
abbrev Instant := Nat

/-- A length of time in nanoseconds. -/
abbrev Span := Nat

namespace Span

/-- Nanoseconds in a microsecond. -/
def microsecond : Span := 1000

/-- Nanoseconds in a millisecond. -/
def millisecond : Span := 1000000

/-- Nanoseconds in a second. -/
def second : Span := 1000000000

end Span

namespace Instant

/-- The end of the clock: the first instant that it can not show. -/
def horizon : Instant := 0x8000000000000000 * Span.second

/-- The instant that is a span later, if the clock can show it. -/
def after (now : Instant) (d : Span) : Except Fault Instant :=
  if now + d < horizon then .ok (now + d) else .error .overflow

theorem after_eq_ok_iff {now t : Instant} {d : Span} :
    after now d = .ok t ↔ now + d < horizon ∧ now + d = t := by
  rw [after]
  split <;> simp [*]

end Instant

namespace Span

/-- The span in seconds, as a float: the whole seconds plus the fraction. -/
def seconds (d : Span) : Float :=
  Float.ofNat (d / second) + Float.ofNat (d % second) / 1e9

/-- How long a timer takes that is set to the span: it goes off at whole milliseconds only, at the
first that is not too early. -/
def timer (d : Span) : Span :=
  (d + millisecond - 1) / millisecond * millisecond

/-- The last `width` decimal digits of a number, with leading zeros. -/
def digits : (width : Nat) → Nat → List Char
  | 0, _ => []
  | w + 1, n => digits w (n / 10) ++ [Char.ofNat ('0'.toNat + n % 10)]

/-- A number of units with a fraction of `10 ^ width` parts, without trailing zeros. -/
def inUnit (width whole part : Nat) (unit : String) : String :=
  let fraction := ((digits width part).reverse.dropWhile (· == '0')).reverse
  let point := if fraction.isEmpty then "" else "." ++ String.ofList fraction
  s!"{whole}{point}{unit}"

/-- The span as text. -/
def text (d : Span) : String :=
  if second ≤ d then inUnit 9 (d / second) (d % second) "s"
  else if millisecond ≤ d then inUnit 6 (d / millisecond) (d % millisecond) "ms"
  else if microsecond ≤ d then inUnit 3 (d / microsecond) (d % microsecond) "µs"
  else s!"{d}ns"

/-! ### Timers -/

theorem le_timer (d : Span) : d ≤ timer d := by
  have h (n : Nat) : n ≤ (n + 1000000 - 1) / 1000000 * 1000000 := by omega
  exact h d

theorem timer_lt (d : Span) : timer d < d + millisecond := by
  have h (n : Nat) : (n + 1000000 - 1) / 1000000 * 1000000 < n + 1000000 := by omega
  exact h d

theorem timer_eq_zero_iff (d : Span) : timer d = 0 ↔ d = 0 := by
  have h (n : Nat) : (n + 1000000 - 1) / 1000000 * 1000000 = 0 ↔ n = 0 := by omega
  exact h d

end Span

end DatagramCircuits
