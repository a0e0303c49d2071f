/-!
# The shortest decimal of a float

A finite 64-bit float is written with the fewest digits that read back as the same float, in
positional notation.

**A float stands for an interval.** The reals that round to `m * 2 ^ q` lie between the midpoints to
its neighbours, and the midpoints belong to them exactly if `m` is even. The shortest decimal is found
on the coarsest grid of multiples of a power of ten that has a point in the interval. Only the two
grid points around the float itself can be nearest to it; if both lie in the interval the nearer one
is taken, and the upper one if they are equally near. All of this is exact arithmetic on natural
numbers (`Dyadic.shortest`).
-/

namespace DatagramCircuits

/-- The number `coefficient * 10 ^ exponent`. -/
structure Decimal where
  /-- The digits. -/
  coefficient : Nat
  /-- The power of ten that they count. -/
  exponent : Int
deriving DecidableEq, Repr

namespace Decimal

/-- The number in positional notation. -/
def positional (d : Decimal) : String :=
  let digits := Nat.toDigits 10 d.coefficient
  if 0 ≤ d.exponent then String.ofList (digits ++ List.replicate d.exponent.toNat '0')
  else
    let places := (-d.exponent).toNat
    let digits := List.replicate (places + 1 - digits.length) '0' ++ digits
    let whole := digits.length - places
    String.ofList (digits.take whole ++ '.' :: digits.drop whole)

end Decimal

/-- A positive float `m * 2 ^ q`, with the distance to the float below it. -/
structure Dyadic where
  /-- The significand. -/
  m : Nat
  /-- The power of two that it counts. -/
  q : Int
  /-- Whether the float below is only half as far away as the one above. -/
  closeBelow : Bool
deriving DecidableEq, Repr

namespace Dyadic

/-- The positive finite float with the given representation. -/
def ofBits (bits : Nat) : Dyadic :=
  let exponent : Nat := (bits >>> 52) % (1 <<< 11)
  let fraction : Nat := bits % (1 <<< 52)
  if exponent = 0 then { m := fraction, q := -1074, closeBelow := false }
  else
    { m := 1 <<< 52 + fraction, q := (exponent : Int) - 1075
      closeBelow := decide (fraction = 0 ∧ 1 < exponent) }

/-- The point of the grid of multiples of `10 ^ k` that is to be written for the float, if there is
one in its interval. Everything is counted in quarters of `2 ^ q`, times what makes it whole. -/
def onGrid? (x : Dyadic) (k : Int) : Option Nat :=
  let quarter : Nat := Nat.pow 10 (-k).toNat <<< (x.q - 2).toNat
  let spacing : Nat := Nat.pow 10 k.toNat <<< (2 - x.q).toNat
  let value := 4 * x.m * quarter
  let low := (4 * x.m - if x.closeBelow then 1 else 2) * quarter
  let high := (4 * x.m + 2) * quarter
  let below := value / spacing
  let slack := if x.m % 2 = 0 then 0 else 1
  let hitBelow := decide (low + slack ≤ below * spacing)
  let hitAbove := decide ((below + 1) * spacing + slack ≤ high)
  let nearerBelow := decide (2 * value < (2 * below + 1) * spacing)
  if hitBelow && (nearerBelow || !hitAbove) then some below
  else if hitAbove then some (below + 1)
  else none

/-- The first grid with a point to be written, of `fuel` grids from the multiples of `10 ^ k` on. -/
def search (x : Dyadic) : (fuel : Nat) → (k : Int) → Decimal
  | 0, k => ⟨0, k⟩
  | fuel + 1, k =>
    match x.onGrid? k with
    | some coefficient => ⟨coefficient, k⟩
    | none => search x fuel (k - 1)

/-- The exponent of the largest float in decimal notation. -/
def maxExponent : Int := 308

/-- As many grids as there are powers of ten between the largest and the smallest float. -/
def gridCount : Nat := 633

/-- The shortest decimal that reads back as the float. -/
def shortest (x : Dyadic) : Decimal :=
  x.search gridCount maxExponent

end Dyadic

/-- The text of a float: the shortest digits in positional notation, a sign also for the negative
zero, and words for what is not finite. -/
def floatText (x : Float) : String :=
  let bits := x.toBits.toNat
  let sign := if bits >>> 63 = 1 then "-" else ""
  if x.isNaN then "NaN"
  else if x.isInf then sign ++ "inf"
  else if bits % (1 <<< 63) = 0 then sign ++ "0"
  else sign ++ (Dyadic.ofBits bits).shortest.positional

end DatagramCircuits
