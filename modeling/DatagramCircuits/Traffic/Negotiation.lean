import DatagramCircuits.Traffic.Rates
/-!
# Negotiation of rates

A peer asks for a rate in each lane, and the sum of what it gets is limited. Negotiation first clamps
every rate between the floor of its lane and the limit. If the clamped rates fit together, they are
granted as they are; otherwise they are scaled down to exactly the limit.

**Scaling is proportional, and no floor is undercut.** Each lane gets its `uniformShare` of the limit,
unless that is below the floor for some lane; then it is the parts above the floors that are scaled,
by `shareAboveFloor`. Shares are rounded down, and what is left over goes in units of one to the
lanes with the largest shares.

The sum of the clamped rates has to fit into 64 bits.
-/

namespace DatagramCircuits

/-- What became of a request for rates. -/
structure Adjustment where
  /-- The rates that were asked for. -/
  requested : Rates
  /-- The rates that are granted. -/
  applied : Rates
  /-- Whether the rates had to be scaled down to fit together. -/
  scaled : Bool
deriving DecidableEq, Repr

/-- Warns that rates had to be scaled down, if anybody reads warnings. The warning names the sum of the
rates that were asked for, which has to fit into 64 bits then. -/
def Adjustment.warn (warnings : Bool) (a : Adjustment) : Except Fault Unit :=
  if warnings && a.scaled then (within64 a.requested.total).map fun _ ↦ () else .ok ()

@[simp] theorem Adjustment.warn_false (a : Adjustment) : a.warn false = .ok () :=
  rfl

namespace Rates

/-- The requested rates, each raised to the floor of its lane and cut down to the limit. -/
def clamped (limit : Nat) (requested : Rates) : PerLane Nat :=
  PerLane.ofFn fun lane ↦
    max lane.floor (min (requested.get lane).toNat (max limit lane.floor))

/-- The sum over the lanes. -/
def sum (t : PerLane Nat) : Nat :=
  t.toList.foldl (· + ·) 0

/-- The share of the limit that is proportional to the clamped rate, rounded down. -/
def uniformShare (limit : Nat) (clamped : PerLane Nat) (lane : Lane) : Nat :=
  clamped.get lane * limit / sum clamped

/-- The floor and, of what the floors leave of the limit, the share that is proportional to the part
of the clamped rate above the floor, rounded down. -/
def shareAboveFloor (limit : Nat) (clamped : PerLane Nat) (lane : Lane) : Nat :=
  lane.floor +
    (clamped.get lane - lane.floor) * (limit - Lane.floorTotal) /
      max 1 (sum clamped - Lane.floorTotal)

/-- The shares of the lanes in the limit: the uniform ones if all of them reach the floors. -/
def shares (limit : Nat) (clamped : PerLane Nat) : PerLane Nat :=
  if Lane.all.all fun lane ↦ decide (lane.floor ≤ uniformShare limit clamped lane) then
    PerLane.ofFn (uniformShare limit clamped)
  else
    PerLane.ofFn (shareAboveFloor limit clamped)

/-- The lanes from the largest entry to the smallest; lanes with equal entries keep their order. -/
def largestFirst (t : PerLane Nat) : List Lane :=
  Lane.all.mergeSort fun k l ↦ decide (t.get l ≤ t.get k)

/-- The shares, with one more for as many of the largest as it takes to reach the limit. -/
def fillUp (limit : Nat) (shares : PerLane Nat) : PerLane Nat :=
  let lucky := (largestFirst shares).take (limit - sum shares)
  PerLane.ofFn fun lane ↦ shares.get lane + if lane ∈ lucky then 1 else 0

/-- Grants the requested rates as far as the limit of their sum allows. -/
def negotiate (limit : UInt64) (requested : Rates) : Except Fault Adjustment := do
  let clamped := clamped limit.toNat requested
  let sum ← within64 (sum clamped)
  if sum ≤ limit.toNat then
    return { requested, applied := clamped.map UInt64.ofNat, scaled := false }
  else
    let granted := fillUp limit.toNat (shares limit.toNat clamped)
    return { requested, applied := granted.map UInt64.ofNat, scaled := true }

theorem largestFirst_perm (t : PerLane Nat) : (largestFirst t).Perm Lane.all :=
  List.mergeSort_perm ..

theorem floor_le_clamped (limit : Nat) (requested : Rates) (lane : Lane) :
    lane.floor ≤ (clamped limit requested).get lane := by
  rw [clamped, PerLane.get_ofFn]
  exact Nat.le_max_left ..

end Rates

end DatagramCircuits
