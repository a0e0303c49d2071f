import DatagramCircuits.Traffic.Bucket
import DatagramCircuits.Traffic.Negotiation
/-!
# The allowance of a circuit

A circuit has a bucket for its total, which draws from the bucket of the server, and below it one
bucket per lane. The rates of the lanes are negotiated against the limit of the circuit, which is the
rate of its total bucket; every bucket has the burst that goes with its rate.

An `Allowance` holds only the positions of these buckets and what stays fixed; rates and levels are
in the forest.
-/

namespace DatagramCircuits

/-- Where the buckets of a circuit are, and what their rates are bound to. -/
structure Allowance where
  /-- The bucket of the whole circuit. -/
  total : BucketId
  /-- The bucket of each lane. -/
  lanes : PerLane BucketId
  /-- The limit for the sum of the rates. -/
  limit : UInt64
  /-- The time in which a bucket fills up. -/
  burstTime : Span
  /-- The largest datagram, which every bucket has room for. -/
  mtu : Nat
deriving DecidableEq, Repr

namespace Allowance

/-- Adds a bucket for each of the lanes, in their order. -/
def addLanes (total : BucketId) (burst : UInt64 → UInt64) (rates : Rates) (now : Instant)
    (f : Forest) : PerLane BucketId × Forest :=
  let add (lane : Lane) (f : Forest) := f.addChild total (rates.get lane) (burst (rates.get lane)) now
  let (resend, f) := add .resend f
  let (land, f) := add .land f
  let (wind, f) := add .wind f
  let (cloud, f) := add .cloud f
  let (task, f) := add .task f
  let (texture, f) := add .texture f
  let (asset, f) := add .asset f
  ({ resend, land, wind, cloud, task, texture, asset }, f)

/-- Opens an allowance below the bucket of the server. -/
def opened (root : BucketId) (limit : UInt64) (initial : Rates) (burstTime : Span) (mtu : Nat)
    (now : Instant) (f : Forest) : Except Fault (Allowance × Forest) := do
  let adjustment ← Rates.negotiate limit initial
  let burst := burstCapacity burstTime mtu
  let (total, f) := f.addChild root limit (burst limit) now
  let (lanes, f) := addLanes total burst adjustment.applied now f
  return ({ total, lanes, limit, burstTime, mtu }, f)

/-- The rates that the lanes have now. -/
def rates (a : Allowance) (f : Forest) : Rates :=
  a.lanes.map fun id ↦ ((f.get? id).map Bucket.rate).getD 0

/-- Negotiates the rates of the lanes anew. A warning comes before any of them is changed. -/
def renegotiate (a : Allowance) (warnings : Bool) (requested : Rates) (now : Instant) (f : Forest) :
    Except Fault (Adjustment × Forest) := do
  let adjustment ← Rates.negotiate a.limit requested
  adjustment.warn warnings
  let f := Lane.all.foldl (fun f lane ↦
    let rate := adjustment.applied.get lane
    f.setRate (a.lanes.get lane) rate (burstCapacity a.burstTime a.mtu rate) now) f
  return (adjustment, f)

/-- Takes octets from the allowance of a category. Traffic outside the lanes always passes. -/
def withdraw (a : Allowance) (category : Category) (n : Nat) (now : Instant) (f : Forest) :
    Bool × Forest :=
  match category with
  | .throttled lane => f.withdraw (a.lanes.get lane) n now
  | .unthrottled => (true, f)

/-- Gives the allowance back to the server; nothing can be taken from it any more. -/
def detach (a : Allowance) (f : Forest) : Forest :=
  (a.lanes.toList.foldl Forest.detach f).detach a.total

end Allowance

end DatagramCircuits
