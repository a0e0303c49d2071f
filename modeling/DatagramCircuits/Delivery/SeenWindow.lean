import DatagramCircuits.Fault
import Std.Data.TreeSet
/-!
# The window of sequence numbers seen

A datagram that arrives twice is recognised by its sequence number, as long as the number is among
the last ones that were new. The window keeps these in the order of their arrival, for eviction, and
as a set, for the question whether a number is among them. A number that is offered again keeps its
place in the order.
-/

namespace DatagramCircuits

/-- The sequence numbers that were new last. -/
structure SeenWindow where
  /-- The numbers, oldest first. -/
  order : List UInt32
  /-- The same numbers as a set. -/
  members : Std.TreeSet UInt32
  /-- How many numbers are kept. At least the newest one always is. -/
  capacity : Nat

namespace SeenWindow

/-- The window before anything was seen. -/
def empty (capacity : Nat) : SeenWindow where
  order := []
  members := ∅
  capacity := capacity

/-- The window before anything was seen, provided that there can be so much room. -/
def create (capacity : Nat) : Except Fault SeenWindow :=
  empty <$> withinCapacity capacity

/-- The window without its oldest number. -/
def evict (w : SeenWindow) : SeenWindow :=
  match w.order with
  | [] => w
  | oldest :: order => { w with order, members := w.members.erase oldest }

/-- The window with a number that is not in it. -/
def push (n : UInt32) (w : SeenWindow) : SeenWindow :=
  { w with order := w.order ++ [n], members := w.members.insert n }

/-- Whether the number was seen before. If not, it is recorded. -/
def offer (n : UInt32) (w : SeenWindow) : Bool × SeenWindow :=
  if w.members.contains n then (true, w)
  else
    let w := if w.capacity ≤ w.order.length then w.evict else w
    (false, w.push n)

end SeenWindow

end DatagramCircuits
