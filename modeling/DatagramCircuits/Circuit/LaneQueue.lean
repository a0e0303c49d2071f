import DatagramCircuits.Delivery.Outgoing
/-!
# The queue of a lane

The datagrams that wait in a lane, first in, first out. The one that was to be sent and could not be
afforded is held back, in front of the others. Resent datagrams may lose their purpose while they
wait, so taking the next one takes a test for those that are still of use and drops the others on
the way.
-/

namespace DatagramCircuits

/-- The datagrams that wait in a lane. -/
structure LaneQueue where
  /-- The datagram that is held back. -/
  held : Option Outgoing := none
  /-- The datagrams behind it. -/
  waiting : List Outgoing := []
deriving DecidableEq, Repr

namespace LaneQueue

/-- All datagrams, in the order in which they are to be sent. -/
def toList (q : LaneQueue) : List Outgoing :=
  q.held.toList ++ q.waiting

/-- The number of datagrams. -/
def depth (q : LaneQueue) : Nat :=
  q.toList.length

/-- Whether no datagram waits. -/
def isEmpty (q : LaneQueue) : Bool :=
  q.toList.isEmpty

/-- Puts a datagram at the end. -/
def push (p : Outgoing) (q : LaneQueue) : LaneQueue :=
  { q with waiting := q.waiting ++ [p] }

/-- Puts a datagram in front, to be tried again. -/
def holdBack (p : Outgoing) (q : LaneQueue) : LaneQueue :=
  { q with held := some p }

/-- Takes the first datagram that is of use, and drops those in front of it. -/
def take? (useful : Outgoing → Bool) (q : LaneQueue) : Option Outgoing × LaneQueue :=
  match q.toList.dropWhile (!useful ·) with
  | [] => (none, {})
  | p :: waiting => (some p, { waiting })

@[simp] theorem toList_push (p : Outgoing) (q : LaneQueue) : (q.push p).toList = q.toList ++ [p] := by
  simp [toList, push]

theorem toList_take? (useful : Outgoing → Bool) (q : LaneQueue) :
    (q.take? useful).1.toList ++ (q.take? useful).2.toList = q.toList.dropWhile (!useful ·) := by
  unfold take?
  split <;> simp_all [toList]

theorem take?_fst (useful : Outgoing → Bool) (q : LaneQueue) :
    (q.take? useful).1 = q.toList.find? useful := by
  unfold take?
  generalize q.toList = l
  induction l with
  | nil => rfl
  | cons p l ih =>
    by_cases h : useful p
    · simp [h]
    · simpa [h] using ih

/-- A datagram that is held back is the next one again. -/
theorem toList_holdBack {p : Outgoing} {q : LaneQueue} (h : q.held = none) :
    (q.holdBack p).toList = p :: q.toList := by
  simp [toList, holdBack, h]

end LaneQueue

end DatagramCircuits
