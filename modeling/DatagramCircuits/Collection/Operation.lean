import DatagramCircuits.Collection.Sharded
/-!
# Operations on dictionaries

What can be asked of a dictionary, as data, so that a dictionary in shards can be compared with one in
one piece: `Dict.apply` and `Sharded.apply` answer an operation, and `Dict.run` and `Sharded.run` one
operation after another.

**An update is a function** of the dictionary that it is given, for the sake of a key. In shards it is
given the shard of that key. What it tells can be anything, so the operations have the type of it as a
parameter.
-/

namespace DatagramCircuits

namespace Dict

variable {κ ν ρ σ : Type}

/-- Something that is asked of a dictionary. -/
inductive Operation (κ ν ρ : Type) where
  /-- Replace the dictionary by what a function makes of it, for the sake of a key. -/
  | update (k : κ) (f : Dict κ ν → ρ × Dict κ ν)
  /-- Tell whether there is a value for a key. -/
  | contains (k : κ)
  /-- Take a key out. -/
  | remove (k : κ)
  /-- Tell the number of keys. -/
  | size
  /-- Tell whether there is no key. -/
  | isEmpty

/-- What an operation tells. -/
inductive Answer (ν ρ : Type) where
  /-- What the function of an update tells. -/
  | updated (r : ρ)
  /-- Whether there is a value for the key. -/
  | found (there : Bool)
  /-- The value of the key that was taken out. -/
  | removed (v : Option ν)
  /-- The number of keys. -/
  | counted (n : Nat)
  /-- Whether there is no key. -/
  | nothing (yes : Bool)
deriving DecidableEq, Repr

/-- The answers to one operation after another, and what there is after them. -/
def Operation.run (apply : σ → Operation κ ν ρ → Answer ν ρ × σ) (s : σ) :
    List (Operation κ ν ρ) → List (Answer ν ρ) × σ
  | [] => ([], s)
  | o :: l =>
    let (a, s) := apply s o
    let (answers, s) := run apply s l
    (a :: answers, s)

variable [DecidableEq κ]

/-- Looks at the value of a key, tells something about it, and puts another value in its place. -/
def alter (k : κ) (change : Option ν → ρ × Option ν) (d : Dict κ ν) : ρ × Dict κ ν :=
  let (r, v) := change (d.get? k)
  (r, d.put k v)

/-- The answer to an operation, and the dictionary after it. -/
def apply (d : Dict κ ν) : Operation κ ν ρ → Answer ν ρ × Dict κ ν
  | .update _ f =>
    let (r, d) := f d
    (.updated r, d)
  | .contains k => (.found (d.contains k), d)
  | .remove k => (.removed (d.get? k), d.erase k)
  | .size => (.counted d.size, d)
  | .isEmpty => (.nothing d.isEmpty, d)

/-- The answers to one operation after another, and the dictionary after them. -/
def run (d : Dict κ ν) (l : List (Operation κ ν ρ)) : List (Answer ν ρ) × Dict κ ν :=
  Operation.run apply d l

end Dict

namespace Sharded

variable {κ ν ρ : Type} [DecidableEq κ] [Hashable κ]

/-- The answer to an operation, and the shards after it. -/
def apply (s : Sharded κ ν) : Dict.Operation κ ν ρ → Dict.Answer ν ρ × Sharded κ ν
  | .update k f =>
    let (r, s) := s.withShard k f
    (.updated r, s)
  | .contains k => (.found (s.contains k), s)
  | .remove k =>
    let (v, s) := s.remove k
    (.removed v, s)
  | .size => (.counted s.size, s)
  | .isEmpty => (.nothing s.isEmpty, s)

/-- The answers to one operation after another, and the shards after them. -/
def run (s : Sharded κ ν) (l : List (Dict.Operation κ ν ρ)) :
    List (Dict.Answer ν ρ) × Sharded κ ν :=
  Dict.Operation.run apply s l

end Sharded

end DatagramCircuits
