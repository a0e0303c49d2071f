import DatagramCircuits.Collection.Dict
import DatagramCircuits.Fault
/-!
# Sharded dictionaries

A dictionary divided into a fixed number of shards, of which a key belongs to the one that its hash
selects. An update of one key touches one shard only.
-/

namespace DatagramCircuits

/-- A dictionary in shards. -/
structure Sharded (κ ν : Type) where
  /-- The shards. -/
  shards : List (Dict κ ν)
deriving DecidableEq, Repr

namespace Sharded

variable {κ ν ρ : Type} [DecidableEq κ] [Hashable κ]

/-- A dictionary without keys, in the given number of shards. There has to be one at least. -/
def create (count : Nat) : Except Fault (Sharded κ ν) :=
  if count = 0 then .error .noCapacity else .ok ⟨List.replicate count Dict.empty⟩

/-- The position of the shard of a key. -/
def shardOf (s : Sharded κ ν) (k : κ) : Nat :=
  (hash k).toNat % s.shards.length

/-- The shard of a key. -/
def shard (s : Sharded κ ν) (k : κ) : Dict κ ν :=
  s.shards.getD (s.shardOf k) Dict.empty

/-- Replaces the shard of a key by what a function makes of it, and tells what else it says. -/
def withShard (s : Sharded κ ν) (k : κ) (f : Dict κ ν → ρ × Dict κ ν) : ρ × Sharded κ ν :=
  let (r, d) := f (s.shard k)
  (r, ⟨s.shards.set (s.shardOf k) d⟩)

/-- The value of a key. -/
def get? (s : Sharded κ ν) (k : κ) : Option ν :=
  (s.shard k).get? k

/-- Whether there is a value for the key. -/
def contains (s : Sharded κ ν) (k : κ) : Bool :=
  (s.shard k).contains k

/-- The dictionary with a value for a key. -/
def insert (s : Sharded κ ν) (k : κ) (v : ν) : Sharded κ ν :=
  (s.withShard k fun d ↦ ((), d.insert k v)).2

/-- Takes a key out, and tells its value. -/
def remove (s : Sharded κ ν) (k : κ) : Option ν × Sharded κ ν :=
  s.withShard k fun d ↦ (d.get? k, d.erase k)

/-- The number of keys. -/
def size (s : Sharded κ ν) : Nat :=
  (s.shards.map Dict.size).foldl (· + ·) 0

/-- Whether there is no key. -/
def isEmpty (s : Sharded κ ν) : Bool :=
  s.size == 0

end Sharded

end DatagramCircuits
