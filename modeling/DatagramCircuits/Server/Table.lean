import DatagramCircuits.Collection.Dict
import DatagramCircuits.Identity
/-!
# The table of circuits

The circuits in use, by the address of the peer and by the agent. A new circuit takes the place of the
one at its address and of the one of its agent; those it displaces may still be registered under their
other key, and are to be closed. A circuit is taken out only where it is registered itself, so that
closing a displaced one leaves its successor alone.
-/

namespace DatagramCircuits

/-- The position of a circuit among all that a server ever set up. -/
abbrev CircuitId := Nat

/-- The circuits in use. -/
structure Table where
  /-- The circuits by the address of the peer. -/
  byAddress : Dict Address CircuitId := Dict.empty
  /-- The circuits by the agent. -/
  byAgent : Dict Uuid CircuitId := Dict.empty
deriving DecidableEq, Repr

namespace Table

/-- Registers a circuit, and tells which others it displaces. -/
def insert (address : Address) (agent : Uuid) (id : CircuitId) (t : Table) : List CircuitId × Table :=
  let displaced := (t.byAddress.get? address).toList ++ (t.byAgent.get? agent).toList
  ((displaced.filter (· ≠ id)).eraseDups,
    { byAddress := t.byAddress.insert address id, byAgent := t.byAgent.insert agent id })

/-- A dictionary without a key, if the key has the given value. -/
def eraseIf {κ : Type} [DecidableEq κ] (d : Dict κ CircuitId) (k : κ) (id : CircuitId) :
    Dict κ CircuitId :=
  if d.get? k = some id then d.erase k else d

/-- Takes a circuit out, where it was not replaced by another. -/
def remove (address : Address) (agent : Uuid) (id : CircuitId) (t : Table) : Table where
  byAddress := eraseIf t.byAddress address id
  byAgent := eraseIf t.byAgent agent id

theorem get?_eraseIf {κ : Type} [DecidableEq κ] (d : Dict κ CircuitId) (k k' : κ) (id : CircuitId) :
    (eraseIf d k id).get? k' = if k = k' ∧ d.get? k = some id then none else d.get? k' := by
  unfold eraseIf
  by_cases h : d.get? k = some id
  · by_cases hk : k = k'
    · subst hk
      simp [h, Dict.get?_erase]
    · simp [h, hk, Dict.get?_erase]
  · simp [h]

end Table

end DatagramCircuits
