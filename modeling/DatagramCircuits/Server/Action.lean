import DatagramCircuits.Server.Basic
/-!
# What tasks do

The tasks of a server run side by side. What a task still has to do is a list of actions, and an
action ends in one of three ways: the task goes on at once; the task waits, with things to be done
first when it goes on, and meanwhile other tasks may run; or a fault ends the task.

**A task waits when it uses the socket or the application,** and nowhere else: in front of the
datagrams it is going to send, behind each of them, and behind a message that it delivered.

**What follows from an action is simpler than the action.** `Action.rank` says how often that can go
on: sending leads to nothing further, an accepted message may lead to an answer, and an arriving
datagram may lead to acknowledgements and to its message.
-/

namespace DatagramCircuits

/-- A thing that a task of a server does. -/
inductive Action where
  /-- Give a datagram to the socket. -/
  | transmit (target : Address) (datagram : Octets)
  /-- Count datagrams that were given to the socket. -/
  | countSent (n : Nat)
  /-- Take a circuit into use, and tell the application. -/
  | announce (circuit : CircuitId)
  /-- See to the message of a datagram that a circuit accepted. -/
  | deliver (circuit : CircuitId) (packet : Packet)
  /-- Give a datagram that was kept to its circuit. -/
  | replay (circuit : CircuitId) (datagram : Octets)
  /-- Decode a datagram that arrived. -/
  | handle (source : Address) (datagram : Octets)
  /-- Do the regular work of a circuit, as of the instant at which the round of it began. -/
  | serve (circuit : CircuitId) (time : Instant)
deriving DecidableEq, Repr

/-- How many steps may lead from the action to the last of what follows from it. -/
def Action.rank : Action → Nat
  | transmit .. | countSent _ | announce _ => 0
  | deliver .. | serve .. => 1
  | replay .. | handle .. => 2

/-- The largest rank of an action. -/
def Action.maxRank : Nat := 2

/-- How an action ends, or a part of a task. -/
inductive Outcome where
  /-- Nothing is left to be done for it. -/
  | finished
  /-- The task waits, and then this has to be done. -/
  | waiting (rest : List Action)
  /-- A fault ended the task. -/
  | failed (fault : Fault)
deriving DecidableEq, Repr

/-- The actions that give datagrams to the socket. -/
def Action.sendAll (target : Address) (datagrams : List Octets) : List Action :=
  datagrams.map (.transmit target) ++ [.countSent datagrams.length]

theorem Action.rank_le_maxRank (a : Action) : a.rank ≤ maxRank := by
  cases a <;> simp [rank, maxRank]

theorem Action.rank_of_mem_sendAll {a : Action} {target : Address} {l : List Octets}
    (h : a ∈ sendAll target l) : a.rank = 0 := by
  simp only [sendAll, List.mem_append, List.mem_map, List.mem_singleton] at h
  rcases h with ⟨d, -, rfl⟩ | rfl <;> rfl

end DatagramCircuits
