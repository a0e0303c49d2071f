import DatagramCircuits.Octets.ZeroRuns
/-!
# Runs of zeros in place

`ZeroRuns.encode` and `ZeroRuns.append` say what is written and what is read. This module holds both once
more, octet by octet and with what such a coder has at hand: the octets that are there already, to which
it adds at the end. The writer counts the zeros of a run in a single octet, and the reader compares the
length of what it has with the place where it has to stop.

**A count that leaves its octet is a fault.** A run has to be given out before that, so the writer never
being at fault is a matter of when it does so.
-/

namespace DatagramCircuits

namespace ZeroRuns

/-- The octets with a run behind them, if there is one. -/
def giveOut (start : Octets) (run : UInt8) : Octets :=
  if run = 0 then start else start ++ [0, run]

/-- Writes octets behind those that are there already, after `run` zeros that are counted and not given
out yet. -/
def writeAfter (start : Octets) (run : UInt8) : Octets → Except Fault Octets
  | [] => .ok (giveOut start run)
  | b :: s =>
    if b = 0 then do
      -- the longest run is given out before another zero is counted
      let (start, run) := if run = 255 then (giveOut start run, 0) else (start, run)
      let run ← Octets.countOctet (run.toNat + 1)
      writeAfter start run s
    else writeAfter (giveOut start run ++ [b]) 0 s

/-- Writes the coded form of octets behind those that are there already. -/
def write (start s : Octets) : Except Fault Octets :=
  writeAfter start 0 s

/-- Expands coded octets behind those that are there already, up to a place that is `limit` octets on. -/
def readUpTo (limit place : Nat) : (start : Octets) → Octets → Expansion
  | start, [] => ⟨start, none⟩
  | start, b :: s =>
    if b = 0 then
      match s with
      | [] => ⟨start, some .unfinishedRun⟩
      | n :: s =>
        if n = 0 then ⟨start, some .emptyRun⟩
        else if place < start.length + n.toNat then ⟨start, some (.tooLong limit)⟩
        else readUpTo limit place (start ++ List.replicate n.toNat 0) s
    else if place ≤ start.length then ⟨start, some (.tooLong limit)⟩
    else readUpTo limit place (start ++ [b]) s

/-- Expands coded octets behind those that are there already, to at most `limit` octets more. -/
def read (start : Octets) (limit : Nat) (s : Octets) : Except Fault Expansion := do
  let place ← within64 (start.length + limit)
  return readUpTo limit place start s

end ZeroRuns

end DatagramCircuits
