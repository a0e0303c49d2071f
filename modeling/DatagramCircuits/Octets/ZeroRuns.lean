import DatagramCircuits.Fault
import DatagramCircuits.Octets.Basic
/-!
# Runs of zeros

A compact form for octets with many zeros: a run of 1 to 255 zeros is written as a zero followed by
the length of the run, and every other octet stands for itself. A longer run is written as several
full runs of 255 followed by what is left.

**The written length is computed without writing.** `encodedLength` counts two octets per started
run of 255 zeros; a sender compares it with the plain length to decide whether coding pays.

**Reading is bounded by what it may produce.** `decode` takes the room that is left for its output
and stops at the first token that is incomplete, empty or too long. What was produced before that
is kept, so an `Expansion` holds octets in any case.
-/

namespace DatagramCircuits

namespace ZeroRuns

/-- The longest run that a single length octet can name. -/
def maxRun : Nat := 255

/-- A run of `n` zeros, written as full runs followed by the rest. -/
def writeRun (n : Nat) : Octets :=
  (List.replicate (n / maxRun) [0, 255]).flatten ++
    if n % maxRun = 0 then [] else [0, UInt8.ofNat (n % maxRun)]

/-- The coded form of the octets that follow `run` zeros, together with these zeros. -/
def encodeAfter (run : Nat) : Octets → Octets
  | [] => writeRun run
  | b :: s => if b = 0 then encodeAfter (run + 1) s else writeRun run ++ b :: encodeAfter 0 s

/-- The coded form. -/
def encode (s : Octets) : Octets :=
  encodeAfter 0 s

/-- The length of the coded form of the octets that follow `run` zeros, with these zeros. -/
def encodedLengthAfter (run : Nat) : Octets → Nat
  | [] => 2 * Octets.pieceCount maxRun run
  | b :: s =>
    if b = 0 then encodedLengthAfter (run + 1) s
    else 2 * Octets.pieceCount maxRun run + 1 + encodedLengthAfter 0 s

/-- The length of the coded form, found without writing it. -/
def encodedLength (s : Octets) : Nat :=
  encodedLengthAfter 0 s

/-- Why coded octets are refused. -/
inductive Error where
  /-- A run of no zeros. -/
  | emptyRun
  /-- The octets end where the length of a run is due. -/
  | unfinishedRun
  /-- The output would exceed the given number of octets. -/
  | tooLong (limit : Nat)
deriving DecidableEq, Repr

/-- The wording of a refusal. -/
def Error.message : Error → String
  | .emptyRun => "zero-coded run with count 0"
  | .unfinishedRun => "zero-coded data ends in the middle of a run"
  | .tooLong limit => s!"zero-coded data expands beyond {limit} bytes"

/-- What reading produced, and why it stopped early, if it did. -/
structure Expansion where
  /-- The octets produced. -/
  octets : Octets
  /-- The reason to stop before the end. -/
  stopped : Option Error
deriving DecidableEq, Repr

/-- The expansion with octets put in front. -/
def Expansion.prepend (s : Octets) (e : Expansion) : Expansion :=
  { e with octets := s ++ e.octets }

/-- Expands coded octets while `room` octets may still be produced, out of `limit` in all. -/
def decodeWithin (limit : Nat) : (room : Nat) → Octets → Expansion
  | _, [] => ⟨[], none⟩
  | room, b :: s =>
    if b = 0 then
      match s with
      | [] => ⟨[], some .unfinishedRun⟩
      | n :: s =>
        if n = 0 then ⟨[], some .emptyRun⟩
        else if room < n.toNat then ⟨[], some (.tooLong limit)⟩
        else (decodeWithin limit (room - n.toNat) s).prepend (List.replicate n.toNat 0)
    else
      match room with
      | 0 => ⟨[], some (.tooLong limit)⟩
      | room + 1 => (decodeWithin limit room s).prepend [b]

/-- Expands coded octets to at most `limit` octets. -/
def decode (limit : Nat) (s : Octets) : Expansion :=
  decodeWithin limit limit s

/-- Expands coded octets behind those that are there already, to at most `limit` octets more. The
limit is kept as a position, which has to fit into 64 bits. -/
def append (start : Octets) (limit : Nat) (s : Octets) : Except Fault Expansion := do
  let _ ← within64 (start.length + limit)
  return (decode limit s).prepend start

end ZeroRuns

end DatagramCircuits
