import DatagramCircuits.Fault
/-!
# Octets

What travels in a datagram is a list of octets. This module holds the fixed-width numbers written
in it, most or least significant octet first, the reading of a given number of octets from the
front, and the cutting of a list into consecutive pieces.

**Numbers are written modulo their width.** `bigEndian w n` keeps the lowest `w` octets of `n`, and
`ofBigEndian` reads any number of octets, so the two are inverse exactly below `256 ^ w`.

**Reading is a state monad over the octets that are left.** A reader that fails names how many
octets it wanted and how many there were.
-/

namespace DatagramCircuits

/-- A string of octets. -/
abbrev Octets := List UInt8

namespace Octets

/-! ### Fixed-width numbers -/

/-- The lowest `width` octets of a number, most significant first. -/
def bigEndian : (width : Nat) → Nat → Octets
  | 0, _ => []
  | w + 1, n => UInt8.ofNat (n / Nat.pow 256 w) :: bigEndian w n

/-- The lowest `width` octets of a number, least significant first. -/
def littleEndian (width n : Nat) : Octets :=
  (bigEndian width n).reverse

/-- The number written by the octets, most significant first. -/
def ofBigEndian (s : Octets) : Nat :=
  s.foldl (fun n b ↦ 256 * n + b.toNat) 0

/-- The number written by the octets, least significant first. -/
def ofLittleEndian (s : Octets) : Nat :=
  ofBigEndian s.reverse

/-- A count in a single octet. One that does not fit is a fault. -/
def countOctet (n : Nat) : Except Fault UInt8 :=
  if n < 256 then .ok (UInt8.ofNat n) else .error .countTooLarge

@[simp] theorem length_bigEndian (w n : Nat) : (bigEndian w n).length = w := by
  induction w with
  | zero => rfl
  | succ w ih => simp [bigEndian, ih]

@[simp] theorem length_littleEndian (w n : Nat) : (littleEndian w n).length = w := by
  simp [littleEndian]

/-! ### Reading from the front -/

/-- A read past the end: how many octets were wanted, and how many there were. -/
structure Underrun where
  /-- The number of octets to be read. -/
  requested : Nat
  /-- The number of octets left. -/
  available : Nat
deriving DecidableEq, Repr

/-- What the reader of a buffer says about reading past its end. -/
def Underrun.message (u : Underrun) : String :=
  s!"Not enough bytes remaining in buffer to read value (requested {u.requested} but only {u.available} available)"

/-- A reader consumes octets from the front, or fails. -/
abbrev Reader (ε : Type) := StateT Octets (Except ε)

/-- Reads exactly `n` octets. -/
def exactly (n : Nat) : Reader Underrun Octets := fun s ↦
  if s.length < n then .error ⟨n, s.length⟩ else .ok (s.take n, s.drop n)

/-- Reads a number of `width` octets, most significant first. -/
def readBig (width : Nat) : Reader Underrun Nat :=
  ofBigEndian <$> exactly width

/-- Reads a number of `width` octets, least significant first. -/
def readLittle (width : Nat) : Reader Underrun Nat :=
  ofLittleEndian <$> exactly width

/-- A reader whose failures are embedded in a larger error type. -/
def Reader.withError {ε ε' α : Type} (f : ε → ε') (r : Reader ε α) : Reader ε' α := fun s ↦
  (r s).mapError f

/-! ### Pieces -/

variable {α : Type}

/-- How many pieces of `size` elements cover `length` elements, the last one possibly shorter. -/
def pieceCount (size length : Nat) : Nat :=
  (length + size - 1) / size

/-- The list cut into `count` consecutive pieces of `size` elements. -/
def cut (size count : Nat) (l : List α) : List (List α) :=
  (List.range count).map fun i ↦ (l.drop (i * size)).take size

/-- The list cut into consecutive pieces of `size` elements; the last one may be shorter, and
nothing is cut from an empty list. -/
def pieces (size : Nat) (l : List α) : List (List α) :=
  cut size (pieceCount size l.length) l

@[simp] theorem length_cut (size count : Nat) (l : List α) : (cut size count l).length = count := by
  simp [cut]

end Octets

end DatagramCircuits
