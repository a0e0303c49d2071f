/-!
# Who takes part

Agents and sessions are named by 128-bit identifiers, written in five groups of hexadecimal digits
when a person is to read them. Remote ends are named by an address: a host of four octets, and the
number of a socket on it.
-/

namespace DatagramCircuits

/-- A 128-bit identifier. -/
structure Uuid where
  /-- The bits, as they travel: most significant first. -/
  bits : BitVec 128
deriving DecidableEq, Repr, Hashable

namespace Uuid

/-- The identifier with the given number, modulo its width. -/
def ofNat (n : Nat) : Uuid :=
  ⟨BitVec.ofNat 128 n⟩

/-- The number of the identifier. -/
def toNat (u : Uuid) : Nat :=
  u.bits.toNat

/-- The last `width` hexadecimal digits of a number, with leading zeros. -/
def hexDigits : (width : Nat) → Nat → List Char
  | 0, _ => []
  | w + 1, n => hexDigits w (n / 16) ++ [Nat.digitChar (n % 16)]

/-- The digits in one row. -/
def compact (u : Uuid) : String :=
  String.ofList (hexDigits 32 u.toNat)

/-- The digits in groups of 8, 4, 4, 4 and 12. -/
def text (u : Uuid) : String :=
  let digits := hexDigits 32 u.toNat
  let group (start length : Nat) := String.ofList ((digits.drop start).take length)
  "-".intercalate [group 0 8, group 8 4, group 12 4, group 16 4, group 20 12]

end Uuid

/-- The address of a remote end. -/
structure Address where
  /-- The host, as four octets in reading order. -/
  host : UInt8 × UInt8 × UInt8 × UInt8
  /-- The number of the socket on the host. -/
  socket : UInt16
deriving DecidableEq, Repr

namespace Address

/-- The address as one number, which spreads addresses over shards. -/
def toNat (a : Address) : Nat :=
  let (w, x, y, z) := a.host
  (((w.toNat * 256 + x.toNat) * 256 + y.toNat) * 256 + z.toNat) * 65536 + a.socket.toNat

instance : Hashable Address where
  hash a := UInt64.ofNat a.toNat

/-- The address of a socket on the host itself. -/
def loopback (socket : UInt16) : Address where
  host := (127, 0, 0, 1)
  socket := socket

/-- The address as text. -/
def text (a : Address) : String :=
  let (w, x, y, z) := a.host
  s!"{w}.{x}.{y}.{z}:{a.socket}"

end Address

end DatagramCircuits
