import DatagramCircuits.Circuit.Operation
/-!
# Neighbours

Several circuits below the same bucket, and what is done with them, one after another and in any order:
circuits are opened, operations are done with them, and they are asked for their figures. Each deed has
one reply, from the circuit that it was done with.

**Circuits have numbers,** in the order in which they are opened. A circuit that can not be opened takes a
number as well.

**A fault ends a deed,** and not the circuit: what it leaves behind is there for later deeds
(`Circuit.afterFault`). A circuit that can not be opened is not there at all, but the buckets that were set
up for it stay as they are.
-/

namespace DatagramCircuits

namespace Circuit

/-- Something that a circuit is asked, without any effect. -/
inductive Inquiry where
  /-- What the figures are. -/
  | summary
  /-- What the rates are, in packed form and times a multiplier. -/
  | packedRates (multiplier : UInt32)
  /-- How long the peer may be silent. -/
  | livenessTimeout
  /-- Whether the peer is silent for too long. -/
  | timedOut (now : Instant)
  /-- Whether a notice of empty queues is under way. -/
  | queueEmptyBusy
deriving DecidableEq, Repr

/-- What an inquiry finds. -/
inductive Finding where
  /-- The figures. -/
  | summary (s : Summary)
  /-- The packed form of the rates. -/
  | packedRates (octets : Octets)
  /-- How long the peer may be silent. -/
  | livenessTimeout (span : Span)
  /-- Whether it is so. -/
  | holds (b : Bool)
deriving DecidableEq, Repr

/-- Looks for what is asked. -/
def find (q : Inquiry) (c : Circuit) (f : Forest) : Finding :=
  match q with
  | .summary => .summary (c.summary f)
  | .packedRates multiplier => .packedRates ((c.rates f).pack multiplier)
  | .livenessTimeout => .livenessTimeout c.livenessTimeout
  | .timedOut now => .holds (c.isTimedOut now)
  | .queueEmptyBusy => .holds c.queueEmptyBusy

end Circuit

/-- Circuits below the same bucket. -/
structure Neighbours where
  /-- The bucket that they draw from. -/
  root : BucketId
  /-- All buckets. -/
  forest : Forest
  /-- The circuits, in the order in which they were opened, as far as they could be. -/
  circuits : List (Option Circuit) := []

namespace Neighbours

/-- Something that is done with one of the circuits, or to have one more. -/
inductive Deed where
  /-- A circuit is opened. -/
  | opening (session : Session) (address : Address) (config : Config) (now : Instant)
  /-- An operation is done with the circuit of the given number. -/
  | work (k : Nat) (o : Circuit.Operation)
  /-- The circuit of the given number is asked something. -/
  | asking (k : Nat) (q : Circuit.Inquiry)

/-- The circuit that a deed is done with; one that is yet to be opened is none. -/
def Deed.subject? : Deed → Option Nat
  | opening .. => none
  | work k _ => some k
  | asking k _ => some k

/-- Whether the deed is of any concern to a circuit: it opens one, or is done with this one. -/
def Deed.concerns (k : Nat) (d : Deed) : Bool :=
  d.subject?.all (· == k)

/-- What comes back from a deed. -/
inductive Reply where
  /-- The circuit is open. -/
  | opened
  /-- The circuit met a fault. -/
  | failed (fault : Fault)
  /-- What the circuit answered. -/
  | answered (answer : Circuit.Answer)
  /-- What was found. -/
  | found (finding : Circuit.Finding)
  /-- There is no such circuit. -/
  | absent
deriving DecidableEq, Repr

/-- The circuit of the given number, if it is there. -/
def circuit? (s : Neighbours) (k : Nat) : Option Circuit :=
  s.circuits[k]?.join

/-- Opens a circuit. -/
def opening (session : Session) (address : Address) (config : Config) (now : Instant)
    (s : Neighbours) : Reply × Neighbours :=
  match Circuit.opened session address config s.root now s.forest with
  | .ok (c, forest) => (.opened, { s with forest, circuits := s.circuits ++ [some c] })
  | .error (fault, forest) => (.failed fault, { s with forest, circuits := s.circuits ++ [none] })

/-- Does an operation with a circuit. -/
def work (k : Nat) (o : Circuit.Operation) (s : Neighbours) : Reply × Neighbours :=
  match s.circuit? k with
  | none => (.absent, s)
  | some c =>
    match c.apply o s.forest with
    | .ok (answer, c, forest) =>
      (.answered answer, { s with forest, circuits := s.circuits.set k (some c) })
    | .error fault =>
      let (c, forest) := c.afterFault o s.forest
      (.failed fault, { s with forest, circuits := s.circuits.set k (some c) })

/-- Asks a circuit something. -/
def ask (k : Nat) (q : Circuit.Inquiry) (s : Neighbours) : Reply :=
  match s.circuit? k with
  | none => .absent
  | some c => .found (c.find q s.forest)

/-- Does something, and tells whose reply it is. -/
def step (s : Neighbours) : Deed → (Nat × Reply) × Neighbours
  | .opening session address config now =>
    let (reply, next) := s.opening session address config now
    ((s.circuits.length, reply), next)
  | .work k o =>
    let (reply, next) := s.work k o
    ((k, reply), next)
  | .asking k q => ((k, s.ask k q), s)

/-- Does one thing after another. -/
def run : List Deed → Neighbours → List (Nat × Reply)
  | [], _ => []
  | d :: rest, s => (s.step d).1 :: run rest (s.step d).2

/-- The replies of one circuit, in order. -/
def replies (k : Nat) (l : List Deed) (s : Neighbours) : List Reply :=
  (run l s).filterMap fun r ↦ if r.1 = k then some r.2 else none

variable {s : Neighbours} {k : Nat} {o : Circuit.Operation} {c : Circuit} {session : Session}
  {address : Address} {config : Config} {now : Instant}

/-- A circuit that can not be opened leaves its number and its buckets behind. -/
theorem opening_of_error {fault : Fault} {forest : Forest}
    (h : Circuit.opened session address config s.root now s.forest = .error (fault, forest)) :
    s.opening session address config now =
      (.failed fault, { s with forest, circuits := s.circuits ++ [none] }) := by
  rw [opening, h]

/-- A circuit that is opened has the next number. -/
theorem opening_of_ok {forest : Forest}
    (h : Circuit.opened session address config s.root now s.forest = .ok (c, forest)) :
    s.opening session address config now =
      (.opened, { s with forest, circuits := s.circuits ++ [some c] }) := by
  rw [opening, h]

theorem work_of_absent (hk : s.circuit? k = none) : s.work k o = (.absent, s) := by
  rw [work, hk]

/-- A deed that a fault ends leaves behind what the operation leaves behind. -/
theorem work_of_error {fault : Fault} (hk : s.circuit? k = some c)
    (h : c.apply o s.forest = .error fault) :
    s.work k o = (.failed fault, { s with
      forest := (c.afterFault o s.forest).2
      circuits := s.circuits.set k (some (c.afterFault o s.forest).1) }) := by
  rw [work, hk]
  dsimp only
  rw [h]

/-- A deed that is answered goes on with the circuit as it is then. -/
theorem work_of_ok {answer : Circuit.Answer} {c' : Circuit} {forest : Forest}
    (hk : s.circuit? k = some c) (h : c.apply o s.forest = .ok (answer, c', forest)) :
    s.work k o = (.answered answer, { s with forest, circuits := s.circuits.set k (some c') }) := by
  rw [work, hk]
  dsimp only
  rw [h]

theorem replies_cons (k : Nat) (d : Deed) (l : List Deed) (s : Neighbours) :
    replies k (d :: l) s =
      if (s.step d).1.1 = k then (s.step d).1.2 :: replies k l (s.step d).2
      else replies k l (s.step d).2 := by
  rw [replies, run, List.filterMap_cons]
  split <;> rename_i heq <;> split at heq <;> simp_all [replies]

end Neighbours

end DatagramCircuits
