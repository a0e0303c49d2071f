import DatagramCircuits.Traffic.Allowance
/-!
# Operations on a forest

All that can be done with the buckets of a forest, as data. `Forest.apply` is the forest after an
operation, and `Forest.run` that after a history of operations, so that statements can be made about
every forest there can be.

**A bucket draws from a bucket that is there.** Whoever adds one has its parent in hand; an operation
that names no bucket of the forest as the parent adds nothing.

Allowances are handled by such operations as well: the operations of `Allowance.renegotiating` and
`Allowance.detaching` are what comes of a negotiation and of the end of a circuit.
-/

namespace DatagramCircuits

namespace Forest

/-- Something that is done with the buckets of a forest. -/
inductive Operation where
  /-- Add a bucket that draws from no other. -/
  | addRoot (rate burst : UInt64) (now : Instant)
  /-- Add a bucket that draws from another one. -/
  | addChild (parent : BucketId) (rate burst : UInt64) (now : Instant)
  /-- Take octets, if all that the bucket draws from can afford them. -/
  | withdraw (id : BucketId) (n : Nat) (now : Instant)
  /-- Ask for the level. -/
  | level (id : BucketId) (now : Instant)
  /-- Give a bucket another rate and another burst. -/
  | setRate (id : BucketId) (rate burst : UInt64) (now : Instant)
  /-- Detach a bucket for good. -/
  | detach (id : BucketId)
deriving DecidableEq, Repr

/-- The bucket that an operation is done with; a root is added without one. -/
def Operation.subject? : Operation → Option BucketId
  | addRoot .. => none
  | addChild parent .. => some parent
  | withdraw id .. => some id
  | level id _ => some id
  | setRate id .. => some id
  | detach id => some id

/-- The forest after an operation. -/
def apply (f : Forest) : Operation → Forest
  | .addRoot rate burst now => (f.addRoot rate burst now).2
  | .addChild parent rate burst now =>
    if (f.get? parent).isSome then (f.addChild parent rate burst now).2 else f
  | .withdraw id n now => (f.withdraw id n now).2
  | .level id now => (f.level id now).2
  | .setRate id rate burst now => f.setRate id rate burst now
  | .detach id => f.detach id

/-- The forest after one operation after another. -/
def run (ops : List Operation) (f : Forest) : Forest :=
  ops.foldl apply f

@[simp] theorem run_nil (f : Forest) : run [] f = f := rfl

@[simp] theorem run_cons (o : Operation) (ops : List Operation) (f : Forest) :
    run (o :: ops) f = run ops (f.apply o) :=
  rfl

theorem run_append (l₁ l₂ : List Operation) (f : Forest) :
    run (l₁ ++ l₂) f = run l₂ (run l₁ f) :=
  List.foldl_append

end Forest

namespace Allowance

/-- What is done with the lanes to give them their rates. -/
def renegotiating (a : Allowance) (granted : Rates) (now : Instant) : List Forest.Operation :=
  Lane.all.map fun lane ↦ .setRate (a.lanes.get lane) (granted.get lane)
    (burstCapacity a.burstTime a.mtu (granted.get lane)) now

/-- What is done to give the allowance back. -/
def detaching (a : Allowance) : List Forest.Operation :=
  a.lanes.toList.map .detach ++ [.detach a.total]

theorem run_detaching (a : Allowance) (f : Forest) : f.run a.detaching = a.detach f := by
  rw [detaching, Forest.run_append, Forest.run_cons, Forest.run_nil, Forest.run, List.foldl_map]
  rfl

theorem eq_run_of_renegotiate {a : Allowance} {warnings : Bool} {requested : Rates} {now : Instant}
    {f f' : Forest} {adjustment : Adjustment}
    (h : a.renegotiate warnings requested now f = .ok (adjustment, f')) :
    Rates.negotiate a.limit requested = .ok adjustment ∧
      f' = f.run (a.renegotiating adjustment.applied now) := by
  obtain ⟨granted, hgranted, h⟩ := bind_eq_ok_iff.1 h
  obtain ⟨-, -, h⟩ := bind_eq_ok_iff.1 h
  obtain ⟨rfl, rfl⟩ := Prod.mk.inj (Except.ok.inj h)
  exact ⟨hgranted, rfl⟩

end Allowance

end DatagramCircuits
