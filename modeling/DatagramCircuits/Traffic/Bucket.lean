import DatagramCircuits.Span
/-!
# Buckets of allowance

A bucket holds an allowance of octets. It fills up at its rate to at most its burst, and sending
takes from it. Filling is lazy: an operation at some instant first accounts for the time that went by
since the previous one. A rate of zero makes a bucket **unlimited**: its level is infinite and nothing
is ever taken from it.

**Buckets form a forest, and what is taken from one is taken from all its ancestors as well.**
`Forest.withdraw` takes all or nothing: it first goes along the line of the bucket up to its root and
looks whether everyone is attached and can afford the octets, and only then takes them.

**A bucket knows what it has promised to its children.** `committed` is the sum of the rates of the
attached children, modulo 64 bits; adding a child, changing its rate and detaching it keep account.
Detaching is final: nothing can be taken from a detached bucket or through it.
-/

namespace DatagramCircuits

/-- The position of a bucket in its forest. -/
abbrev BucketId := Nat

/-- An allowance that fills up over time. -/
structure Bucket where
  /-- The buckets it draws from, nearest first. -/
  ancestors : List BucketId
  /-- Octets per second; zero stands for no limit at all. -/
  rate : UInt64
  /-- The largest level. -/
  burst : UInt64
  /-- The octets available at the instant of the last refill. -/
  level : Float
  /-- The instant of the last refill. -/
  refilled : Instant
  /-- The sum of the rates of the attached children. -/
  committed : UInt64 := 0
  /-- Whether the bucket can still be drawn from. -/
  attached : Bool := true
deriving DecidableEq, Repr

namespace Bucket

/-- A full bucket. -/
def full (ancestors : List BucketId) (rate burst : UInt64) (now : Instant) : Bucket where
  ancestors := ancestors
  rate := rate
  burst := burst
  level := burst.toFloat
  refilled := now

/-- Whether the bucket never runs dry. -/
def isUnlimited (b : Bucket) : Bool :=
  b.rate == 0

/-- The level of an unlimited bucket. -/
def boundless : Float := 1.0 / 0.0

/-- The bucket with everything accounted for that dripped in until `now`. A clock that does not
advance changes nothing. -/
def refill (now : Instant) (b : Bucket) : Bucket :=
  if now ≤ b.refilled then b
  else
    let dripped := Span.seconds (now - b.refilled) * b.rate.toFloat
    { b with level := min (b.level + dripped) b.burst.toFloat, refilled := now }

/-- The bucket as the account of `now` shows it; an unlimited one needs no account. -/
def observe (now : Instant) (b : Bucket) : Bucket :=
  if b.isUnlimited then b else b.refill now

/-- What can be taken from the bucket as it is. -/
def available (b : Bucket) : Float :=
  if b.isUnlimited then boundless else b.level

/-- Whether `n` octets can be taken from the bucket as it is. -/
def affords (n : Nat) (b : Bucket) : Bool :=
  b.isUnlimited || !decide (b.level < Float.ofNat n)

/-- The bucket without `n` of its octets. -/
def charge (n : Nat) (b : Bucket) : Bucket :=
  if b.isUnlimited then b else { b with level := b.level - Float.ofNat n }

/-- The bucket with another rate and another burst from now on, and no more in it than the new burst
allows. -/
def setRate (rate burst : UInt64) (now : Instant) (b : Bucket) : Bucket :=
  let b := b.refill now
  { b with rate, burst, level := min b.level burst.toFloat }

@[simp] theorem refill_self (b : Bucket) : b.refill b.refilled = b := by
  simp [refill]

theorem refilled_refill (now : Instant) (b : Bucket) :
    (b.refill now).refilled = max now b.refilled := by
  unfold refill
  split
  · exact (Nat.max_eq_right ‹_›).symm
  · exact (Nat.max_eq_left (Nat.le_of_not_le ‹_›)).symm

/-- A second account of the same instant finds nothing to add. -/
@[simp] theorem refill_refill (now : Instant) (b : Bucket) :
    (b.refill now).refill now = b.refill now := by
  have h := refilled_refill now b
  generalize b.refill now = c at h
  rw [refill, h, if_pos (Nat.le_max_left ..)]

@[simp] theorem isUnlimited_refill (now : Instant) (b : Bucket) :
    (b.refill now).isUnlimited = b.isUnlimited := by
  unfold refill
  split <;> rfl

@[simp] theorem observe_observe (now : Instant) (b : Bucket) :
    (b.observe now).observe now = b.observe now := by
  by_cases h : b.isUnlimited <;> simp [observe, h]

end Bucket

/-- Buckets that draw from one another. -/
structure Forest where
  /-- The buckets, in the order in which they were added. -/
  buckets : List Bucket := []
deriving DecidableEq, Repr

namespace Forest

/-- The bucket at a position. -/
def get? (f : Forest) (id : BucketId) : Option Bucket :=
  f.buckets[id]?

/-- The forest with one bucket changed. -/
def modify (f : Forest) (id : BucketId) (change : Bucket → Bucket) : Forest where
  buckets := f.buckets.modify id change

/-- The forest with some buckets changed, one after the other. -/
def modifyAll (f : Forest) (ids : List BucketId) (change : Bucket → Bucket) : Forest :=
  ids.foldl (·.modify · change) f

/-- The bucket and all that it draws from, up to the root. -/
def line (f : Forest) (id : BucketId) : List BucketId :=
  id :: ((f.get? id).map Bucket.ancestors).getD []

/-- The bucket that a bucket draws from. -/
def parent? (f : Forest) (id : BucketId) : Option BucketId :=
  (f.get? id).bind (·.ancestors.head?)

/-- The forest with another amount promised by a bucket, if there is one. -/
def recommit (f : Forest) (id : Option BucketId) (change : UInt64 → UInt64) : Forest :=
  match id with
  | some id => f.modify id fun b ↦ { b with committed := change b.committed }
  | none => f

/-- Adds a bucket that draws from no other. -/
def addRoot (f : Forest) (rate burst : UInt64) (now : Instant) : BucketId × Forest :=
  (f.buckets.length, ⟨f.buckets ++ [Bucket.full [] rate burst now]⟩)

/-- Adds a bucket that draws from `parent`. -/
def addChild (f : Forest) (parent : BucketId) (rate burst : UInt64) (now : Instant) :
    BucketId × Forest :=
  let child := Bucket.full (f.line parent) rate burst now
  let f := f.recommit (some parent) (· + rate)
  (f.buckets.length, ⟨f.buckets ++ [child]⟩)

/-! ### Taking -/

/-- Whether all buckets of a line can afford `n` octets. Each bucket that is asked is accounted for,
and the first one that can not afford them ends the question. -/
def approve (n : Nat) (now : Instant) : List BucketId → Forest → Bool × Forest
  | [], f => (true, f)
  | id :: rest, f =>
    match f.get? id with
    | none => (false, f)
    | some b =>
      if !b.attached then (false, f)
      else
        let b := b.observe now
        let f := f.modify id fun _ ↦ b
        if b.affords n then approve n now rest f else (false, f)

/-- Takes `n` octets from the bucket and from all that it draws from, if everyone can afford them. -/
def withdraw (f : Forest) (id : BucketId) (n : Nat) (now : Instant) : Bool × Forest :=
  match approve n now (f.line id) f with
  | (true, f) => (true, f.modifyAll (f.line id) (Bucket.charge n))
  | (false, f) => (false, f)

/-- The octets available in the bucket at the given instant, whatever it draws from. -/
def level (f : Forest) (id : BucketId) (now : Instant) : Option Float × Forest :=
  let f := f.modify id (Bucket.observe now)
  ((f.get? id).map Bucket.available, f)

/-! ### Changing -/

/-- Gives a bucket another rate and another burst. -/
def setRate (f : Forest) (id : BucketId) (rate burst : UInt64) (now : Instant) : Forest :=
  match f.get? id with
  | none => f
  | some b =>
    let f := if b.attached then f.recommit (f.parent? id) (· + rate - b.rate) else f
    f.modify id (Bucket.setRate rate burst now)

/-- Detaches a bucket for good. Another attempt has no effect. -/
def detach (f : Forest) (id : BucketId) : Forest :=
  match f.get? id with
  | none => f
  | some b =>
    if b.attached then
      (f.recommit (f.parent? id) (· - b.rate)).modify id fun b ↦ { b with attached := false }
    else f

@[simp] theorem get?_modify (f : Forest) (i j : BucketId) (change : Bucket → Bucket) :
    (f.modify i change).get? j = if i = j then (f.get? j).map change else f.get? j := by
  simp only [get?, modify, List.getElem?_modify]
  split <;> simp

@[simp] theorem length_modify (f : Forest) (i : BucketId) (change : Bucket → Bucket) :
    (f.modify i change).buckets.length = f.buckets.length := by
  simp [modify]

end Forest

end DatagramCircuits
