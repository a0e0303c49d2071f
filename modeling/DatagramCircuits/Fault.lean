/-!
# Faults and refusals

A computation of this library may end without an answer in two ways, and they are kept apart.

* It **refuses** its input: the input is well understood and not acceptable. Each area has an error
  type of its own for that, with one constructor per cause and the wording in one function.
* It meets a **fault**: a number leaves the range it has to fit, or a position lies outside the
  octets at hand. Nothing can be said about the input then, and the task that met the fault ends.

`Failure ε` is the sum of the two, for computations that can do either.
-/

namespace DatagramCircuits

/-- Why a computation has no answer at all. -/
inductive Fault where
  /-- A sum or a product does not fit into 64 bits, or a retry count into 32. -/
  | overflow
  /-- A count does not fit into the single octet it has to be written to. -/
  | countTooLarge
  /-- A field lies outside the octets that it is to be read from or written to. -/
  | outOfRange
  /-- The lower bound of an interval lies above the upper one. -/
  | emptyInterval
  /-- A container is asked for without any room. -/
  | noCapacity
  /-- A queue is asked for with more places than can be numbered. -/
  | excessiveCapacity
  /-- A message expected in one datagram did not come out as exactly one. -/
  | notSingle
deriving DecidableEq, Repr

/-- The two ways to end without an answer: a fault, or a refusal with its cause. -/
inductive Failure (ε : Type) where
  /-- The computation left its range. -/
  | fault (f : Fault)
  /-- The input is refused. -/
  | refused (e : ε)
deriving DecidableEq, Repr

/-- The number itself, provided that it fits into 64 bits. -/
def within64 (n : Nat) : Except Fault Nat :=
  if n < UInt64.size then .ok n else .error .overflow

/-- A number is within 64 bits exactly if it is less than their size. -/
theorem within64_eq_ok_iff {n m : Nat} : within64 n = .ok m ↔ n < UInt64.size ∧ n = m := by
  simp only [within64]
  split <;> simp <;> omega

/-- A computation in two parts has an answer when the first part has one, and then the second. -/
theorem bind_eq_ok_iff {ε α β : Type} {x : Except ε α} {f : α → Except ε β} {b : β} :
    x >>= f = .ok b ↔ ∃ a, x = .ok a ∧ f a = .ok b := by
  cases x <;> simp [bind, Except.bind]

/-- A computation in two parts fails in the first part, or in the second one. -/
theorem bind_eq_error_iff {ε α β : Type} {x : Except ε α} {f : α → Except ε β} {e : ε} :
    x >>= f = .error e ↔ x = .error e ∨ ∃ a, x = .ok a ∧ f a = .error e := by
  cases x <;> simp [bind, Except.bind]

@[simp] theorem mapError_ok {ε ε' α : Type} (f : ε → ε') (a : α) :
    (Except.ok a : Except ε α).mapError f = .ok a :=
  rfl

@[simp] theorem mapError_error {ε ε' α : Type} (f : ε → ε') (e : ε) :
    (Except.error e : Except ε α).mapError f = .error (f e) :=
  rfl

/-- Another error makes no difference to what is fine. -/
theorem mapError_eq_ok_iff {ε ε' α : Type} {x : Except ε α} {f : ε → ε'} {a : α} :
    x.mapError f = .ok a ↔ x = .ok a := by
  cases x <;> simp

/-- A computation whose result passes a test has a result. -/
theorem exists_eq_ok_of_any {ε α : Type} {x : Except ε α} {p : α → Bool}
    (h : x.toOption.any p = true) : ∃ a, x = .ok a ∧ p a = true := by
  cases x with
  | error e => cases h
  | ok a => exact ⟨a, rfl, h⟩

/-- The largest number of places that a queue can have. -/
def maxCapacity : Nat := (UInt64.size - 1) / 8

/-- The number itself, provided that a queue can have so many places. -/
def withinCapacity (n : Nat) : Except Fault Nat :=
  if n ≤ maxCapacity then .ok n else .error .excessiveCapacity

/-- A computation that may meet a fault, among those that may also refuse. -/
def Failure.ofFault {ε α : Type} (x : Except Fault α) : Except (Failure ε) α :=
  x.mapError .fault

/-- A computation that may refuse, among those that may also meet a fault. -/
def Failure.ofRefusal {ε α : Type} (x : Except ε α) : Except (Failure ε) α :=
  x.mapError .refused

@[simp] theorem Failure.ofFault_ok {ε α : Type} (a : α) :
    (ofFault (.ok a) : Except (Failure ε) α) = .ok a :=
  rfl

/-- A computation that can only refuse meets no fault. -/
theorem Failure.ofRefusal_ne_fault {ε α : Type} (x : Except ε α) (f : Fault) :
    ofRefusal x ≠ .error (.fault f) := by
  cases x <;> simp [ofRefusal]

end DatagramCircuits
