import DatagramCircuits.Proofs.Fairness
/-!
# What a circuit counts

Each operation adds to the counters of a circuit what it answers (`counters_of_apply`): the datagrams it
puts out are counted as sent, and those out of the lane of resent datagrams as sent again as well. **The
answer to a ping is not counted** (`Answer.counted`). The counters have 64 bits.

A tick counts once, at its end. Whatever shows neither queues nor the numbering nor the account is left
alone by the round before that (`Untouched.of_tick`), so this is also where it is said what becomes of the
outstanding ping.
-/

namespace DatagramCircuits

namespace Circuit

variable {β : Type} {view : Circuit → β} {c c' : Circuit} {now : Instant} {f f' : Forest} {t t' : Turn}

/-- The counters of datagrams sent, and of those sent again. -/
def counters (c : Circuit) : UInt64 × UInt64 :=
  (c.sent, c.resent)

/-- The datagrams of an answer that the circuit counts as sent: all of them, but for the answer to a
ping. -/
def Answer.counted : Answer → List Octets
  | answered _ => []
  | a => a.datagrams

/-- How many datagrams of an answer the circuit counts as sent again. -/
def Answer.resent : Answer → Nat
  | ticked output => output.resent
  | _ => 0

/-- The counters with what an answer adds to them. -/
def counting (r : UInt64 × UInt64) (a : Answer) : UInt64 × UInt64 :=
  (r.1 + UInt64.ofNat a.counted.length, r.2 + UInt64.ofNat a.resent)

/-- An answer in which nothing is counted adds nothing. -/
theorem counting_eq_self {a : Answer} (hcounted : a.counted = []) (hresent : a.resent = 0)
    (r : UInt64 × UInt64) : counting r a = r := by
  rw [counting, hcounted, hresent]
  exact Prod.ext (UInt64.add_zero _) (UInt64.add_zero _)

theorem untouched_counters : Untouched counters :=
  ⟨fun _ _ ↦ rfl, fun _ _ ↦ rfl, fun _ _ ↦ rfl⟩

/-! ### The round of a tick -/

theorem Untouched.of_serveLane (hview : Untouched view) {lane : Lane} {d : Option Octets}
    (h : t.serveLane lane now = .ok (d, t')) : view t'.circuit = view t.circuit := by
  obtain ⟨q, -, -, rfl⟩ | ⟨p, q, forest, -, -, -, rfl⟩ |
    ⟨p, q, forest, datagram, circuit, -, -, hsent, -, rfl⟩ := Turn.serveLane_eq_ok h
  · exact hview.queues t.circuit _
  · exact hview.queues t.circuit _
  · exact (hview.transmit hsent).trans (hview.queues t.circuit _)

/-- All states of a tick show the same once its round has begun. -/
theorem Untouched.comesTo (hview : Untouched view) (now : Instant) (t : Turn) :
    Turn.ComesTo (fun t' ↦ view t'.circuit = view t.circuit) now (t.serveLanes now) :=
  Turn.comesTo_serveLanes (fun _ _ h ↦ h) (fun h hlane ↦ (hview.of_serveLane hlane).trans h) rfl

/-- **The round of a tick** leaves the view alone; what is done after it is counting. -/
theorem Untouched.of_tick (hview : Untouched view) (h : c.tick now f = .ok t)
    (hopen : c.isClosed = false) :
    ∃ t' : Turn, t = t'.count ∧ view t'.circuit = view (c.prepared now f).circuit := by
  obtain ⟨hclosed, -⟩ | ⟨-, t₁, hlanes, rfl⟩ := tick_eq_ok h
  · simp [hopen] at hclosed
  · have hround := hview.comesTo now (c.prepared now f)
    rw [prepared, Turn.upkeep, hlanes] at hround
    exact ⟨t₁, rfl, hround⟩

/-! ### Before the round -/

theorem counters_nextPingDatagram (now : Instant) (c : Circuit) :
    (c.nextPingDatagram now).2.counters = c.counters := by
  rw [nextPingDatagram]
  split <;> rfl

/-- What is done before the round is not counted yet. -/
theorem counters_prepared (now : Instant) (c : Circuit) (f : Forest) :
    (c.prepared now f).circuit.counters = c.counters := by
  have hresends : (Turn.checkResends now { circuit := c, forest := f }).circuit.counters =
      c.counters := by
    rw [Turn.checkResends]
    dsimp only
    split
    · rfl
    · exact (untouched_counters.collectExpired now _).trans (untouched_counters.dropOutdated now _)
  have hacks : ∀ t : Turn, (t.checkAcks now).circuit.counters = t.circuit.counters := fun t ↦ by
    unfold Turn.checkAcks
    dsimp only
    split <;> rfl
  have hping : ∀ t : Turn, (t.checkPing now).circuit.counters = t.circuit.counters := fun t ↦ by
    rw [Turn.checkPing]
    dsimp only
    split
    · rfl
    · exact counters_nextPingDatagram now _
  rw [prepared, Turn.upkeep, hping, hacks, hresends]

/-! ### Operations -/

/-- **A tick** counts what it puts out. -/
theorem counters_of_tick (h : c.tick now f = .ok t) :
    t.circuit.counters = counting c.counters (.ticked t.output) := by
  cases hclosed : c.isClosed with
  | true =>
    rw [tick_of_isClosed h hclosed, counting_eq_self rfl rfl]
  | false =>
    obtain ⟨t', rfl, hsame⟩ := untouched_counters.of_tick h hclosed
    have hcounters := hsame.trans (counters_prepared now c f)
    rw [← hcounters]
    rfl

/-- A tick that ends with a fault counts nothing. -/
theorem counters_of_tick_error {fault : Fault} (h : c.tick now f = .error (fault, t)) :
    t.circuit.counters = c.counters := by
  have hround := untouched_counters.comesTo now (c.prepared now f)
  have hlanes : (c.prepared now f).serveLanes now = .error (fault, t) := (tick_eq_error h).2
  rw [hlanes] at hround
  obtain ⟨u, lane, hu, hlane⟩ := hround
  obtain ⟨p, q, forest, -, -, -, rfl⟩ := Turn.serveLane_eq_error hlane
  exact (untouched_counters.spoiled p _).trans (hu.trans (counters_prepared now c f))

theorem counters_receive (p : Packet) (length : Nat) (now : Instant) (c : Circuit) :
    (c.receive p length now).2.counters = c.counters := by
  rw [receive]
  split
  · rfl
  split
  · rw [receiveReliable]
    split
    · rfl
    · dsimp only
      split <;> rfl
  · rfl

/-- **Every operation counts what it answers.** -/
theorem counters_of_apply {o : Operation} {answer : Answer}
    (h : c.apply o f = .ok (answer, c', f')) : c'.counters = counting c.counters answer := by
  -- what is counted shows in the answer, and the answers of most operations count nothing
  cases o with
  | send category m reliable notify =>
    cases h
    cases hs : c.send category m reliable notify with
    | error e => exact (counting_eq_self rfl rfl _).symm
    | ok next =>
      obtain ⟨queues, rfl⟩ := exists_queues_of_send hs
      exact (counting_eq_self rfl rfl _).symm
  | enqueue p =>
    cases h
    rw [enqueue]
    split
    · exact (counting_eq_self rfl rfl _).symm
    · split <;> exact (counting_eq_self rfl rfl _).symm
  | tick now =>
    obtain ⟨t, ht, rfl, rfl, rfl⟩ := eq_of_apply_tick h
    exact counters_of_tick ht
  | receive p length now =>
    obtain ⟨disposition, -, h⟩ := bind_eq_ok_iff.1 h
    cases h
    exact (counters_receive p length now c).trans (counting_eq_self rfl rfl _).symm
  | flushAcks =>
    cases h
    exact Prod.ext rfl (UInt64.add_zero _).symm
  | ping now =>
    cases h
    have hnext := counters_nextPingDatagram now c
    rw [ping]
    split <;> rename_i heq <;> rw [heq] at hnext
    · rw [← hnext]
      exact Prod.ext rfl (UInt64.add_zero _).symm
    · exact hnext.trans (counting_eq_self rfl rfl _).symm
  | answerPing id =>
    rw [eq_of_apply_answerPing h]
    simp only [apply] at h
    split at h <;> cases h <;> exact (counting_eq_self rfl rfl _).symm
  | takePong id now =>
    cases h
    rw [takePong]
    split
    · split <;> exact (counting_eq_self rfl rfl _).symm
    · exact (counting_eq_self rfl rfl _).symm
  | renegotiate requested now =>
    obtain ⟨⟨adjustment, forest⟩, -, h⟩ := bind_eq_ok_iff.1 h
    cases h
    exact (counting_eq_self rfl rfl _).symm
  | connect | pause | resume =>
    cases h
    simp only [connect, pause, resume, transition]
    split <;> exact (counting_eq_self rfl rfl _).symm
  | close =>
    rw [apply_close] at h
    obtain ⟨hanswer, hrest⟩ := Prod.mk.inj (Except.ok.inj h)
    rw [← hanswer, ← (Prod.mk.inj hrest).1, close]
    split <;> exact (counting_eq_self rfl rfl _).symm
  | beginQueueEmpty now =>
    cases h
    unfold beginQueueEmpty
    dsimp only
    split <;> exact (counting_eq_self rfl rfl _).symm
  | acknowledge | endQueueEmpty =>
    cases h
    exact (counting_eq_self rfl rfl _).symm

/-- Only a tick counts anything as sent again. -/
theorem resent_eq_zero_of_apply {o : Operation} {answer : Answer} (ho : ∀ now, o ≠ .tick now)
    (h : c.apply o f = .ok (answer, c', f')) : answer.resent = 0 := by
  cases answer with
  | ticked output =>
    have hkind := kind_of_apply h
    cases o <;> first | exact absurd rfl (ho _) | exact hkind.elim
  | _ => rfl

/-! ### Lives -/

/-- **A chronicle** counts all its answers. -/
theorem counters_of_chronicle {ops : List (Operation × Forest)} {moments : List Moment}
    (h : chronicle ops c = .ok (moments, c')) :
    c'.counters = (moments.map Moment.answer).foldl counting c.counters := by
  induction ops generalizing c moments with
  | nil =>
    obtain ⟨rfl, rfl⟩ := Prod.mk.inj (Except.ok.inj h)
    rfl
  | cons o ops ih =>
    obtain ⟨answer, next, forest, moments', ho, hrest, rfl⟩ := chronicle_cons_eq_ok h
    rw [ih hrest, counters_of_apply ho]
    rfl

/-- A new circuit has counted nothing. -/
theorem counters_of_opened {session : Session} {address : Address} {config : Config} {root : BucketId}
    (h : opened session address config root now f = .ok (c, f')) : c.counters = (0, 0) := by
  obtain ⟨allowance, -, hbegun⟩ := opened_eq_ok_iff.1 h
  obtain ⟨roundTrip, tracker, -, -, rfl⟩ := begun_eq_ok hbegun
  rfl

/-- Counting one answer after another is adding up what all of them have. -/
theorem foldl_counting (answers : List Answer) (r : UInt64 × UInt64) :
    answers.foldl counting r = (r.1 + UInt64.ofNat (answers.flatMap Answer.counted).length,
      r.2 + UInt64.ofNat (answers.map Answer.resent).sum) := by
  induction answers generalizing r with
  | nil => exact Prod.ext (UInt64.add_zero _).symm (UInt64.add_zero _).symm
  | cons a answers ih =>
    rw [List.foldl_cons, ih, List.flatMap_cons, List.length_append, List.map_cons, List.sum_cons,
      UInt64.ofNat_add, UInt64.ofNat_add, ← UInt64.add_assoc, ← UInt64.add_assoc]
    rfl

end Circuit

end DatagramCircuits
