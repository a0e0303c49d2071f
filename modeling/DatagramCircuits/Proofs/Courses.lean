import DatagramCircuits.Proofs.Books
import DatagramCircuits.Proofs.Origins
/-!
# Circuits that go on after faults

A fault ends what is being done with a circuit, and others go on with the circuit as it was left. What is
left is the work of moves (`courses_of_fault`), but for two things that no move does. A tick loses the
datagram that it can not send, and an arriving datagram is to be acknowledged without being accepted.

Neither of them spoils the books (`Coursed.books`). **A datagram that can not be sent was sent before,**
as a first transmission never fails, so no number is left out (`Books.lose`).
-/

namespace DatagramCircuits

namespace Circuit

variable {P : Message → Prop} {V W : UInt32 → Prop} {config : Config} {l k : List Event}
  {c c' : Circuit}

/-- A move, or what a fault leaves behind instead of one. Whatever number it takes in to be acknowledged
has the property `V`. -/
inductive Course (P : Message → Prop) (V : UInt32 → Prop) : Circuit → List Event → Circuit → Prop
  /-- A move. -/
  | move {c c' : Circuit} {k : List Event} (h : Move P c k c')
    (hk : ∀ {q flushAcks}, .arrived q (.accept flushAcks) ∈ k → q.isReliable = true →
      V q.header.sequence) : Course P V c k c'
  /-- The next datagram can not be sent. -/
  | lose {c : Circuit} {lane : Lane} {p : Outgoing} {q : LaneQueue} {now : Instant} {fault : Fault}
      (htake : (c.queues.get lane).take? c.isUseful = (some p, q))
      (hfault : { c with queues := c.queues.set lane q }.transmit p now = .error fault) :
    Course P V c [] ({ c with queues := c.queues.set lane q }.spoiled p)
  /-- A datagram is to be acknowledged, and it is not accepted. -/
  | owe (c : Circuit) {n : UInt32} (hn : V n) (bytes : Nat) {seen : SeenWindow}
      (hseen : seen = c.tracker.seen ∨ seen = (c.tracker.seen.offer n).2) :
    Course P V c []
      { c with
        tracker := { c.tracker with
          pendingAcks := c.tracker.pendingAcks ++ [n], ackBytes := bytes, seen } }

theorem Course.mono (hVW : ∀ {n}, V n → W n) (h : Course P V c k c') : Course P W c k c' := by
  cases h with
  | move h hk => exact .move h fun hq hreliable ↦ hVW (hk hq hreliable)
  | lose htake hfault => exact .lose htake hfault
  | owe hn bytes hseen => exact .owe c (hVW hn) bytes hseen

/-- Moves are courses, if all that they accept has the property. -/
theorem courses_of_moves (h : Chain (Move P) c l c')
    (hl : ∀ {q flushAcks}, .arrived q (.accept flushAcks) ∈ l → q.isReliable = true →
      V q.header.sequence) : Chain (Course P V) c l c' := by
  induction h with
  | refl => exact Chain.refl
  | tail _ hm ih =>
    refine (ih fun hq ↦ hl (List.mem_append_left _ hq)).tail (.move hm fun hq ↦ ?_)
    exact hl (List.mem_append_right _ hq)

/-! ### Operations -/

/-- The number of the datagram that the operation takes in, if it is to be acknowledged. -/
def Operation.Brings (o : Operation) (n : UInt32) : Prop :=
  ∃ p length now, o = .receive p length now ∧ p.isReliable = true ∧ p.header.sequence = n

/-- **A tick that ends with a fault** loses the datagram that it can not send. -/
theorem courses_of_tick_error {now : Instant} {f : Forest} {fault : Fault} {t : Turn}
    (h : c.tick now f = .error (fault, t)) : Chain (Course P V) c t.log t.circuit := by
  obtain ⟨u, k, lane, hchain, hlog, hlane⟩ := exists_served_of_error h
  obtain ⟨p, q, forest, htake, -, hsent, rfl⟩ := Turn.serveLane_eq_error hlane
  have hmoves : Chain (Move P) c u.log u.circuit := by
    rw [hlog]
    exact (chain_checkResends now c f).trans (hchain.mono .service)
  have hsilent : ∀ {q flushAcks}, .arrived q (.accept flushAcks) ∈ u.log → q.isReliable = true →
      V q.header.sequence :=
    fun hq _ ↦ absurd trivial (not_fromPeer_of_tick (.inr ⟨fault, h⟩) _ hq)
  have hcourse := (courses_of_moves hmoves hsilent).tail (.lose htake hsent)
  rwa [List.append_nil] at hcourse

/-- A datagram that is to be acknowledged is, whatever is answered. -/
theorem exists_receiveReliable (p : Packet) (length : Nat) (c : Circuit) :
    ∃ bytes seen, (seen = c.tracker.seen ∨ seen = (c.tracker.seen.offer p.header.sequence).2) ∧
      (c.receiveReliable p length).2 =
        { c with
          tracker := { c.tracker with
            pendingAcks := c.tracker.pendingAcks ++ [p.header.sequence], ackBytes := bytes, seen } } := by
  rw [receiveReliable]
  cases hq : c.tracker.queueAck p.header.sequence length with
  | error fault => exact ⟨c.tracker.ackBytes, c.tracker.seen, .inl rfl, rfl⟩
  | ok t =>
    obtain ⟨bytes, -, ht⟩ := bind_eq_ok_iff.1 hq
    obtain rfl := Except.ok.inj ht
    refine ⟨bytes, (c.tracker.seen.offer p.header.sequence).2, .inr rfl, ?_⟩
    cases hknown : (c.tracker.seen.offer p.header.sequence).1 with
    | true => simp only [Tracker.offer, Tracker.owe, hknown, if_true]
    | false => simp only [Tracker.offer, Tracker.owe, hknown, Bool.false_eq_true, if_false]

/-- The fault is that something can not be counted. -/
theorem eq_overflow_of_receive {p : Packet} {length : Nat} {now : Instant} {fault : Fault}
    (h : (c.receive p length now).1 = .error fault) : fault = .overflow := by
  have hcount : ∀ {n e}, within64 n = .error e → e = .overflow := by
    intro n e he
    rw [within64] at he
    split at he <;> cases he
    rfl
  rw [receive] at h
  split at h
  · cases h
  split at h
  · rw [receiveReliable] at h
    split at h
    · rename_i fault' hq
      obtain rfl := Except.error.inj h
      obtain hbytes | ⟨_, -, hdone⟩ := bind_eq_error_iff.1 hq
      · exact hcount hbytes
      · cases hdone
    · dsimp only at h
      split at h
      · cases h
      · obtain hthreshold | ⟨_, -, hdone⟩ := bind_eq_error_iff.1 h
        · exact hcount hthreshold
        · cases hdone
  · cases h

/-- **A datagram that is taken in with a fault** is to be acknowledged. -/
theorem courses_of_receive_error {p : Packet} {length : Nat} {now : Instant} {fault : Fault}
    (h : (c.receive p length now).1 = .error fault) :
    Chain (Course P (Operation.receive p length now).Brings) c (c.arrivalEvents p length now)
      (c.receive p length now).2 := by
  rw [arrivalEvents, h]
  rw [receive] at h ⊢
  by_cases hclosed : c.isClosed = true
  · rw [if_pos hclosed] at h
    cases h
  · rw [if_neg hclosed] at h ⊢
    have hfirst := chain_heard (P := P) p now c
    by_cases hp : p.isReliable = true
    · simp only [hp, if_true] at h ⊢
      obtain ⟨bytes, seen, hseen, heq⟩ := exists_receiveReliable p length _
      rw [heq]
      have hcourse := (courses_of_moves hfirst fun hq _ ↦ ?_).tail
        (.owe (V := (Operation.receive p length now).Brings) _ ⟨p, length, now, rfl, hp, rfl⟩ bytes hseen)
      · rwa [List.append_nil] at hcourse
      · obtain ⟨x, -, hx⟩ := List.mem_map.1 hq
        exact absurd hx (by simp)
    · simp only [hp, Bool.false_eq_true, if_false] at h
      cases h

/-- **An operation that meets a fault** takes courses as any other. -/
theorem courses_of_fault {o : Operation} {f : Forest} {fault : Fault} (h : c.apply o f = .error fault) :
    Chain (Course P o.Brings) c (c.events o f) (c.afterFault o f).1 := by
  cases o with
  | tick now =>
    cases htick : c.tick now f with
    | ok t => simp [apply, htick, Except.mapError, bind, Except.bind, pure, Except.pure] at h
    | error e =>
      obtain ⟨fault', t⟩ := e
      simp only [events, afterFault, htick]
      exact courses_of_tick_error htick
  | receive p length now =>
    cases hreceive : (c.receive p length now).1 with
    | ok disposition => simp [apply, hreceive, bind, Except.bind, pure, Except.pure] at h
    | error fault' => exact courses_of_receive_error hreceive
  | renegotiate requested now => exact Chain.refl
  | answerPing id =>
    simp only [apply] at h
    split at h <;> cases h
  | _ => cases h

/-! ### The books -/

/-- **A datagram that can not be sent** takes no number with it. -/
theorem Books.lose (h : Books P config l c) {lane : Lane} {p : Outgoing} {q : LaneQueue} {now : Instant}
    {fault : Fault} (htake : (c.queues.get lane).take? c.isUseful = (some p, q))
    (hfault : { c with queues := c.queues.set lane q }.transmit p now = .error fault) :
    Books P config l ({ c with queues := c.queues.set lane q }.spoiled p) := by
  obtain ⟨hp, hrest⟩ := mem_of_take? htake
  have hold : p.sequence ≠ 0 := by
    intro h0
    obtain ⟨m, reliable, piece, -, -, hbuffer⟩ := (h.queues lane p hp).carries
    obtain ⟨k, bytes, -, hfirst⟩ :=
      transmitFirst_plain hbuffer now { c with queues := c.queues.set lane q }
    rw [Circuit.transmit, if_pos h0, hfirst] at hfault
    cases hfault
  rw [spoiled, if_neg hold]
  exact h.shrink hrest

/-- **Every course keeps the books.** -/
theorem Books.course (h : Books P config l c) (hc : Course P V c k c') : Books P config (l ++ k) c' := by
  cases hc with
  | move hm => exact h.move hm
  | lose htake hfault =>
    rw [List.append_nil]
    exact h.lose htake hfault
  | owe => exact h.same ⟨rfl, rfl, rfl, rfl, rfl⟩ rfl rfl

/-- The record tells of all courses that led to the circuit from one that knew nothing. -/
def Coursed (P : Message → Prop) (V : UInt32 → Prop) (config : Config) (l : List Event) (c : Circuit) :
    Prop :=
  ∃ c₀, Fresh config c₀ ∧ Chain (Course P V) c₀ l c

theorem Coursed.mono (h : Coursed P V config l c) (hVW : ∀ {n}, V n → W n) :
    Coursed P W config l c := by
  obtain ⟨c₀, hfresh, hchain⟩ := h
  exact ⟨c₀, hfresh, hchain.mono (.mono hVW)⟩

theorem Coursed.trans (h : Coursed P V config l c) (hk : Chain (Course P V) c k c') :
    Coursed P V config (l ++ k) c' := by
  obtain ⟨c₀, hfresh, hchain⟩ := h
  exact ⟨c₀, hfresh, hchain.trans hk⟩

/-- A circuit that never met a fault. -/
theorem Traced.coursed (h : Traced P config l c) : Coursed P (fun _ ↦ True) config l c := by
  obtain ⟨c₀, hfresh, hchain⟩ := h
  exact ⟨c₀, hfresh, courses_of_moves hchain fun _ _ ↦ trivial⟩

/-- **The books of a circuit fit its record,** whatever faults it meets. -/
theorem Coursed.books (h : Coursed P V config l c) : Books P config l c := by
  obtain ⟨c₀, hfresh, hchain⟩ := h
  exact hchain.preserves (k := []) hfresh.books fun hbooks hc ↦ hbooks.course hc

/-- What a course preserves as long as the books fit holds of whatever is coursed. -/
theorem Coursed.invariant {motive : List Event → Circuit → Prop} (h : Coursed P V config l c)
    (hstart : ∀ {c₀}, Fresh config c₀ → motive [] c₀)
    (hstep : ∀ {l k c c'}, Books P config l c → motive l c → Course P V c k c' → motive (l ++ k) c') :
    motive l c := by
  obtain ⟨c₀, hfresh, hchain⟩ := h
  have hboth : Books P config l c ∧ motive l c :=
    hchain.preserves (k := []) (motive := fun l c ↦ Books P config l c ∧ motive l c)
      ⟨hfresh.books, hstart hfresh⟩
      fun hstate hc ↦ ⟨hstate.1.course hc, hstep hstate.1 hstate.2 hc⟩
  exact hboth.2

end Circuit

end DatagramCircuits
