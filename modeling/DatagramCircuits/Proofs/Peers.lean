import DatagramCircuits.Circuit.Peers
import DatagramCircuits.Proofs.Acknowledging
import DatagramCircuits.Proofs.Sequencing
import DatagramCircuits.Server.Inbound
/-!
# Acknowledgements between two peers

Two circuits that send each other datagrams through a network that loses, repeats, delays and reorders
them. Whatever is acknowledged at one of them, the other one took in before: a reliable datagram with
the number, and with the id and the payload of the datagram that was in the account
(`Exchange.backed_of_step`).

**To take a datagram in is to accept it, as long as the octets can be counted.** A count that leaves 64
bits comes when the number is to be acknowledged already, so that a datagram is acknowledged then and
never accepted (`acknowledged_of_excessiveMtu`).

What a circuit knows from its peer came in by an operation that names it (`of_mem_events`), and an
operation names only what the peer sent. `Peer.Informed` is the invariant of a pair, with `Coursed` for
each of the two.
-/

namespace DatagramCircuits

namespace Circuit

/-! ### Deeds -/

variable {a a' b : Peer} {mtu : Nat}

/-- The message asks for acknowledgements to be taken in only if it consists of them. -/
theorem eq_acks_of_operation? {m : Control} {now now' : Instant} {sequences : List UInt32}
    (h : m.operation? now = some (.acknowledge sequences now')) : m = .acks sequences := by
  cases m <;> cases h
  rfl

/-- A message asks for nothing to be queued or received. -/
theorem silent_of_operation? {m : Control} {now : Instant} {o : Operation}
    (h : m.operation? now = some o) :
    o.QueuesOnly Message.IsApplication ∧ ∀ p length now', o ≠ .receive p length now' := by
  cases m <;> cases h <;> exact ⟨trivial, fun _ _ _ heq ↦ nomatch heq⟩

/-- What a peer may do, given what it accepted and what the other peer sent. -/
structure Allowed (a b : Peer) (o : Operation) : Prop where
  queues : o.QueuesOnly Message.IsApplication
  received : ∀ {p length now}, o = .receive p length now →
    ∃ d ∈ b.sent, Datagram.parse a.circuit.config.mtu d = .ok p
  acknowledged : ∀ {sequences now}, o = .acknowledge sequences now →
    ∃ p ∈ a.accepted, ∃ rest,
      Control.read p.id p.payload = .ok (some (.acks sequences), rest)

/-- Whatever a step does with a peer, it is allowed to. -/
theorem allowed_of_operation? {x : Deed} {o : Operation} (h : x.operation? a b = some o) :
    Allowed a b o := by
  cases x with
  | send category m reliable notify =>
    obtain rfl := Option.some.inj h
    exact ⟨m.2, fun heq ↦ (nomatch heq), fun heq ↦ (nomatch heq)⟩
  | tick now | flushAcks | ping now =>
    obtain rfl := Option.some.inj h
    exact ⟨trivial, fun heq ↦ (nomatch heq), fun heq ↦ (nomatch heq)⟩
  | deliver i now =>
    rw [Deed.operation?] at h
    split at h
    · exact absurd h (by simp)
    · rename_i d hd
      split at h
      · rename_i p hp
        obtain rfl := Option.some.inj h
        refine ⟨trivial, fun heq ↦ ?_, fun heq ↦ (nomatch heq)⟩
        cases heq
        exact ⟨d, List.mem_of_getElem? hd, hp⟩
      · exact absurd h (by simp)
  | handle i now =>
    rw [Deed.operation?] at h
    split at h
    · exact absurd h (by simp)
    · rename_i p hp
      split at h
      · rename_i m rest hm
        obtain ⟨hqueues, hsilent⟩ := silent_of_operation? h
        refine ⟨hqueues, fun heq ↦ absurd heq (hsilent _ _ _), fun heq ↦ ?_⟩
        rw [heq] at h
        obtain rfl := eq_acks_of_operation? h
        exact ⟨p, List.mem_of_getElem? hp, rest, hm⟩
      · exact absurd h (by simp)

/-- A deed is an operation that is allowed, or nothing. -/
theorem Peer.perform_cases (a : Peer) (x : Deed) (f : Forest) (b : Peer) :
    a.perform x f b = a ∨ ∃ o, Allowed a b o ∧ a.perform x f b = a.after o f := by
  rw [perform]
  split
  · exact .inl rfl
  · rename_i o ho
    exact .inr ⟨o, allowed_of_operation? ho, rfl⟩

/-- The datagram was taken in: it was accepted, or what is to be counted then left 64 bits. -/
def Act.Takes (x : Act) (q : Packet) : Prop :=
  ∃ length now, x.operation = .receive q length now ∧
    ((∃ flushAcks, x.answer = .ok (.received (.accept flushAcks))) ∨ x.answer = .error .overflow)

/-- A reliable datagram with the number was taken in. -/
def Peer.Took (a : Peer) (n : UInt32) : Prop :=
  ∃ x ∈ a.past, ∃ q, x.Takes q ∧ q.isReliable = true ∧ q.header.sequence = n

/-- A packet is accepted when it is taken in. -/
theorem Peer.exists_receive_of_mem_accepted {p : Packet} (h : p ∈ a.accepted) :
    ∃ x ∈ a.past, ∃ length now, x.operation = .receive p length now := by
  obtain ⟨x, hx, h⟩ := List.mem_filterMap.1 h
  rw [Act.accepted?] at h
  split at h
  · rename_i p' length now flushAcks hoperation _
    obtain rfl := Option.some.inj h
    exact ⟨x, hx, length, now, hoperation⟩
  · cases h

namespace Peer

/-! ### Operations -/

/-- What the peer did when it did the operation. -/
def act (a : Peer) (o : Operation) (f : Forest) : Act where
  operation := o
  answer := (a.circuit.apply o f).map Prod.fst
  events := a.circuit.events o f

/-- A deed is one more act, whether or not a fault ends it. -/
theorem past_after (a : Peer) (o : Operation) (f : Forest) :
    (a.after o f).past = a.past ++ [a.act o f] := by
  rw [after, act]
  cases a.circuit.apply o f <;> rfl

/-- The record goes on with the events of the deed, also where a fault ends it. -/
theorem record_after (a : Peer) (o : Operation) (f : Forest) :
    (a.after o f).record = a.record ++ a.circuit.events o f := by
  rw [record, past_after, List.flatMap_append, List.flatMap_singleton]
  rfl

/-- What a deed puts out is sent; a deed that a fault ends puts out nothing. -/
theorem sent_after (a : Peer) (o : Operation) (f : Forest) :
    (a.after o f).sent = a.sent ++ (a.act o f).datagrams := by
  rw [sent, past_after, List.flatMap_append, List.flatMap_singleton]
  rfl

/-- What was taken in before still was. -/
theorem Took.after {n : UInt32} (h : a.Took n) (o : Operation) (f : Forest) : (a.after o f).Took n := by
  obtain ⟨x, hx, h⟩ := h
  exact ⟨x, past_after a o f ▸ List.mem_append_left _ hx, h⟩

/-- What an operation does to the circuit is a course, and the past of the peer tells which numbers were
taken in. -/
theorem courses_after {o : Operation} (ho : o.QueuesOnly Message.IsApplication) (f : Forest) :
    Chain (Course Message.IsApplication (a.after o f).Took) a.circuit (a.circuit.events o f)
      (a.after o f).circuit := by
  have hlast : a.act o f ∈ (a.after o f).past := past_after a o f ▸ List.mem_append_right _ (by simp)
  cases happly : a.circuit.apply o f with
  | ok r =>
    obtain ⟨answer, circuit, forest⟩ := r
    have hcircuit : (a.after o f).circuit = circuit := by rw [after, happly]
    rw [hcircuit]
    refine courses_of_moves (moves_of_apply ho happly) ?_
    intro q flushAcks hq hreliable
    have hanswer : (a.act o f).answer = .ok (.received (.accept flushAcks)) := by
      rw [act, happly, ← eq_received_of_mem_events happly hq]
      rfl
    obtain ⟨p, length, now, rfl, ⟨x, hx, -⟩ | ⟨_, hp⟩⟩ | ⟨_, _, x, -, hx, -⟩ := of_mem_events hq trivial
    · cases hx
    · cases hp
      exact ⟨_, hlast, q, ⟨length, now, rfl, .inl ⟨flushAcks, hanswer⟩⟩, hreliable, rfl⟩
    · cases hx
  | error fault =>
    have hcircuit : (a.after o f).circuit = (a.circuit.afterFault o f).1 := by rw [after, happly]
    rw [hcircuit]
    refine (courses_of_fault happly).mono (.mono ?_)
    rintro n ⟨p, length, now, rfl, hreliable, hsequence⟩
    have hfault : fault = .overflow := by
      obtain hreceive | ⟨_, -, hdone⟩ := bind_eq_error_iff.1 happly
      · exact eq_overflow_of_receive hreceive
      · cases hdone
    have hanswer : (a.act (.receive p length now) f).answer = .error .overflow := by
      rw [act, happly, hfault]
      rfl
    exact ⟨_, hlast, p, ⟨length, now, rfl, .inr hanswer⟩, hreliable, hsequence⟩

/-! ### What each peer knows from the other -/

/-- The circuit lives as circuits do, under the given MTU, and its record tells what it sent. What was
sent in regular work that ended with a fault is in the record only. -/
structure Lives (mtu : Nat) (a : Peer) : Prop where
  coursed : Coursed Message.IsApplication a.Took a.circuit.config a.record a.circuit
  mtu_eq : a.circuit.config.mtu = mtu
  sent : ∀ d ∈ a.sent, d ∈ emissions a.record

/-- What the one peer knows from the other one fits the past of that. -/
structure Informed (mtu : Nat) (a b : Peer) : Prop where
  arrived : ∀ x ∈ a.past, ∀ {q length now}, x.operation = .receive q length now →
    ∃ d ∈ b.sent, Datagram.parse mtu d = .ok q
  acknowledged : ∀ {x now}, .acknowledged x now ∈ a.record → b.Took x.sequence

/-- One more operation that is allowed. -/
theorem Lives.after (h : Lives mtu a) {o : Operation} (ho : Allowed a b o) (f : Forest) :
    Lives mtu (a.after o f) := by
  have hcoursed := (h.coursed.mono fun hn ↦ hn.after o f).trans (courses_after ho.queues f)
  have hconfig : (a.after o f).circuit.config = a.circuit.config := hcoursed.books.config_eq
  refine ⟨?_, (congrArg Config.mtu hconfig).trans h.mtu_eq, ?_⟩
  · rw [record_after, hconfig]
    exact hcoursed
  · intro d hd
    rw [record_after, emissions_append]
    rw [sent_after] at hd
    rcases List.mem_append.1 hd with hd | hd
    · exact List.mem_append_left _ (h.sent d hd)
    · refine List.mem_append_right _ ?_
      rw [Act.datagrams, act] at hd
      cases happly : a.circuit.apply o f with
      | ok r =>
        simp only [happly, Except.map] at hd
        rwa [(agrees_of_apply happly).datagrams] at hd
      | error fault =>
        simp only [happly, Except.map] at hd
        exact absurd hd List.not_mem_nil

/-- **Whatever comes in was sent by the other peer,** which took in what it acknowledges. -/
theorem Informed.after (h : Informed mtu a b) (ha : Lives mtu a) (hb : Lives mtu b) {o : Operation}
    (ho : Allowed a b o) (f : Forest) : Informed mtu (a.after o f) b := by
  -- the other peer answers for all that it ever sent, however late it arrives
  have hsound : ∀ {d q n}, d ∈ b.sent → Datagram.parse mtu d = .ok q → q.Acknowledges n →
      b.Took n := by
    intro d q n hd hq hn
    rw [← hb.mtu_eq] at hq
    exact (hb.coursed.honest.emitted d (hb.sent d hd)).taken hq hn
  constructor
  · intro x hx q length now hoperation
    rw [past_after] at hx
    rcases List.mem_append.1 hx with hx | hx
    · exact h.arrived x hx hoperation
    · obtain rfl := List.mem_singleton.1 hx
      exact ha.mtu_eq ▸ ho.received hoperation
  · intro x now hmem
    rw [record_after] at hmem
    rcases List.mem_append.1 hmem with hmem | hmem
    · exact h.acknowledged hmem
    · obtain ⟨p, length, now, rfl, ⟨x, hx, hin⟩ | ⟨_, hq⟩⟩ | ⟨sequences, _, x, rfl, hx, hin⟩ :=
        of_mem_events hmem trivial
      · cases hx
        obtain ⟨d, hd, hp⟩ := ho.received rfl
        exact hsound hd (ha.mtu_eq ▸ hp) (.inl hin)
      · cases hq
      · cases hx
        obtain ⟨p, hp, rest, hread⟩ := ho.acknowledged rfl
        obtain ⟨x, hx, length, now, hreceive⟩ := exists_receive_of_mem_accepted hp
        obtain ⟨d, hd, hparse⟩ := h.arrived x hx hreceive
        exact hsound hd hparse (.inr ⟨sequences, rest, hread, hin⟩)

/-- What the other peer does later takes nothing back. -/
theorem Informed.later (h : Informed mtu b a) (o : Operation) (f : Forest) :
    Informed mtu b (a.after o f) where
  arrived x hx q length now hoperation := by
    obtain ⟨d, hd, hq⟩ := h.arrived x hx hoperation
    refine ⟨d, ?_, hq⟩
    rw [sent_after]
    exact List.mem_append_left _ hd
  acknowledged hmem := (h.acknowledged hmem).after o f

/-- What was acknowledged at the one peer, the other one took in: a reliable datagram with the number,
and with the id and the payload, of what was acknowledged. -/
def Backed (mtu : Nat) (a b : Peer) : Prop :=
  ∀ x now, .acknowledged x now ∈ a.record → ∃ e ∈ b.past, ∃ q y, e.Takes q ∧ q.isReliable = true ∧
    q.header.sequence = x.sequence ∧ Datagram.parse mtu x.buffer = .ok y ∧ y.id = q.id ∧
      y.payload = q.payload

/-- **Nothing is acknowledged in error,** as a number stands for one datagram. -/
theorem Informed.backed (h : Informed mtu a b) (hback : Informed mtu b a) (ha : Lives mtu a)
    (hbound : (firstTransmissions a.record).length < sequenceCount) : Backed mtu a b := by
  intro x now hx
  obtain ⟨e, he, q, htakes, hreliable, hsequence⟩ := h.acknowledged hx
  obtain ⟨length, now', hoperation, -⟩ := id htakes
  obtain ⟨d, hd, hparse⟩ := hback.arrived e he hoperation
  have hsound := ha.coursed.honest.emitted d (ha.sent d hd)
  rw [ha.mtu_eq] at hsound
  obtain ⟨p, now', y, htransmitted, hnumber, -, hread, hid, hpayload⟩ :=
    hsound.transmitted hparse hreliable
  -- what left the account was sent first under the number that was taken in, and so was what arrived
  have hdeparted : x ∈ departures a.record := List.mem_filterMap.2 ⟨_, hx, rfl⟩
  obtain ⟨p₀, d₀, now₀, hfirst, -, -, -, hnumber₀, hbare₀⟩ :=
    (ha.coursed.books.departed x hdeparted).sent
  have hbare : Datagram.bare d = x.buffer := by
    rw [← hbare₀]
    refine ha.coursed.bare_eq_of_sequence_eq hbound htransmitted hfirst ?_
    rw [hnumber, hnumber₀, hsequence]
  exact ⟨e, he, q, y, htakes, hreliable, hsequence, hbare ▸ hread, hid, hpayload⟩

end Peer

/-! ### Exchanges -/

/-- The peer has just opened its circuit, under the given MTU. -/
def Peer.Opened (mtu : Nat) (a : Peer) : Prop :=
  ∃ session address config root now f, config.mtu = mtu ∧
    Peer.opened session address config root now f = .ok a

/-- Each of the two peers lives, and what it knows from the other one is right. -/
structure Exchange.Coherent (mtu : Nat) (s : Exchange) : Prop where
  left : s.left.Lives mtu
  right : s.right.Lives mtu
  fromRight : s.left.Informed mtu s.right
  fromLeft : s.right.Informed mtu s.left

/-- A new peer has no past. -/
theorem Peer.Opened.lives (h : a.Opened mtu) : a.Lives mtu ∧ a.past = [] := by
  obtain ⟨session, address, config, root, now, f, rfl, h⟩ := h
  obtain ⟨⟨c, forest⟩, hopened, h⟩ := bind_eq_ok_iff.1 h
  obtain rfl := Except.ok.inj h
  have hfresh := fresh_of_opened (mapError_eq_ok_iff.1 hopened)
  have hconfig : c.config = config := hfresh.config_eq
  refine ⟨⟨?_, congrArg Config.mtu hconfig, fun d hd ↦ nomatch hd⟩, rfl⟩
  show Coursed _ _ c.config [] c
  rw [hconfig]
  exact ⟨c, hfresh, Chain.refl⟩

/-- A peer that did nothing yet knows nothing. -/
theorem Peer.informed_of_nil (h : a.past = []) : a.Informed mtu b where
  arrived x hx := by
    rw [h] at hx
    cases hx
  acknowledged hmem := by
    rw [record, h] at hmem
    cases hmem

/-- Two new peers know nothing of each other. -/
theorem Exchange.coherent_of_opened {s : Exchange} (hleft : s.left.Opened mtu)
    (hright : s.right.Opened mtu) : s.Coherent mtu := by
  obtain ⟨hlives, hnil⟩ := hleft.lives
  obtain ⟨hlives', hnil'⟩ := hright.lives
  exact ⟨hlives, hlives', Peer.informed_of_nil hnil, Peer.informed_of_nil hnil'⟩

/-- **One deed** of the one peer. -/
theorem Peer.Lives.perform (ha : a.Lives mtu) (hb : b.Lives mtu) (hab : a.Informed mtu b)
    (hba : b.Informed mtu a) (x : Deed) (f : Forest) :
    (a.perform x f b).Lives mtu ∧ (a.perform x f b).Informed mtu b ∧
      b.Informed mtu (a.perform x f b) := by
  rcases a.perform_cases x f b with h | ⟨o, ho, h⟩
  · rw [h]
    exact ⟨ha, hab, hba⟩
  · rw [h]
    exact ⟨ha.after ho f, hab.after ha hb ho f, hba.later o f⟩

/-- **One step** of the two. -/
theorem Exchange.Coherent.step {s : Exchange} (h : s.Coherent mtu) (x : Exchange.Step) :
    (s.step x).Coherent mtu := by
  cases x with
  | left x f =>
    obtain ⟨hlives, hknows, hknown⟩ := h.left.perform h.right h.fromRight h.fromLeft x f
    exact ⟨hlives, h.right, hknows, hknown⟩
  | right x f =>
    obtain ⟨hlives, hknows, hknown⟩ := h.right.perform h.left h.fromLeft h.fromRight x f
    exact ⟨h.left, hlives, hknown, hknows⟩

/-- **Whatever the two peers do, and whatever the network does.** -/
theorem Exchange.Coherent.run {s : Exchange} (h : s.Coherent mtu) (steps : List Exchange.Step) :
    (s.run steps).Coherent mtu := by
  induction steps generalizing s with
  | nil => exact h
  | cons x steps ih => exact ih (h.step x)

/-- **No false acknowledgement between two peers.** However the network treats their datagrams, and
whatever faults they meet, what is acknowledged at one of them after one more step was taken in by the
other one before that step. -/
theorem Exchange.backed_of_step {s₀ s s' : Exchange} {steps : List Exchange.Step}
    {x : Exchange.Step} (hleft : s₀.left.Opened mtu) (hright : s₀.right.Opened mtu)
    (hrun : s₀.run steps = s) (hstep : s.step x = s')
    (hfirst : (firstTransmissions s'.left.record).length < sequenceCount)
    (hfirst' : (firstTransmissions s'.right.record).length < sequenceCount) :
    s'.left.Backed mtu s.right ∧ s'.right.Backed mtu s.left := by
  subst hrun hstep
  have h := (coherent_of_opened hleft hright).run steps
  have h' := h.step x
  -- the peer that does nothing in the last step is the same before and after it
  cases x with
  | left x f =>
    exact ⟨h'.fromRight.backed h'.fromLeft h'.left hfirst, h.fromLeft.backed h.fromRight h.right hfirst'⟩
  | right x f =>
    exact ⟨h.fromRight.backed h.fromLeft h.left hfirst, h'.fromLeft.backed h'.fromRight h'.right hfirst'⟩

/-- A datagram is sent, arrives, and is acknowledged in a datagram of its own, which arrives as well. -/
def acknowledgingSteps : List Exchange.Step :=
  [.left (.send (.throttled .task) ⟨{ id := .high 5, payload := [1, 2, 3] }, by decide⟩ true false)
      ⟨List.replicate 9 (.full [] 0 0 0)⟩,
    .left (.tick (100 * Span.millisecond)) ⟨List.replicate 9 (.full [] 0 0 0)⟩,
    .right (.deliver 0 (150 * Span.millisecond)) {}, .right .flushAcks {},
    .left (.deliver 0 (200 * Span.millisecond)) {}]

/-- Opens two peers, lets them do that, and handles the acknowledgement at the one that sent first. -/
def acknowledging (mtu : Nat) : Except Fault (Exchange × Exchange × Exchange) := do
  let a ← Peer.opened ⟨.ofNat 7, .ofNat 8, 99, none⟩ (.loopback 5) { mtu } 0 0 {}
  let b ← Peer.opened ⟨.ofNat 9, .ofNat 8, 99, none⟩ (.loopback 6) { mtu } 0 0 {}
  let s := Exchange.run acknowledgingSteps ⟨a, b⟩
  return (⟨a, b⟩, s, s.step (.left (.handle 0 (250 * Span.millisecond)) {}))

theorem of_acknowledging {mtu : Nat} {s₀ s s' : Exchange} (h : acknowledging mtu = .ok (s₀, s, s')) :
    s₀.left.Opened mtu ∧ s₀.right.Opened mtu ∧ s₀.run acknowledgingSteps = s ∧
      s.step (.left (.handle 0 (250 * Span.millisecond)) {}) = s' := by
  obtain ⟨a, ha, h⟩ := bind_eq_ok_iff.1 h
  obtain ⟨b, hb, h⟩ := bind_eq_ok_iff.1 h
  cases h
  exact ⟨⟨_, _, _, _, _, _, rfl, ha⟩, ⟨_, _, _, _, _, _, rfl, hb⟩, rfl, rfl⟩

theorem backed_of_acknowledging : ∃ s₀ s s' : Exchange, s₀.left.Opened 1400 ∧ s₀.right.Opened 1400 ∧
    s₀.run acknowledgingSteps = s ∧
    s.step (.left (.handle 0 (250 * Span.millisecond)) {}) = s' ∧
    (departures s'.left.record).map Outgoing.sequence = [1] ∧
    s'.left.Backed 1400 s.right ∧ s'.right.Backed 1400 s.left := by
  obtain ⟨⟨s₀, s, s'⟩, h, htest⟩ := exists_eq_ok_of_any (x := acknowledging 1400)
    (p := fun r ↦ decide ((departures r.2.2.left.record).map Outgoing.sequence = [1] ∧
      (firstTransmissions r.2.2.left.record).length < sequenceCount ∧
      (firstTransmissions r.2.2.right.record).length < sequenceCount)) (by decide +kernel)
  obtain ⟨hdepartures, hfirst, hfirst'⟩ := of_decide_eq_true htest
  obtain ⟨hleft, hright, hrun, hstep⟩ := of_acknowledging h
  exact ⟨s₀, s, s', hleft, hright, hrun, hstep, hdepartures,
    Exchange.backed_of_step hleft hright hrun hstep hfirst hfirst'⟩

/-- Where twice the MTU leaves 64 bits, under settings that are valid, a datagram is acknowledged that the
other peer never accepted. -/
theorem acknowledged_of_excessiveMtu :
    Config.Valid { mtu := 2 ^ 63 } ∧ ∃ s₀ s s' : Exchange,
      s₀.left.Opened (2 ^ 63) ∧ s₀.right.Opened (2 ^ 63) ∧ s₀.run acknowledgingSteps = s ∧
      s.step (.left (.handle 0 (250 * Span.millisecond)) {}) = s' ∧
      (firstTransmissions s'.left.record).length = 1 ∧ firstTransmissions s'.right.record = [] ∧
      (s'.left.record.filterMap Event.acknowledged?).map Outgoing.sequence = [1] ∧
      s'.right.accepted = [] := by
  refine ⟨Config.valid_iff _ |>.2 (by decide +kernel), ?_⟩
  obtain ⟨⟨s₀, s, s'⟩, h, htest⟩ := exists_eq_ok_of_any (x := acknowledging (2 ^ 63))
    (p := fun r ↦ decide ((firstTransmissions r.2.2.left.record).length = 1 ∧
      firstTransmissions r.2.2.right.record = [] ∧
      (r.2.2.left.record.filterMap Event.acknowledged?).map Outgoing.sequence = [1] ∧
      r.2.2.right.accepted = [])) (by decide +kernel)
  obtain ⟨hleft, hright, hrun, hstep⟩ := of_acknowledging h
  exact ⟨s₀, s, s', hleft, hright, hrun, hstep, of_decide_eq_true htest⟩

end Circuit

/-! ### Servers -/

namespace Server

open Circuit

theorem circuit?_putCircuit {s : Server} {id : CircuitId} {c : Circuit} (h : s.circuit? id = some c)
    (c' : Circuit) : (s.putCircuit id c').circuit? id = some c' := by
  have hlt : id < s.circuits.length := (List.getElem?_eq_some_iff.1 h).1
  exact List.getElem?_set_self hlt

/-- **A server does with a circuit what a message asks for,** as peers do. -/
theorem circuit?_control {s : Server} {id : CircuitId} {c c' : Circuit} {m : Control} {now : Instant}
    {o : Operation} {answer : Answer} {f : Forest} (hc : s.circuit? id = some c)
    (ho : m.operation? now = some o) (h : c.apply o s.forest = .ok (answer, c', f)) :
    (s.control id c m now).2.circuit? id = some c' := by
  cases m with
  | setup request => cases ho
  | acks sequences =>
    obtain rfl := Option.some.inj ho
    cases h
    exact circuit?_putCircuit hc _
  | ping ping oldest =>
    obtain rfl := Option.some.inj ho
    rw [eq_of_apply_answerPing h, control]
    cases c.answerPing ping <;> exact hc
  | pong ping =>
    obtain rfl := Option.some.inj ho
    cases h
    exact circuit?_putCircuit hc _
  | throttle rates =>
    obtain rfl := Option.some.inj ho
    obtain ⟨⟨adjustment, forest⟩, hr, h⟩ := bind_eq_ok_iff.1 h
    cases h
    rw [control, hr]
    exact hc
  | close =>
    obtain rfl := Option.some.inj ho
    rw [apply_close] at h
    obtain ⟨-, hrest⟩ := Prod.mk.inj (Except.ok.inj h)
    rw [← (Prod.mk.inj hrest).1]
    show (s.closeCircuit id .protocolClose).2.circuit? id = _
    rw [closeCircuit, hc]
    by_cases hclosed : c.isClosed = true
    · have hno : c.close s.forest = (false, c, s.forest) := if_pos hclosed
      simp only [hno]
      exact hc
    · have hyes : c.close s.forest = (true, _, _) := if_neg hclosed
      simp only [hyes]
      exact circuit?_putCircuit hc _

end Server

end DatagramCircuits
