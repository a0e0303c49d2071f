import DatagramCircuits.Proofs.Books
import DatagramCircuits.Proofs.Origins
import DatagramCircuits.Proofs.Phases
import DatagramCircuits.Proofs.Signals
/-!
# What is owed to the peer

The number of every reliable datagram that arrives is acknowledged once, in the order of arrival, in a
datagram of its own or behind another one, or it still waits for that. As long as a circuit is open, what
arrived is what was acknowledged followed by what waits (`acknowledges_in_order`).

The invariant is `Owes`. Numbers leave the front of what waits only by going into a datagram, whichever
way they go: behind a body as many as there is room for, in a message of their own as many as fit, for
which framing never fails. What a datagram acknowledges is read off its octets
(`Datagram.acknowledgements`).
-/

namespace DatagramCircuits

/-! ### What a datagram acknowledges -/

/-- The numbers that the message acknowledges. -/
def Control.acknowledged : Control → List UInt32
  | acks sequences => sequences
  | _ => []

/-- The numbers that the message in the packet acknowledges. -/
def Packet.acknowledged (q : Packet) : List UInt32 :=
  match Control.read q.id q.payload with
  | .ok (some m, _) => m.acknowledged
  | _ => []

namespace Datagram

/-- The numbers behind the body of a datagram. -/
def appended (d : Octets) : List UInt32 :=
  match splitAcks d with
  | .ok (_, acks) => acks
  | .error _ => []

/-- The numbers that a datagram acknowledges: those behind its body, and those in its message. -/
def acknowledgements (mtu : Nat) (d : Octets) : List UInt32 :=
  appended d ++
    match parse mtu d with
    | .ok q => q.acknowledged
    | .error _ => []

/-- The acknowledgements that were appended are read back. -/
theorem appended_wire {f : Flags} {body : Octets} {acks : List UInt32} (hf : f.appendedAcks = false)
    (n : UInt32) (hbody : body ≠ []) (hacks : acks.length ≤ maxAppendedAcks) :
    appended (wire f n body acks) = acks := by
  rw [appended, splitAcks_wire_eq_ok hf hbody hacks]

end Datagram

theorem Packet.acknowledged_eq_nil {q : Packet} (h : q.id ≠ .acks) : q.acknowledged = [] := by
  rw [acknowledged]
  split
  · rename_i m t hread
    have hid := Control.id_of_read hread
    cases m with
    | acks sequences => exact absurd hid.symm h
    | setup | ping | pong | throttle | close => rfl
  · rfl

/-- **A piece of a message** acknowledges what was put behind it, unless the message is one of
acknowledgements. -/
theorem Message.acknowledgements_wire {m : Message} {mtu : Nat} {piece : Octets}
    {reliable resent : Bool} {n : UInt32} {acks : List UInt32} (hm : m.id ≠ .acks)
    (hid : m.id.Readable) (hacks : acks.length ≤ Datagram.maxAppendedAcks) :
    Datagram.acknowledgements mtu (Datagram.wire { reliable, resent, zeroCoded := m.isCoded piece } n
      (m.codedBody piece) acks) = acks := by
  rw [Datagram.acknowledgements, Datagram.appended_wire rfl n (m.codedBody_ne_nil piece) hacks]
  split
  · rename_i q hq
    obtain ⟨hsame, -⟩ := eq_of_parse_wire hid hacks hq
    rw [Packet.acknowledged_eq_nil (hsame ▸ hm), List.append_nil]
  · exact List.append_nil acks

/-! ### Counted octets -/

/-- Octets are counted only while acknowledgements wait. -/
def Tracker.Counted (t : Tracker) : Prop :=
  t.pendingAcks = [] → t.ackBytes = 0

theorem Tracker.counted_takeAcks (t : Tracker) (n : Nat) : (t.takeAcks n).2.Counted := by
  intro hnil
  have hnone : (t.pendingAcks.drop n).isEmpty = true := List.isEmpty_iff.2 hnil
  simp [takeAcks, hnone]

namespace Circuit

theorem counted_piggyback (mtu : Nat) (p : Outgoing) (d : Octets) {t : Tracker} (h : t.Counted) :
    (piggyback mtu p d t).2.Counted := by
  rw [piggyback]
  split
  · exact Tracker.counted_takeAcks t _
  · exact h

theorem counted_of_transmit {now : Instant} {p : Outgoing} {d : Octets} {c c' : Circuit}
    (h : c.tracker.Counted) (hsent : c.transmit p now = .ok (d, c')) : c'.tracker.Counted := by
  obtain ⟨buffer, t, -, ht, -, hafter, -⟩ := exists_of_transmit hsent
  have hbefore : t.Counted := by
    rw [Tracker.Counted, ht.1, ht.2]
    exact h
  rw [Tracker.Counted, hafter.1, hafter.2]
  exact counted_piggyback c.config.mtu p buffer hbefore

variable {mtu : Nat} {config : Config} {l k : List Event} {c c' : Circuit}

/-- **A message of the protocol** that is sent acknowledges what it is about. -/
theorem acknowledgements_signalEvents {m : Control} (h : m.IsRoutine mtu)
    (hmtu : Config.minMtu ≤ mtu) :
    (emissions (signalEvents mtu m)).flatMap (Datagram.acknowledgements mtu) = m.acknowledged := by
  obtain ⟨d, hd⟩ := h.exists_signal hmtu
  have hemissions : emissions (signalEvents mtu m) = [d] := by
    rw [signalEvents, hd]
    rfl
  have hnone : ([] : List UInt32).length ≤ Datagram.maxAppendedAcks := Nat.zero_le _
  have hwire : d = Datagram.wire { zeroCoded := m.message.isCoded m.body } 0
      (m.message.codedBody m.body) [] := eq_of_signal hd
  have happended : Datagram.appended d = [] := by
    rw [hwire, Datagram.appended_wire rfl 0 (m.message.codedBody_ne_nil m.body) hnone]
  have hmessage : Packet.acknowledged ⟨{}, m.id, m.body, []⟩ = m.acknowledged := by
    simp only [Packet.acknowledged, h.read_body]
  rw [hemissions, List.flatMap_singleton, Datagram.acknowledgements, parse_of_signal hd, happended]
  exact hmessage

/-! ### The invariant -/

namespace Event

/-- The number of a reliable datagram that is taken in. -/
def owed? : Event → Option UInt32
  | arrived p disposition =>
    if p.isReliable && disposition != .closed then some p.header.sequence else none
  | _ => none

end Event

/-- The numbers of the reliable datagrams that were taken in, in order. -/
def owed (l : List Event) : List UInt32 :=
  l.filterMap Event.owed?

@[simp] theorem owed_append (l k : List Event) : owed (l ++ k) = owed l ++ owed k :=
  List.filterMap_append

/-- As long as the circuit is open, what was taken in is what was acknowledged and what waits for it. -/
structure Owes (mtu : Nat) (l : List Event) (c : Circuit) : Prop where
  counted : c.tracker.Counted
  balanced : c.isClosed = false →
    owed l = (emissions l).flatMap (Datagram.acknowledgements mtu) ++ c.tracker.pendingAcks

/-- **What takes nothing in** keeps the balance, if it sends what it takes off the front. -/
theorem Owes.pay (h : Owes mtu l c) (hclosed : c.isClosed = true → c'.isClosed = true)
    (hcounted : c'.tracker.Counted) (hnone : owed k = [])
    (hpaid : c.tracker.pendingAcks =
      (emissions k).flatMap (Datagram.acknowledgements mtu) ++ c'.tracker.pendingAcks) :
    Owes mtu (l ++ k) c' := by
  refine ⟨hcounted, fun hopen ↦ ?_⟩
  have hwas : c.isClosed = false := by
    cases hc : c.isClosed with
    | false => rfl
    | true => exact absurd (hclosed hc) (by simp [hopen])
  rw [owed_append, hnone, List.append_nil, h.balanced hwas, hpaid, emissions_append,
    List.flatMap_append, List.append_assoc]

/-- What leaves alone what waits keeps the balance, if what it sends acknowledges nothing. -/
theorem Owes.same (h : Owes mtu l c) (hclosed : c.isClosed = true → c'.isClosed = true)
    (hacks : c'.tracker.pendingAcks = c.tracker.pendingAcks)
    (hbytes : c'.tracker.ackBytes = c.tracker.ackBytes) (hnone : owed k = [])
    (hk : (emissions k).flatMap (Datagram.acknowledgements mtu) = []) : Owes mtu (l ++ k) c' := by
  refine h.pay hclosed (fun hnil ↦ ?_) hnone (by rw [hk, hacks, List.nil_append])
  rw [hbytes]
  exact h.counted (hacks ▸ hnil)

/-- What sends nothing at all keeps the balance, if it leaves alone what waits. -/
theorem Owes.silent (h : Owes mtu l c) (hclosed : c.isClosed = true → c'.isClosed = true)
    (hacks : c'.tracker.pendingAcks = c.tracker.pendingAcks)
    (hbytes : c'.tracker.ackBytes = c.tracker.ackBytes) (hnone : owed k = [])
    (hk : emissions k = []) : Owes mtu (l ++ k) c' :=
  h.same hclosed hacks hbytes hnone (by rw [hk]; rfl)

theorem owed_signalEvents (mtu : Nat) (m : Control) : owed (signalEvents mtu m) = [] := by
  obtain ⟨l, hl⟩ := exists_signalEvents mtu m
  rw [hl]
  exact filterMap_map_eq_nil (fun _ ↦ rfl) l

/-- Signals take the numbers that are owed first. -/
theorem Owes.quiet (h : Owes mtu l c) (hmtu : c.config.mtu = mtu) (hmin : Config.minMtu ≤ mtu)
    (hq : Quiet c k c') : Owes mtu (l ++ k) c' := by
  have hclosed : c.isClosed = true → c'.isClosed = true := hq.isClosed.trans
  subst hmtu
  cases hq with
  | keep hsame =>
    exact h.same hclosed (congrArg Tracker.pendingAcks hsame.tracker)
      (congrArg Tracker.ackBytes hsame.tracker) rfl rfl
  | @acks n hn =>
    have hroutine : (Control.acks (c.tracker.peekAcks n)).IsRoutine c.config.mtu :=
      (List.length_take_le ..).trans hn
    refine h.pay hclosed (c.tracker.counted_takeAcks n) (owed_signalEvents ..) ?_
    rw [acknowledgements_signalEvents hroutine hmin]
    exact (List.take_append_drop n _).symm
  | ping now =>
    have hsame : (c.nextPingDatagram now).2.tracker = c.tracker := by
      rw [nextPingDatagram]
      split <;> rfl
    exact h.same hclosed (congrArg Tracker.pendingAcks hsame) (congrArg Tracker.ackBytes hsame)
      (owed_signalEvents ..) (acknowledgements_signalEvents (m := c.pingMessage) trivial hmin)
  | pong id =>
    exact h.same hclosed rfl rfl (owed_signalEvents ..)
      (acknowledgements_signalEvents (m := .pong id) trivial hmin)

/-- **A reliable datagram that arrives** adds its number to what is owed, and to what waits. -/
theorem Owes.arrival (h : Owes mtu l c) (ha : Arrival c k c') : Owes mtu (l ++ k) c' := by
  cases ha with
  | plain p hp =>
    refine h.silent id rfl rfl ?_ rfl
    rcases hp with rfl | ⟨hp, rfl⟩ <;> simp [owed, Event.owed?, *]
  | @reliable p hp bytes flushAcks =>
    have hnew : owed [.arrived p (reliableDisposition p
        (c.tracker.seen.offer p.header.sequence).1 flushAcks)] = [p.header.sequence] := by
      rw [reliableDisposition]
      split <;> simp [owed, Event.owed?, hp]
    refine ⟨fun hnil ↦ ?_, fun hopen ↦ ?_⟩
    · exact absurd hnil (by simp [takeReliable])
    · rw [owed_append, hnew, h.balanced hopen, emissions_append]
      simp [takeReliable, emissions, Event.datagram?]

/-- **A transmission** takes along what it takes off the front. -/
theorem Owes.transmit (h : Owes config.mtu l c) (hbooks : Books (fun m ↦ m.id ≠ .acks) config l c)
    {lane : Lane} {p : Outgoing} {q : LaneQueue} {now : Instant} {d : Octets}
    (htake : (c.queues.get lane).take? c.isUseful = (some p, q))
    (hsent : { c with queues := c.queues.set lane q }.transmit p now = .ok (d, c')) :
    Owes config.mtu (l ++ [.transmitted p d now]) c' := by
  have hwaits := hbooks.queues lane p (mem_of_take? htake).1
  obtain ⟨m, reliable, piece, n, bytes, hm, hroom, -, hn, hcases⟩ :=
    transmit_cases (c := { c with queues := c.queues.set lane q }) hwaits.carries
      (LaneQueue.take?_eq_some htake).1 hsent
  have hlen : (c.tracker.pendingAcks.take n).length ≤ Datagram.maxAppendedAcks :=
    Nat.le_trans (List.length_take_le ..) hn
  obtain ⟨-, -, -, -, -, -, hphase⟩ := exists_of_transmit hsent
  have hclosed : c.isClosed = true → c'.isClosed = true := (isClosed_congr hphase).trans
  have hcounted : c'.tracker.Counted :=
    counted_of_transmit (c := { c with queues := c.queues.set lane q }) h.counted hsent
  have hpaid : Datagram.acknowledgements config.mtu d = c.tracker.pendingAcks.take n ∧
      c'.tracker.pendingAcks = c.tracker.pendingAcks.drop n := by
    rcases hcases with ⟨-, hd, rfl⟩ | ⟨-, e, retries, -, -, hd, rfl⟩
    · exact ⟨hd ▸ Message.acknowledgements_wire hm hroom.readable hlen, rfl⟩
    · exact ⟨hd ▸ Message.acknowledgements_wire hm hroom.readable hlen, rfl⟩
  refine h.pay hclosed hcounted rfl ?_
  show _ = [d].flatMap (Datagram.acknowledgements config.mtu) ++ _
  rw [List.flatMap_singleton, hpaid.1, hpaid.2, List.take_append_drop]

/-- The datagrams that are served take along what they take off the front. -/
theorem Owes.service {now : Instant} (h : Owes config.mtu l c)
    (hbooks : Books (fun m ↦ m.id ≠ .acks) config l c) (hmin : Config.minMtu ≤ config.mtu)
    (hs : Service now c k c') : Owes config.mtu (l ++ k) c' := by
  cases hs with
  | quiet hq => exact h.quiet (congrArg Config.mtu hbooks.config_eq) hmin hq
  | discard => exact h.silent id rfl rfl rfl rfl
  | holdBack => exact h.silent id rfl rfl rfl rfl
  | transmit htake hsent => exact h.transmit hbooks htake hsent

/-- **Every move keeps the balance.** -/
theorem Owes.move (h : Owes config.mtu l c) (hbooks : Books (fun m ↦ m.id ≠ .acks) config l c)
    (hmin : Config.minMtu ≤ config.mtu) (hm : Move (fun m ↦ m.id ≠ .acks) c k c') :
    Owes config.mtu (l ++ k) c' := by
  have hclosed := hm.isClosed
  cases hm with
  | service hs => exact h.service hbooks hmin hs
  | arrival ha => exact h.arrival ha
  | queue | sample => exact h.silent hclosed rfl rfl rfl rfl
  | acknowledge _ n now =>
    obtain ⟨r, hr, -⟩ := Tracker.acknowledge_snd n now c.tracker
    refine h.silent hclosed ?_ ?_ (filterMap_map_eq_nil (fun _ ↦ rfl) _)
      (filterMap_map_eq_nil (fun _ ↦ rfl) _) <;> rw [hr]
  | outdate _ now =>
    have hsame : (c.dropOutdated now).2.tracker.pendingAcks = c.tracker.pendingAcks ∧
        (c.dropOutdated now).2.tracker.ackBytes = c.tracker.ackBytes := by
      rw [dropOutdated]
      split <;> exact ⟨rfl, rfl⟩
    exact h.silent hclosed hsame.1 hsame.2 (filterMap_map_eq_nil (fun _ ↦ rfl) _)
      (filterMap_map_eq_nil (fun _ ↦ rfl) _)
  | expire _ now =>
    obtain ⟨-, q, hsnd, -⟩ := collectExpired_eq now hbooks.ordered rfl
    refine h.silent hclosed ?_ ?_ (filterMap_map_eq_nil (fun _ ↦ rfl) _)
      (filterMap_map_eq_nil (fun _ ↦ rfl) _) <;> rw [hsnd]
  | close => exact ⟨fun _ ↦ rfl, fun hopen ↦ by cases hopen⟩

theorem Fresh.owes (h : Fresh config c) : Owes config.mtu [] c where
  counted _ := h.ackBytes
  balanced _ := by
    rw [h.pendingAcks]
    rfl

/-- **What a circuit owes is what it acknowledged and will acknowledge,** whatever it does. -/
theorem Traced.owes (h : Traced (fun m ↦ m.id ≠ .acks) config l c)
    (hmin : Config.minMtu ≤ config.mtu) : Owes config.mtu l c :=
  h.invariant Fresh.owes fun hbooks howes hm ↦ howes.move hbooks hmin hm

/-! ### Whole lives -/

/-- The number of a reliable datagram that the operation brings. -/
def Operation.owed? : Operation → Option UInt32
  | receive p _ _ => if p.isReliable then some p.header.sequence else none
  | _ => none

/-- What an operation brings to an open circuit is owed from then on, and nothing else is. -/
theorem owed_events {o : Operation} {f f' : Forest} {answer : Answer} (hopen : c.isClosed = false)
    (h : c.apply o f = .ok (answer, c', f')) : owed (c.events o f) = o.owed?.toList := by
  cases o with
  | receive p length now =>
    obtain ⟨disposition, (hd : (c.receive p length now).1 = .ok disposition), -⟩ :=
      bind_eq_ok_iff.1 h
    have hne := ne_closed_of_receive hopen hd
    have hevents : c.events (.receive p length now) f =
        (c.acknowledge p.acks now).1.map (.acknowledged · now) ++ [.arrived p disposition] :=
      arrivalEvents_of_open hopen hd
    have hacks : owed ((c.acknowledge p.acks now).1.map (.acknowledged · now)) = [] :=
      filterMap_map_eq_nil (fun _ ↦ rfl) _
    rw [hevents, owed_append, hacks, Operation.owed?]
    cases hp : p.isReliable <;> simp [owed, Event.owed?, hp, hne]
  | _ =>
    -- nothing but an arrival is owed, and nothing arrives otherwise
    refine List.filterMap_eq_nil_iff.2 fun e he ↦ ?_
    cases e with
    | arrived p disposition =>
      obtain ⟨_, _, _, ho, -⟩ | ⟨_, _, _, -, hx, -⟩ := of_mem_events he trivial
      · cases ho
      · cases hx
    | _ => rfl

/-- **What is owed in a history** are the numbers that it was given. -/
theorem owed_history {ops : List (Operation × Forest)} {l : List Moment}
    (hops : ∀ o ∈ ops, o.1 ≠ .close) (hopen : c.isClosed = false)
    (h : chronicle ops c = .ok (l, c')) : owed (history l) = ops.filterMap (·.1.owed?) := by
  induction ops generalizing c l with
  | nil =>
    obtain ⟨rfl, -⟩ := Prod.mk.inj (Except.ok.inj h)
    rfl
  | cons o ops ih =>
    obtain ⟨answer, next, forest, l', ho, hrest, rfl⟩ := chronicle_cons_eq_ok h
    have hnext := (isClosed_of_apply (hops o List.mem_cons_self) ho).trans hopen
    rw [history_cons, owed_append, owed_events hopen ho,
      ih (fun o' ho' ↦ hops o' (List.mem_cons_of_mem _ ho')) hnext hrest]
    cases hnumber : o.1.owed? <;> simp [hnumber]

/-- What was sent according to the record is what the answers say. -/
theorem emissions_history {l : List Moment} (h : ∀ m ∈ l, m.Agrees) :
    emissions (history l) = l.flatMap (·.answer.datagrams) := by
  induction l with
  | nil => rfl
  | cons m l ih =>
    rw [history_cons, emissions_append, ih fun m' hm' ↦ h m' (List.mem_cons_of_mem _ hm'),
      List.flatMap_cons, (h m List.mem_cons_self).datagrams, emissions]

/-- **No acknowledgement is lost, made up, sent twice or moved.** The numbers of the reliable datagrams
that an open circuit took in are those that its datagrams acknowledged, in the same order, followed by
those that wait; and octets are counted only while some wait. -/
theorem acknowledges_in_order {session : Session} {address : Address} {root : BucketId}
    {now : Instant} {f : Forest} {ops : List (Operation × Forest)} {l : List Moment}
    (hvalid : config.Valid)
    (hops : ∀ o ∈ ops, Operation.QueuesOnly (fun m ↦ m.id ≠ .acks) o.1 ∧ o.1 ≠ .close)
    (hlive : live session address config root now f ops = .ok (l, c)) :
    ops.filterMap (·.1.owed?) =
        (l.flatMap (·.answer.datagrams)).flatMap (Datagram.acknowledgements config.mtu) ++
          c.tracker.pendingAcks ∧
      (c.tracker.pendingAcks = [] → c.tracker.ackBytes = 0) := by
  have hlived : Lived (fun m ↦ m.id ≠ .acks) config l c :=
    ⟨session, address, root, now, f, ops, fun o ho ↦ (hops o ho).1, hlive⟩
  have howes := hlived.traced.owes hvalid.minMtu_le
  obtain ⟨c₀, f', hopened, hrun⟩ := live_eq_ok hlive
  have hopen := (fresh_of_opened hopened).isOpen
  have hstill := (isClosed_of_chronicle (fun o ho ↦ (hops o ho).2) hrun).trans hopen
  rw [← owed_history (fun o ho ↦ (hops o ho).2) hopen hrun, ← emissions_history hlived.agrees]
  exact ⟨howes.balanced hstill, howes.counted⟩

/-- A reliable datagram with the given number. -/
def reliablePacket (n : UInt32) : Packet :=
  ⟨{ flags := { reliable := true }, sequence := n }, .high 9, [], []⟩

/-- A life in which one of three acknowledgements travels along with a datagram, the others are sent in
one of their own, and another one waits. -/
def owingOperations : List (Operation × Forest) :=
  [.receive (reliablePacket 5) 20 (10 * Span.millisecond),
    .receive (reliablePacket 6) 20 (11 * Span.millisecond),
    .receive (reliablePacket 5) 20 (12 * Span.millisecond),
    .send (.throttled .task) { id := .high 5, payload := List.replicate 113 1 } true false,
    .tick (20 * Span.millisecond), .flushAcks,
    .receive (reliablePacket 8) 20 (30 * Span.millisecond)].map
    (·, ⟨List.replicate 9 (.full [] 0 0 0)⟩)

theorem acknowledges_in_order_of_owing :
    (Config.Valid { mtu := 128 } ∧
      ∀ o ∈ owingOperations, Operation.QueuesOnly (fun m ↦ m.id ≠ .acks) o.1 ∧ o.1 ≠ .close) ∧
    ∃ l c, live ⟨.ofNat 7, .ofNat 8, 99, none⟩ (.loopback 5) { mtu := 128 } 0 0 {}
        owingOperations = .ok (l, c) ∧
      (l.flatMap (·.answer.datagrams)).map (Datagram.acknowledgements 128) = [[5], [6, 5]] ∧
      owingOperations.filterMap (·.1.owed?) =
        (l.flatMap (·.answer.datagrams)).flatMap (Datagram.acknowledgements 128) ++
          c.tracker.pendingAcks ∧
      (c.tracker.pendingAcks = [] → c.tracker.ackBytes = 0) := by
  have hvalid : Config.Valid { mtu := 128 } := Config.valid_iff _ |>.2 (by decide +kernel)
  have hops : ∀ o ∈ owingOperations,
      Operation.QueuesOnly (fun m ↦ m.id ≠ .acks) o.1 ∧ o.1 ≠ .close := by
    simp [owingOperations, Operation.QueuesOnly, MessageId.acks]
  obtain ⟨⟨l, c⟩, hlive, htest⟩ := exists_eq_ok_of_any
    (x := live ⟨.ofNat 7, .ofNat 8, 99, none⟩ (.loopback 5) { mtu := 128 } 0 0 {} owingOperations)
    (p := fun r ↦ decide
      ((r.1.flatMap (·.answer.datagrams)).map (Datagram.acknowledgements 128) = [[5], [6, 5]]))
    (by decide +kernel)
  have hacks := of_decide_eq_true htest
  have hordered := acknowledges_in_order hvalid hops hlive
  exact ⟨⟨hvalid, hops⟩, l, c, hlive, hacks, hordered⟩

end Circuit

end DatagramCircuits
