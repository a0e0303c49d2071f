import DatagramCircuits.Proofs.Books
import DatagramCircuits.Proofs.Signals
/-!
# What a circuit sends can be read

Every datagram that a circuit sends is at most as long as its MTU, and is read under that MTU: as a piece
of a message that was sent before, or as one of the messages that circuits send of their own accord. None
of the latter is ever lost in framing (`legible_of_live`).

Acknowledgements that travel along take only the room that is left (`length_appendAcks_le`), so the
length of a datagram out of a queue stays within the bound that framing kept. What is read does not depend
on them (`Message.parse_wire`).
-/

namespace DatagramCircuits

/-! ### Lengths -/

namespace Datagram

variable {mtu : Nat} {d : Octets}

/-- **Acknowledgements never make a datagram too long.** -/
theorem length_appendAcks_le (acks : List UInt32) (h : d.length ≤ mtu) :
    (appendAcks mtu acks d).2.length ≤ mtu := by
  rw [appendAcks]
  dsimp only
  split
  · exact h
  · rename_i hsome
    have hroom : appendable mtu d.length acks.length ≤ (mtu - (d.length + 1)) / 4 :=
      (Nat.min_le_left ..).trans (Nat.min_le_right ..)
    rw [List.length_set, List.length_append, length_ackTrailer, List.length_take]
    omega

end Datagram

namespace Circuit

theorem length_piggyback_le {mtu : Nat} {d : Octets} (p : Outgoing) (t : Tracker)
    (h : d.length ≤ mtu) : (piggyback mtu p d t).1.length ≤ mtu := by
  rw [piggyback]
  split
  · exact Datagram.length_appendAcks_le _ h
  · exact h

/-- A datagram that fits still fits when it is sent. -/
theorem length_le_of_transmit {c c' : Circuit} {p : Outgoing} {now : Instant} {d : Octets}
    (hp : p.buffer.length ≤ c.config.mtu) (h : c.transmit p now = .ok (d, c')) :
    d.length ≤ c.config.mtu := by
  obtain ⟨buffer, t, hlength, -, rfl, -⟩ := exists_of_transmit h
  exact length_piggyback_le p t (hlength ▸ hp)

end Circuit

/-! ### What is read -/

/-- The packet is a piece of a message with the property, or a message that circuits send of their own
accord. -/
inductive Packet.IsKnown (P : Message → Prop) (mtu : Nat) (q : Packet) : Prop
  /-- Octets that follow one another in the payload of the message, under its id. -/
  | piece (m : Message) (hm : P m) (hid : q.id = m.id) (hpiece : q.payload <:+: m.payload)
  /-- The body is read back as the message with nothing left over, and the number is 0. -/
  | control (m : Control) (hm : m.IsRoutine mtu) (hsequence : q.header.sequence = 0)
    (hread : Control.read q.id q.payload = .ok (some m, []))

/-- The datagram is not too long, and is read as something known. -/
structure Datagram.Understood (P : Message → Prop) (mtu : Nat) (d : Octets) : Prop where
  short : d.length ≤ mtu
  read : ∃ q, Datagram.parse mtu d = .ok q ∧ q.IsKnown P mtu

namespace Circuit

variable {P : Message → Prop} {config : Config} {mtu : Nat} {l k : List Event} {c c' : Circuit}
  {d : Octets}

/-- A message that circuits send of their own accord is understood. -/
theorem understood_of_signal {m : Control} (hroutine : m.IsRoutine mtu) (hmin : Config.minMtu ≤ mtu)
    (hd : signal mtu m = .ok d) : Datagram.Understood P mtu d := by
  have hroom : m.message.HasRoomFor mtu m.body := by
    obtain ⟨hpos, hle⟩ := hroutine.length_body_le hmin
    refine ⟨List.infix_rfl, readable_id m, ?_⟩
    show Header.fixedLength + m.id.encodedLength + m.body.length ≤ mtu
    rw [Message.roomFor] at hpos hle
    omega
  refine ⟨?_, _, parse_of_signal hd, .control m hroutine rfl hroutine.read_body⟩
  rw [eq_of_signal hd]
  exact hroom.length_datagram_le false 0

/-- Whatever a quiet move sends is understood. -/
theorem understood_of_quiet (hmin : Config.minMtu ≤ c.config.mtu) (hq : Quiet c k c')
    (hd : d ∈ emissions k) : Datagram.Understood P c.config.mtu d := by
  obtain rfl | ⟨m, hroutine, rfl⟩ := hq.exists_routine
  · exact absurd hd List.not_mem_nil
  · exact understood_of_signal hroutine hmin (signal_of_mem_emissions hd)

/-- **A transmission** is a piece of a message, whatever travels along with it. -/
theorem understood_of_transmit (hmtu : Datagram.expansionFactor * config.mtu < 2 ^ 64)
    (hbooks : Books P config l c) {lane : Lane} {p : Outgoing} {q : LaneQueue} {now : Instant}
    (htake : (c.queues.get lane).take? c.isUseful = (some p, q))
    (hsent : { c with queues := c.queues.set lane q }.transmit p now = .ok (d, c')) :
    Datagram.Understood P config.mtu d := by
  have hwaits := hbooks.queues lane p (mem_of_take? htake).1
  obtain ⟨m, reliable, piece, n, bytes, hm, hroom, hbuffer, hn, hcases⟩ :=
    transmit_cases (c := { c with queues := c.queues.set lane q }) hwaits.carries
      (LaneQueue.take?_eq_some htake).1 hsent
  have hlen : (c.tracker.pendingAcks.take n).length ≤ Datagram.maxAppendedAcks :=
    Nat.le_trans (List.length_take_le ..) hn
  have hshort : p.buffer.length ≤ c.config.mtu := by
    rw [hbuffer, hbooks.config_eq]
    exact hroom.length_datagram_le reliable p.sequence
  refine ⟨?_, ?_⟩
  · rw [← hbooks.config_eq]
    exact length_le_of_transmit (c := { c with queues := c.queues.set lane q }) hshort hsent
  · rcases hcases with ⟨-, hd, -⟩ | ⟨-, e, retries, -, -, hd, -⟩
    · exact ⟨_, hd ▸ Message.parse_wire hmtu hroom reliable false _ hlen,
        .piece m hm rfl hroom.isInfix⟩
    · exact ⟨_, hd ▸ Message.parse_wire hmtu hroom reliable true _ hlen,
        .piece m hm rfl hroom.isInfix⟩

/-- **Whatever a move sends is understood.** -/
theorem understood_of_move (hmin : Config.minMtu ≤ config.mtu)
    (hmtu : Datagram.expansionFactor * config.mtu < 2 ^ 64) (hbooks : Books P config l c)
    (hm : Move P c k c') (hd : d ∈ emissions k) : Datagram.Understood P config.mtu d := by
  have hnone {α : Type} {g : α → Event} (hg : ∀ a, (g a).datagram? = none) {as : List α}
      (hmem : d ∈ emissions (as.map g)) : Datagram.Understood P config.mtu d := by
    rw [emissions, filterMap_map_eq_nil hg] at hmem
    exact absurd hmem List.not_mem_nil
  cases hm with
  | service hs =>
    cases hs with
    | quiet hq => exact hbooks.config_eq ▸ understood_of_quiet (hbooks.config_eq ▸ hmin) hq hd
    | discard | holdBack => exact absurd hd List.not_mem_nil
    | transmit htake hsent =>
      obtain rfl := List.mem_singleton.1 hd
      exact understood_of_transmit hmtu hbooks htake hsent
  | arrival ha =>
    obtain ⟨p, disposition, rfl⟩ := ha.exists_arrived
    exact absurd hd List.not_mem_nil
  | queue | sample => exact absurd hd List.not_mem_nil
  | acknowledge | outdate | expire | close => exact hnone (fun _ ↦ rfl) hd

/-- **Whatever a circuit sends is understood.** -/
theorem Traced.understood (h : Traced P config l c) (hmin : Config.minMtu ≤ config.mtu)
    (hmtu : Datagram.expansionFactor * config.mtu < 2 ^ 64) :
    ∀ d ∈ emissions l, Datagram.Understood P config.mtu d := by
  refine h.invariant (motive := fun l _ ↦ ∀ d ∈ emissions l, Datagram.Understood P config.mtu d)
    (fun _ d hd ↦ absurd hd List.not_mem_nil) fun hbooks hl hm d hd ↦ ?_
  rw [emissions_append] at hd
  exact (List.mem_append.1 hd).elim (hl d) (understood_of_move hmin hmtu hbooks hm)

/-! ### Messages that were sent -/

/-- The message was sent in one of the moments, and was not refused then. -/
def Sent (ops : List (Operation × Forest)) (l : List Moment) (m : Message) : Prop :=
  ∃ category reliable notify f answered,
    ((Operation.send category m reliable notify, f), answered) ∈ ops.zip l ∧
      answered.answer = .queued

/-- A message that is refused is not queued, and nothing else happens then. -/
theorem moves_of_apply_of_queued {o : Operation} {f f' : Forest} {answer : Answer}
    (ho : o.QueuesOnly fun _ ↦ True)
    (hP : ∀ category m reliable notify,
      o = .send category m reliable notify → answer = .queued → P m)
    (h : c.apply o f = .ok (answer, c', f')) : Chain (Move P) c (c.events o f) c' := by
  cases o with
  | send category m reliable notify =>
    cases h
    cases hs : c.send category m reliable notify with
    | ok next =>
      have hm := hP category m reliable notify rfl (by rw [hs]; rfl)
      exact hs ▸ chain_send hm
    | error e =>
      rw [events, sendEvents, hs]
      exact Chain.refl
  | enqueue p => exact ho.elim
  | _ => exact moves_of_apply (P := P) trivial h

/-- A chronicle is a chain of moves that queue nothing but what was sent in it. -/
theorem chain_of_chronicle_of_sent {ops : List (Operation × Forest)} {l : List Moment}
    (hops : ∀ o ∈ ops, Operation.QueuesOnly (fun _ ↦ True) (Prod.fst o))
    (hP : ∀ m, Sent ops l m → P m) (h : chronicle ops c = .ok (l, c')) :
    Chain (Move P) c (history l) c' := by
  induction ops generalizing c l with
  | nil =>
    obtain ⟨rfl, rfl⟩ := Prod.mk.inj (Except.ok.inj h)
    exact Chain.refl
  | cons o ops ih =>
    obtain ⟨answer, next, forest, l', ho, hrest, rfl⟩ := chronicle_cons_eq_ok h
    have hfirst : Chain (Move P) c (c.events o.1 o.2) next := by
      refine moves_of_apply_of_queued (hops o List.mem_cons_self) ?_ ho
      intro category m reliable notify heq hanswer
      refine hP m ⟨category, reliable, notify, o.2, ⟨answer, c.events o.1 o.2⟩, ?_, hanswer⟩
      rw [← heq]
      exact List.mem_cons_self
    refine hfirst.trans (ih (fun o' ho' ↦ hops o' (List.mem_cons_of_mem _ ho')) ?_ hrest)
    rintro m ⟨category, reliable, notify, f, answered, hmem, hanswer⟩
    exact hP m ⟨category, reliable, notify, f, answered, List.mem_cons_of_mem _ hmem, hanswer⟩

/-! ### Whole lives -/

/-- Whatever the circuit sends next is understood, and none of the messages that it sends of its own
accord gets lost in framing. -/
structure Legible (P : Message → Prop) (c : Circuit) : Prop where
  /-- The datagrams in the answer to any operation are understood. -/
  understood : ∀ {o f answer c' f'}, c.apply o f = .ok (answer, c', f') →
    ∀ d ∈ answer.datagrams, Datagram.Understood P c.config.mtu d
  /-- Whatever acknowledgements may wait, all groups of them have their datagrams. -/
  acks : ∀ c₁ : Circuit, c₁.config = c.config →
    ∀ s ∈ Octets.pieces (acksPerDatagram c₁.config.mtu) c₁.tracker.pendingAcks,
      ∃ d, signal c₁.config.mtu (.acks s) = .ok d
  /-- A ping has its datagram. -/
  ping : ∀ c₁ : Circuit, c₁.config = c.config → ∃ d, signal c₁.config.mtu c₁.pingMessage = .ok d
  /-- The answer to a ping has its datagram. -/
  pong : ∀ c₁ : Circuit, c₁.config = c.config → ∀ id, ∃ d, c₁.answerPing id = .ok d

/-- An operation that queues something sends nothing at once. -/
theorem queuesOnly_of_mem_datagrams {o : Operation} {f f' : Forest} {answer : Answer}
    (h : c.apply o f = .ok (answer, c', f')) (hd : d ∈ answer.datagrams) : o.QueuesOnly P := by
  cases o with
  | send category m reliable notify =>
    cases h
    rw [(silent_queuing c (c.send category m reliable notify)).1] at hd
    exact absurd hd List.not_mem_nil
  | enqueue p =>
    cases h
    rw [(silent_queuing c (c.enqueue p)).1] at hd
    exact absurd hd List.not_mem_nil
  | _ => trivial

theorem Traced.legible (h : Traced P config l c) (hmin : Config.minMtu ≤ config.mtu)
    (hmtu : Datagram.expansionFactor * config.mtu < 2 ^ 64) : c.Legible P := by
  have hconfig := h.books.config_eq
  constructor
  · intro o f answer c' f' ho d hd
    rw [hconfig]
    have hrecord : answer.datagrams = emissions (c.events o f) := (agrees_of_apply ho).datagrams
    refine (h.apply (queuesOnly_of_mem_datagrams ho hd) ho).understood hmin hmtu d ?_
    rw [emissions_append]
    exact List.mem_append_right _ (hrecord ▸ hd)
  -- framing depends on nothing but the MTU, which is the same in every circuit with these settings
  · intro c₁ hc₁ s hs
    rw [← hconfig, ← hc₁] at hmin
    exact Control.IsRoutine.exists_signal (m := .acks s) (Octets.length_le_of_mem_pieces hs) hmin
  · intro c₁ hc₁
    rw [← hconfig, ← hc₁] at hmin
    exact Control.IsRoutine.exists_signal (m := c₁.pingMessage) trivial hmin
  · intro c₁ hc₁ id
    rw [← hconfig, ← hc₁] at hmin
    exact Control.IsRoutine.exists_signal (m := .pong id) trivial hmin

/-- **Whatever a circuit sends can be read, and none of its own messages gets lost.** -/
theorem legible_of_live {session : Session} {address : Address} {root : BucketId} {now : Instant}
    {f : Forest} {ops : List (Operation × Forest)} {l : List Moment} (hvalid : config.Valid)
    (hmtu : Datagram.expansionFactor * config.mtu < 2 ^ 64)
    (hops : ∀ o ∈ ops, Operation.QueuesOnly (fun _ ↦ True) (Prod.fst o))
    (hlive : live session address config root now f ops = .ok (l, c)) :
    c.config = config ∧ c.Legible (Sent ops l) := by
  obtain ⟨c₀, f', hopened, hrun⟩ := live_eq_ok hlive
  have htraced : Traced (Sent ops l) config (history l) c :=
    ⟨c₀, fresh_of_opened hopened, chain_of_chronicle_of_sent hops (fun _ hm ↦ hm) hrun⟩
  exact ⟨htraced.books.config_eq, htraced.legible hvalid.minMtu_le hmtu⟩

/-- A life after which a tick sends acknowledgements, a ping, and the first part of a message that is
zero-coded. -/
def sendingOperations : List (Operation × Forest) :=
  [.receive ⟨{ flags := { reliable := true }, sequence := 5 }, .high 9, [], []⟩ 20 (10 * Span.millisecond),
    .send (.throttled .task)
      { id := .high 5, payload := List.replicate 9 0 ++ List.replicate 150 1, zeroCoded := true }
      true false].map (·, ⟨List.replicate 9 (.full [] 0 0 0)⟩)

theorem legible_of_sending :
    (Config.Valid { mtu := 128 } ∧ Datagram.expansionFactor * 128 < 2 ^ 64 ∧
      ∀ o ∈ sendingOperations, Operation.QueuesOnly (fun _ ↦ True) (Prod.fst o)) ∧
    ∃ l c, live ⟨.ofNat 7, .ofNat 8, 99, none⟩ (.loopback 5) { mtu := 128 } 0 0 {}
        sendingOperations = .ok (l, c) ∧
      (c.apply (.tick (6000 * Span.millisecond)) ⟨List.replicate 9 (.full [] 0 0 0)⟩).toOption.map
        (·.1.datagrams.map List.length) = some [15, 12, 121] ∧
      c.config = { mtu := 128 } ∧ c.Legible (Sent sendingOperations l) := by
  have hvalid : Config.Valid { mtu := 128 } := Config.valid_iff _ |>.2 (by decide +kernel)
  have hmtu : Datagram.expansionFactor * 128 < 2 ^ 64 := by decide
  have hops : ∀ o ∈ sendingOperations, Operation.QueuesOnly (fun _ ↦ True) (Prod.fst o) := by
    simp [sendingOperations, Operation.QueuesOnly]
  obtain ⟨⟨l, c⟩, hlive, htest⟩ := exists_eq_ok_of_any
    (x := live ⟨.ofNat 7, .ofNat 8, 99, none⟩ (.loopback 5) { mtu := 128 } 0 0 {} sendingOperations)
    (p := fun r ↦ decide
      ((r.2.apply (.tick (6000 * Span.millisecond)) ⟨List.replicate 9 (.full [] 0 0 0)⟩).toOption.map
        (·.1.datagrams.map List.length) = some [15, 12, 121])) (by decide +kernel)
  have hsent := of_decide_eq_true htest
  have hlegible := legible_of_live hvalid hmtu hops hlive
  exact ⟨⟨hvalid, hmtu, hops⟩, l, c, hlive, hsent, hlegible⟩

end Circuit

end DatagramCircuits
