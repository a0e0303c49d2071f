import DatagramCircuits.Proofs.Moves
/-!
# Operations as chains of moves

Every operation of a circuit is a chain of moves, and the record of the chain is the record of the
operation (`moves_of_apply`). A tick is taken apart further: it looks for datagrams to be sent again, and
what follows are moves of service at its instant (`Turn.Serves`).
-/

namespace DatagramCircuits

namespace Circuit

variable {P : Message → Prop}

/-! ### Acknowledgements and pings -/

theorem acksPerDatagram_pos (mtu : Nat) : 0 < acksPerDatagram mtu :=
  Nat.lt_of_lt_of_le Nat.zero_lt_one (Nat.le_max_left ..)

theorem acksPerDatagram_le (mtu : Nat) : acksPerDatagram mtu ≤ Control.maxAcks :=
  Nat.max_le.2 ⟨by decide, Nat.min_le_right ..⟩

/-- Groups of acknowledgements are sent one after the other, off the front of what is pending. -/
theorem chain_sendAcks (c : Circuit) {parts : List (List UInt32)} {t : Tracker}
    (hparts : parts.flatten <+: t.pendingAcks)
    (hlen : ∀ s ∈ parts, s.length ≤ acksPerDatagram c.config.mtu) :
    Chain Quiet { c with tracker := t } ((sendAcks c.config.mtu parts t).1.map .signalled)
      { c with tracker := (sendAcks c.config.mtu parts t).2 } := by
  induction parts generalizing t with
  | nil => exact Chain.refl
  | cons s rest ih =>
    obtain ⟨behind, hbehind⟩ := hparts
    rw [List.flatten_cons, List.append_assoc] at hbehind
    -- the group is what is in front of all that waits
    have hpeek : t.peekAcks s.length = s := by
      rw [Tracker.peekAcks, ← hbehind, List.take_left]
    have hrest : rest.flatten <+: (t.takeAcks s.length).2.pendingAcks := by
      refine ⟨behind, ?_⟩
      rw [Tracker.takeAcks, ← hbehind, List.drop_left]
    have hstep := Quiet.acks { c with tracker := t } (hlen s List.mem_cons_self)
    have htail := ih hrest fun s' hs' ↦ hlen s' (List.mem_cons_of_mem _ hs')
    rw [hpeek, signalEvents] at hstep
    cases hs : signal c.config.mtu (.acks s) with
    | ok d =>
      rw [hs] at hstep
      simp only [sendAcks, hs]
      exact (Chain.single hstep).trans htail
    | error e =>
      rw [hs] at hstep
      simp only [sendAcks, hs]
      exact Chain.single hstep

theorem chain_ackDatagrams (c : Circuit) :
    Chain Quiet c ((ackDatagrams c.config.mtu c.tracker).1.map .signalled)
      { c with tracker := (ackDatagrams c.config.mtu c.tracker).2 } := by
  have hall := Octets.flatten_pieces (acksPerDatagram_pos c.config.mtu) c.tracker.pendingAcks
  refine chain_sendAcks c (t := c.tracker) ?_ fun s hs ↦ Octets.length_le_of_mem_pieces hs
  exact hall.symm ▸ List.prefix_rfl

/-- The record of a ping is that of its message. -/
theorem events_nextPingDatagram (c : Circuit) (now : Instant) :
    (c.nextPingDatagram now).1.toList.map .signalled = signalEvents c.config.mtu c.pingMessage := by
  rw [nextPingDatagram, signalEvents]
  cases signal c.config.mtu c.pingMessage <;> rfl

theorem quiet_nextPingDatagram (c : Circuit) (now : Instant) :
    Quiet c ((c.nextPingDatagram now).1.toList.map .signalled) (c.nextPingDatagram now).2 :=
  events_nextPingDatagram c now ▸ .ping c now

/-- A ping that is sent is the datagram of its message. -/
theorem signal_of_ping {c : Circuit} {now : Instant} {d : Octets} (h : (c.ping now).1 = some d) :
    signal c.config.mtu c.pingMessage = .ok d := by
  rw [ping, nextPingDatagram] at h
  cases hs : signal c.config.mtu c.pingMessage with
  | ok d' =>
    rw [hs] at h
    exact congrArg Except.ok (Option.some.inj h)
  | error e =>
    rw [hs] at h
    cases h

/-! ### Arriving datagrams -/

theorem chain_acknowledgeAll (c : Circuit) (l : List UInt32) (now : Instant) (t : Tracker) :
    Chain (Move P) { c with tracker := t }
      ((t.acknowledgeAll l now).1.map (.acknowledged · now))
      { c with tracker := (t.acknowledgeAll l now).2 } := by
  induction l generalizing t with
  | nil => exact Chain.refl
  | cons n rest ih =>
    have hstep := Move.acknowledge (P := P) { c with tracker := t } n now
    rw [Tracker.acknowledgeAll, List.map_append]
    exact (Chain.single hstep).trans (ih (t.acknowledge n now).2)

theorem chain_acknowledge (c : Circuit) (l : List UInt32) (now : Instant) :
    Chain (Move P) c ((c.acknowledge l now).1.map (.acknowledged · now)) (c.acknowledge l now).2 :=
  chain_acknowledgeAll c l now c.tracker

/-- A reliable datagram that is taken in without a fault is noted, and may have to be told of at
once. -/
theorem receiveReliable_eq_ok {p : Packet} {length : Nat} {c : Circuit} {disposition : Disposition}
    (h : (c.receiveReliable p length).1 = .ok disposition) :
    ∃ bytes flushAcks,
      disposition = reliableDisposition p (c.tracker.seen.offer p.header.sequence).1 flushAcks ∧
      (c.receiveReliable p length).2 = { c with tracker := takeReliable p bytes c.tracker } := by
  rw [receiveReliable] at h ⊢
  cases hq : c.tracker.queueAck p.header.sequence length with
  | error fault => simp [hq] at h
  | ok t =>
    obtain ⟨bytes, -, ht⟩ := bind_eq_ok_iff.1 hq
    obtain rfl := Except.ok.inj ht
    cases hknown : (c.tracker.seen.offer p.header.sequence).1 with
    | true =>
      simp only [hq, Tracker.offer, Tracker.owe, hknown, if_true, Except.ok.injEq] at h ⊢
      exact ⟨bytes, false, h.symm, rfl⟩
    | false =>
      simp only [hq, Tracker.offer, Tracker.owe, hknown, Bool.false_eq_true, if_false] at h ⊢
      obtain ⟨threshold, -, h⟩ := bind_eq_ok_iff.1 h
      obtain rfl := Except.ok.inj h
      exact ⟨bytes, _, rfl, rfl⟩

/-- An open circuit takes in whatever arrives. -/
theorem ne_closed_of_receive {p : Packet} {length : Nat} {now : Instant} {c : Circuit}
    {disposition : Disposition} (hopen : c.isClosed = false)
    (h : (c.receive p length now).1 = .ok disposition) : disposition ≠ .closed := by
  rw [receive, if_neg (by simp [hopen])] at h
  dsimp only at h
  split at h
  · obtain ⟨bytes, flushAcks, rfl, -⟩ := receiveReliable_eq_ok h
    rw [reliableDisposition]
    split <;> simp
  · cases h
    simp

/-- The record of what arrives at an open circuit. -/
theorem arrivalEvents_of_open {p : Packet} {length : Nat} {now : Instant} {c : Circuit}
    {disposition : Disposition} (hopen : c.isClosed = false)
    (h : (c.receive p length now).1 = .ok disposition) :
    c.arrivalEvents p length now =
      (c.acknowledge p.acks now).1.map (.acknowledged · now) ++ [.arrived p disposition] := by
  have hne := ne_closed_of_receive hopen h
  rw [arrivalEvents, h]
  cases disposition with
  | closed => exact absurd rfl hne
  | accept | duplicate => rfl

/-- First come the acknowledgements that a datagram brings. It is counted then, and the timer begins
anew. -/
theorem chain_heard (p : Packet) (now : Instant) (c : Circuit) :
    Chain (Move P) c ((c.acknowledge p.acks now).1.map (.acknowledged · now))
      { (c.acknowledge p.acks now).2 with
        received := (c.acknowledge p.acks now).2.received + 1, lastReceived := now } := by
  have hcount : Quiet (c.acknowledge p.acks now).2 []
      { (c.acknowledge p.acks now).2 with
        received := (c.acknowledge p.acks now).2.received + 1, lastReceived := now } :=
    .keep ⟨rfl, rfl, rfl, rfl, rfl, rfl, rfl⟩
  have hfirst := (chain_acknowledge (P := P) c p.acks now).tail (.quiet hcount)
  rwa [List.append_nil] at hfirst

/-- **Taking a datagram in** is a chain of acknowledgements, and then the move of its arrival. -/
theorem chain_receive {p : Packet} {length : Nat} {now : Instant} {c : Circuit}
    {disposition : Disposition} (h : (c.receive p length now).1 = .ok disposition) :
    Chain (Move P) c (c.arrivalEvents p length now) (c.receive p length now).2 := by
  rw [arrivalEvents, h]
  rw [receive] at h ⊢
  by_cases hclosed : c.isClosed = true
  · rw [if_pos hclosed] at h ⊢
    obtain rfl := Except.ok.inj h
    exact Chain.single (.arrival (.plain c p (.inl rfl)))
  · rw [if_neg hclosed] at h ⊢
    have hfirst := chain_heard (P := P) p now c
    by_cases hp : p.isReliable = true
    · simp only [hp, if_true] at h ⊢
      obtain ⟨bytes, flushAcks, hd, hc⟩ := receiveReliable_eq_ok h
      rw [hc]
      have harrive := hfirst.tail (.arrival (.reliable _ hp bytes flushAcks))
      rw [← hd] at harrive
      cases disposition with
      | closed =>
        rw [reliableDisposition] at hd
        split at hd <;> cases hd
      | accept flush => exact harrive
      | duplicate resent => exact harrive
    · simp only [hp, Bool.false_eq_true, if_false] at h ⊢
      obtain rfl := Except.ok.inj h
      exact hfirst.tail (.arrival (.plain _ p (.inr ⟨by simpa using hp, rfl⟩)))

/-! ### Queuing -/

theorem chain_push {lane : Lane} {notify : Bool} {mtu : Nat} {l : List Octets}
    (hl : ∀ buffer ∈ l,
      ({ category := .throttled lane, buffer, notify } : Outgoing).Carries P mtu) (c : Circuit)
    (hmtu : c.config.mtu = mtu) :
    Chain (Move P) c (l.map fun buffer ↦ .queued { category := .throttled lane, buffer, notify })
      (l.foldl (fun c buffer ↦ c.push lane { category := .throttled lane, buffer, notify }) c) := by
  induction l generalizing c with
  | nil => exact Chain.refl
  | cons buffer l ih =>
    subst hmtu
    have hstep := Move.queue c (hl buffer List.mem_cons_self)
    exact (Chain.single hstep).trans (ih (fun b hb ↦ hl b (List.mem_cons_of_mem _ hb)) _ rfl)

/-- **Sending** queues pieces of the message, or leaves the circuit as it is. -/
theorem chain_send {category : Category} {m : Message} {reliable notify : Bool} {c : Circuit}
    (hm : P m) :
    Chain (Move P) c (c.sendEvents category m reliable notify)
      (c.queuing (c.send category m reliable notify)).2 := by
  rw [sendEvents]
  cases hs : c.send category m reliable notify with
  | error e => exact Chain.refl
  | ok next =>
    cases category with
    | unthrottled => cases hs
    | throttled lane =>
      obtain ⟨l, hl, hs⟩ := bind_eq_ok_iff.1 hs
      rw [mapError_eq_ok_iff] at hl
      by_cases hclosed : c.isClosed = true
      · rw [if_pos hclosed] at hs
        cases hs
      · rw [if_neg hclosed] at hs
        obtain rfl := Except.ok.inj hs
        rw [hl]
        obtain ⟨parts, rfl, -, hroom⟩ := Message.exists_pieces_of_frame hl
        refine chain_push (fun buffer hb ↦ ?_) c rfl
        obtain ⟨piece, hpiece, rfl⟩ := List.mem_map.1 hb
        exact ⟨m, reliable, piece, hm, hroom piece hpiece, rfl⟩

end Circuit

end DatagramCircuits
