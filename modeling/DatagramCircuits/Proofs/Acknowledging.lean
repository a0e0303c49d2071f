import DatagramCircuits.Proofs.Courses
import DatagramCircuits.Proofs.Reading
/-!
# What a circuit acknowledges

A circuit that sends messages of the application acknowledges a number only after it took in a reliable
datagram with that number, whatever faults it meets (`Coursed.honest`).

The invariant is `Honest`, about any property of the numbers that are taken in. Numbers go from the
datagrams that arrive to those that wait to be acknowledged, and from there into datagrams; a number in
the window of those seen stands for a datagram that was taken in, since the same number may be
acknowledged again when a duplicate arrives. About the datagrams the invariant says what a reader finds
in them (`Sound`), so that nothing about their making is needed on the other side.
-/

namespace DatagramCircuits

namespace SeenWindow

variable {w : SeenWindow} {n x : UInt32}

theorem contains_of_contains_push (h : (w.push n).members.contains x = true) :
    x = n ∨ w.members.contains x = true := by
  rw [push, Std.TreeSet.contains_insert, Bool.or_eq_true, beq_iff_eq,
    Std.LawfulEqCmp.compare_eq_iff_eq] at h
  exact h.imp_left Eq.symm

theorem contains_of_contains_evict (h : w.evict.members.contains x = true) :
    w.members.contains x = true := by
  rw [evict] at h
  split at h
  · exact h
  · exact Std.TreeSet.contains_of_contains_erase h

/-- Only the number that is offered comes into the window. -/
theorem contains_of_contains_offer (h : (w.offer n).2.members.contains x = true) :
    x = n ∨ w.members.contains x = true := by
  rw [offer] at h
  split at h
  · exact .inr h
  · rcases contains_of_contains_push h with rfl | h
    · exact .inl rfl
    · split at h
      · exact .inr (contains_of_contains_evict h)
      · exact .inr h

/-- A number is known when it is in the window. -/
theorem offer_fst : (w.offer n).1 = w.members.contains n := by
  rw [offer]
  cases h : w.members.contains n <;> simp

end SeenWindow

namespace Circuit

variable {V : UInt32 → Prop} {config : Config} {mtu : Nat} {l k : List Event} {c c' : Circuit}
  {d : Octets}

/-! ### The invariant -/

/-- What a reader finds in the datagram is right: the numbers have the property, and what is reliable is
in the record. -/
structure Sound (mtu : Nat) (V : UInt32 → Prop) (l : List Event) (d : Octets) : Prop where
  /-- What is acknowledged in it has the property. -/
  taken : ∀ {q n}, Datagram.parse mtu d = .ok q → q.Acknowledges n → V n
  /-- If it is reliable, it was sent out of a queue under the number that is read, and its message is
  read also without what its transmission added. -/
  transmitted : ∀ {q}, Datagram.parse mtu d = .ok q → q.isReliable = true →
    ∃ p now y, .transmitted p d now ∈ l ∧ Datagram.sequence d = q.header.sequence ∧
      (Datagram.flags d).reliable = true ∧ Datagram.parse mtu (Datagram.bare d) = .ok y ∧
      y.id = q.id ∧ y.payload = q.payload

/-- What a circuit acknowledges, and will acknowledge, has the property. -/
structure Honest (mtu : Nat) (V : UInt32 → Prop) (l : List Event) (c : Circuit) : Prop where
  pending : ∀ n ∈ c.tracker.pendingAcks, V n
  seen : ∀ {n}, c.tracker.seen.members.contains n = true → V n
  emitted : ∀ d ∈ emissions l, Sound mtu V l d

/-- The record may grow. -/
theorem Sound.mono (h : Sound mtu V l d) (k : List Event) : Sound mtu V (l ++ k) d where
  taken := h.taken
  transmitted hq hreliable := by
    obtain ⟨p, now, y, hmem, h⟩ := h.transmitted hq hreliable
    exact ⟨p, now, y, List.mem_append_left k hmem, h⟩

/-! ### Datagrams -/

/-- **A piece of a message of the application** is sound, if what is put behind it has the property. -/
theorem sound_wire {m : Message} {piece : Octets} {reliable resent : Bool} {n : UInt32}
    {acks : List UInt32} {p : Outgoing} {now : Instant} (hm : m.IsApplication)
    (hid : m.id.Readable) (hlen : acks.length ≤ Datagram.maxAppendedAcks)
    (hacks : ∀ n ∈ acks, V n) (hmem : .transmitted p d now ∈ l)
    (hd : d = Datagram.wire { reliable, resent, zeroCoded := m.isCoded piece } n (m.codedBody piece)
      acks) : Sound mtu V l d := by
  constructor
  · intro q x hq hx
    rw [hd] at hq
    obtain ⟨hqid, -, -, -, hqacks, -⟩ := Message.eq_of_parse_wire hid hlen hq
    exact hacks x (Message.mem_of_acknowledges hm hqid hqacks hx)
  · intro q hq hreliable
    have hwire := hq
    rw [hd] at hwire
    obtain ⟨hqid, hpayload, hsequence, hflag, -, hplain⟩ :=
      Message.eq_of_parse_wire hid hlen hwire
    have hbare : Datagram.bare d = m.datagram reliable n piece := by
      rw [hd, Datagram.bare_wire rfl n _ hlen]
      rfl
    refine ⟨p, now, _, hmem, ?_, ?_, hbare ▸ hplain, hqid.symm, hpayload.symm⟩
    · rw [hd, Datagram.sequence_wire, hsequence]
    · rw [hd, Datagram.flags_wire rfl]
      exact hflag.symm.trans hreliable

/-- **A message of the protocol** is sound, if what it acknowledges has the property. -/
theorem sound_signal {m : Control} (hd : signal mtu m = .ok d)
    (h : ∀ sequences, m = .acks sequences →
      sequences.length ≤ Control.maxAcks ∧ ∀ n ∈ sequences, V n) : Sound mtu V l d := by
  constructor
  · intro q n hq hn
    obtain ⟨sequences, hm, hmem⟩ := eq_acks_of_acknowledges hd hq hn
    obtain ⟨hlen, hall⟩ := h sequences hm
    exact hall n (hmem hlen)
  · intro q hq hreliable
    obtain ⟨-, -, hno, -⟩ := eq_of_parse_signal hd hq
    rw [hno] at hreliable
    exact absurd hreliable (by simp)

/-! ### Moves -/

/-- **What takes nothing in** stays honest, if what it sends is sound. -/
theorem Honest.send (h : Honest mtu V l c)
    (hpending : ∀ n ∈ c'.tracker.pendingAcks, n ∈ c.tracker.pendingAcks)
    (hseen : c'.tracker.seen = c.tracker.seen) (hk : ∀ d ∈ emissions k, Sound mtu V (l ++ k) d) :
    Honest mtu V (l ++ k) c' where
  pending n hn := h.pending n (hpending n hn)
  seen hn := h.seen (hseen ▸ hn)
  emitted d hd := by
    rw [emissions_append] at hd
    rcases List.mem_append.1 hd with hd | hd
    · exact (h.emitted d hd).mono k
    · exact hk d hd

/-- What neither sends anything nor takes anything in stays honest. -/
theorem Honest.silent (h : Honest mtu V l c) (hpending : c'.tracker.pendingAcks = c.tracker.pendingAcks)
    (hseen : c'.tracker.seen = c.tracker.seen) (hk : emissions k = []) : Honest mtu V (l ++ k) c' := by
  refine h.send (fun n hn ↦ hpending ▸ hn) hseen ?_
  intro d hd
  rw [hk] at hd
  exact absurd hd List.not_mem_nil

theorem Honest.quiet (h : Honest mtu V l c) (hmtu : c.config.mtu = mtu) (hq : Quiet c k c') :
    Honest mtu V (l ++ k) c' := by
  subst hmtu
  cases hq with
  | keep hsame =>
    exact h.silent (congrArg Tracker.pendingAcks hsame.tracker) (congrArg Tracker.seen hsame.tracker)
      rfl
  | @acks n hn =>
    refine h.send (fun n hn ↦ List.mem_of_mem_drop hn) rfl ?_
    intro d hd
    refine sound_signal (signal_of_mem_emissions hd) ?_
    intro sequences heq
    cases heq
    have hcount := hn.trans (acksPerDatagram_le _)
    refine ⟨Nat.le_trans (List.length_take_le ..) hcount, fun x hx ↦ ?_⟩
    exact h.pending x (List.mem_of_mem_take hx)
  | ping now =>
    have hsame : (c.nextPingDatagram now).2.tracker = c.tracker := by
      rw [nextPingDatagram]
      split <;> rfl
    refine h.send (fun n hn ↦ hsame ▸ hn) (congrArg Tracker.seen hsame) ?_
    intro d hd
    exact sound_signal (signal_of_mem_emissions hd) fun sequences heq ↦ by cases heq
  | pong id =>
    refine h.send (fun n hn ↦ hn) rfl ?_
    intro d hd
    exact sound_signal (signal_of_mem_emissions hd) fun sequences heq ↦ by cases heq

/-- What takes a number in stays honest, if the number has the property. -/
theorem Honest.owe (h : Honest mtu V l c) {n : UInt32} (hn : V n)
    (hpending : c'.tracker.pendingAcks = c.tracker.pendingAcks ++ [n])
    (hseen : c'.tracker.seen = c.tracker.seen ∨ c'.tracker.seen = (c.tracker.seen.offer n).2)
    (hk : emissions k = []) : Honest mtu V (l ++ k) c' where
  pending x hx := by
    rw [hpending] at hx
    rcases List.mem_append.1 hx with hx | hx
    · exact h.pending x hx
    · exact List.mem_singleton.1 hx ▸ hn
  seen {x} hx := by
    rcases hseen with hseen | hseen <;> rw [hseen] at hx
    · exact h.seen hx
    · rcases SeenWindow.contains_of_contains_offer hx with rfl | hx
      · exact hn
      · exact h.seen hx
  emitted d hd := by
    rw [emissions_append, hk, List.append_nil] at hd
    exact (h.emitted d hd).mono k

/-- **An arriving datagram** is accepted when its number is noted for the first time. A known number was
taken in before. -/
theorem Honest.arrival (h : Honest mtu V l c) (ha : Arrival c k c')
    (hk : ∀ {q flushAcks}, .arrived q (.accept flushAcks) ∈ k → q.isReliable = true →
      V q.header.sequence) : Honest mtu V (l ++ k) c' := by
  cases ha with
  | plain p hp => exact h.silent rfl rfl rfl
  | @reliable p hp bytes flushAcks =>
    refine h.owe ?_ rfl (.inr rfl) rfl
    -- its own arrival is in the record, unless the window says that an earlier one is
    cases hknown : c.tracker.seen.members.contains p.header.sequence with
    | true => exact h.seen hknown
    | false =>
      refine @hk p flushAcks ?_ hp
      rw [SeenWindow.offer_fst, hknown]
      exact List.mem_singleton_self _

/-- **A transmission** takes along only what waits to be acknowledged. -/
theorem Honest.transmit (h : Honest mtu V l c) (hbooks : Books Message.IsApplication config l c)
    {lane : Lane} {p : Outgoing} {q : LaneQueue} {now : Instant}
    (htake : (c.queues.get lane).take? c.isUseful = (some p, q))
    (hsent : { c with queues := c.queues.set lane q }.transmit p now = .ok (d, c')) :
    Honest mtu V (l ++ [.transmitted p d now]) c' := by
  have hwaits := hbooks.queues lane p (mem_of_take? htake).1
  obtain ⟨m, reliable, piece, n, bytes, hm, hroom, -, hn, hcases⟩ :=
    transmit_cases (c := { c with queues := c.queues.set lane q }) hwaits.carries
      (LaneQueue.take?_eq_some htake).1 hsent
  have hlen : (c.tracker.pendingAcks.take n).length ≤ Datagram.maxAppendedAcks :=
    Nat.le_trans (List.length_take_le ..) hn
  -- what travels along waited to be acknowledged, in the first transmission and in any other
  have hacks : ∀ x ∈ c.tracker.pendingAcks.take n, V x :=
    fun x hx ↦ h.pending x (List.mem_of_mem_take hx)
  have hmem : .transmitted p d now ∈ l ++ [.transmitted p d now] :=
    List.mem_append_right l List.mem_cons_self
  rcases hcases with ⟨-, hd, rfl⟩ | ⟨-, e, retries, -, -, hd, rfl⟩
  · refine h.send (fun x hx ↦ List.mem_of_mem_drop hx) rfl ?_
    intro x hx
    obtain rfl := List.mem_singleton.1 hx
    exact sound_wire hm hroom.readable hlen hacks hmem hd
  · refine h.send (fun x hx ↦ List.mem_of_mem_drop hx) rfl ?_
    intro x hx
    obtain rfl := List.mem_singleton.1 hx
    exact sound_wire hm hroom.readable hlen hacks hmem hd

theorem Honest.service {now : Instant} (h : Honest mtu V l c)
    (hbooks : Books Message.IsApplication config l c) (hmtu : c.config.mtu = mtu)
    (hs : Service now c k c') : Honest mtu V (l ++ k) c' := by
  cases hs with
  | quiet hq => exact h.quiet hmtu hq
  | discard htake => exact h.silent rfl rfl rfl
  | holdBack htake => exact h.silent rfl rfl rfl
  | transmit htake hsent => exact h.transmit hbooks htake hsent

/-- **Every move stays honest.** -/
theorem Honest.move (h : Honest config.mtu V l c) (hbooks : Books Message.IsApplication config l c)
    (hm : Move Message.IsApplication c k c')
    (hk : ∀ {q flushAcks}, .arrived q (.accept flushAcks) ∈ k → q.isReliable = true →
      V q.header.sequence) : Honest config.mtu V (l ++ k) c' := by
  cases hm with
  | service hs => exact h.service hbooks (congrArg Config.mtu hbooks.config_eq) hs
  | arrival ha => exact h.arrival ha hk
  | queue => exact h.silent rfl rfl rfl
  | acknowledge _ n now =>
    obtain ⟨r, hr, -⟩ := Tracker.acknowledge_snd n now c.tracker
    refine h.silent ?_ ?_ (filterMap_map_eq_nil (fun _ ↦ rfl) _) <;> rw [hr]
  | sample => exact h.silent rfl rfl rfl
  | outdate _ now =>
    have hsame : (c.dropOutdated now).2.tracker.pendingAcks = c.tracker.pendingAcks ∧
        (c.dropOutdated now).2.tracker.seen = c.tracker.seen := by
      rw [dropOutdated]
      split <;> exact ⟨rfl, rfl⟩
    exact h.silent hsame.1 hsame.2 (filterMap_map_eq_nil (fun _ ↦ rfl) _)
  | expire _ now =>
    obtain ⟨-, q, hsnd, -⟩ := collectExpired_eq now hbooks.ordered rfl
    refine h.silent ?_ ?_ (filterMap_map_eq_nil (fun _ ↦ rfl) _) <;> rw [hsnd]
  | close =>
    have hnone : emissions (c.tracker.unacked.map (.cleared ·.packet)) = [] :=
      filterMap_map_eq_nil (fun _ ↦ rfl) _
    refine h.send (fun n hn ↦ absurd hn List.not_mem_nil) rfl ?_
    intro d hd
    rw [hnone] at hd
    exact absurd hd List.not_mem_nil

/-- **Every course stays honest.** A datagram that is lost had no part in what is acknowledged. -/
theorem Honest.course (h : Honest config.mtu V l c) (hbooks : Books Message.IsApplication config l c)
    (hc : Course Message.IsApplication V c k c') : Honest config.mtu V (l ++ k) c' := by
  cases hc with
  | move hm hk => exact h.move hbooks hm hk
  | @lose lane p q now fault htake hfault =>
    have hsame : ({ c with queues := c.queues.set lane q }.spoiled p).tracker = c.tracker := by
      rw [spoiled]
      split <;> rfl
    exact h.silent (congrArg Tracker.pendingAcks hsame) (congrArg Tracker.seen hsame) rfl
  | owe hn bytes hseen => exact h.owe hn rfl hseen rfl

theorem Fresh.honest (h : Fresh config c) : Honest config.mtu V [] c where
  pending n hn := by
    rw [h.pendingAcks] at hn
    exact absurd hn List.not_mem_nil
  seen {n} hn := by
    obtain ⟨capacity, hseen⟩ := h.seen
    rw [hseen] at hn
    simp [SeenWindow.empty] at hn
  emitted d hd := by cases hd

/-- **A circuit acknowledges only what it took in,** whatever it does and whatever faults it meets. -/
theorem Coursed.honest (h : Coursed Message.IsApplication V config l c) : Honest config.mtu V l c :=
  h.invariant Fresh.honest fun hbooks hhonest hc ↦ hhonest.course hbooks hc

end Circuit

end DatagramCircuits
