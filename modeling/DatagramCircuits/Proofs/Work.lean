import DatagramCircuits.Circuit.Tick
import DatagramCircuits.Proofs.Account
import DatagramCircuits.Proofs.Wire
import Mathlib.Data.List.TakeWhile
/-!
# What the regular work does to a circuit

One law for each part of a tick that touches the queues or the account: taking the next datagram out of
a queue, sending one for the first time and again, and collecting those whose time is up. Each law gives
the circuit afterwards as an update of the circuit before, so what is not named there has not changed.

**Datagrams of the plain shape never fail to be sent.** The only fault on the way is the count of
retries, which is why sending again is described from its result.
-/

namespace DatagramCircuits

namespace LaneQueue

/-- When nothing is taken, all datagrams were of no use, and none is left. -/
theorem take?_eq_none {useful : Outgoing → Bool} {q q' : LaneQueue}
    (h : q.take? useful = (none, q')) :
    q'.toList = [] ∧ ∀ p ∈ q.toList, useful p = false := by
  rw [take?] at h
  split at h
  · rename_i hnil
    cases h
    exact ⟨rfl, by simpa using List.dropWhile_eq_nil_iff.1 hnil⟩
  · exact absurd h (by simp)

/-- The datagram that is taken is of use, and those dropped in front of it are not. -/
theorem take?_eq_some {useful : Outgoing → Bool} {q q' : LaneQueue} {p : Outgoing}
    (h : q.take? useful = (some p, q')) :
    useful p = true ∧ q'.held = none ∧
      ∃ dropped, q.toList = dropped ++ p :: q'.toList ∧ ∀ x ∈ dropped, useful x = false := by
  rw [take?] at h
  split at h
  · exact absurd h (by simp)
  · rename_i r waiting hrest
    cases h
    have hsplit := List.takeWhile_append_dropWhile (p := (!useful ·)) (l := q.toList)
    rw [hrest] at hsplit
    refine ⟨?_, rfl, _, hsplit.symm, fun x hx ↦ ?_⟩
    · have hhead := List.head?_dropWhile_not (!useful ·) q.toList
      rw [hrest] at hhead
      simpa using hhead
    · simpa using List.mem_takeWhile_imp hx

end LaneQueue

namespace Circuit

/-! ### Transmission -/

theorem isReliable_of_plain {p : Outgoing} {f : Flags} {n : UInt32} {body : Octets}
    (hp : p.buffer = Datagram.plain f n body) : p.isReliable = f.reliable := by
  rw [Outgoing.isReliable, Outgoing.flags, hp, Datagram.flags_plain]

/-- The account without the first acknowledgements to be sent. -/
def dropAcks (k bytes : Nat) (t : Tracker) : Tracker :=
  { t with pendingAcks := t.pendingAcks.drop k, ackBytes := bytes }

/-- The entry of a datagram that was sent for the first time, as `buffer` and under a number. -/
def firstEntry (p : Outgoing) (buffer : Octets) (n : UInt32) (now : Instant) : Tracked where
  packet := { p with buffer, sequence := n, firstSend := some now, lastSend := some now }

/-- The entry of a datagram that was sent again. -/
def resentEntry (e : Tracked) (retries : UInt32) (now : Instant) : Tracked where
  packet := { e.packet with retries, lastSend := some now }

/-- What travels with a datagram is taken off the front of what is to be acknowledged. -/
theorem piggyback_plain (mtu : Nat) (p : Outgoing) (f : Flags) (n : UInt32) (body : Octets)
    (t : Tracker) :
    ∃ k bytes, k ≤ Datagram.maxAppendedAcks ∧
      piggyback mtu p (Datagram.plain f n body) t =
        (Datagram.wire f n body (t.pendingAcks.take k), dropAcks k bytes t) := by
  by_cases hmay : (p.isReliable && !p.notify) = true
  · obtain ⟨k, hk, happend⟩ :=
      Datagram.appendAcks_plain (f := f) mtu (t.peekAcks Datagram.maxAppendedAcks) n body
    refine ⟨k, if (t.pendingAcks.drop k).isEmpty then 0 else t.ackBytes, hk, ?_⟩
    rw [piggyback, if_pos hmay, happend]
    simp only [Tracker.peekAcks, Tracker.takeAcks, List.take_take, Nat.min_eq_left hk, dropAcks]
  · refine ⟨0, t.ackBytes, Nat.zero_le _, ?_⟩
    rw [piggyback, if_neg hmay]
    rfl

/-- **Whatever is transmitted** is as long as what was queued, but for what travels along with it. What
waits to be acknowledged changes by that alone, and the phase does not change. -/
theorem exists_of_transmit {p : Outgoing} {now : Instant} {c c' : Circuit} {d : Octets}
    (h : c.transmit p now = .ok (d, c')) :
    ∃ buffer t, buffer.length = p.buffer.length ∧
      (t.pendingAcks = c.tracker.pendingAcks ∧ t.ackBytes = c.tracker.ackBytes) ∧
      (piggyback c.config.mtu p buffer t).1 = d ∧
      (c'.tracker.pendingAcks = (piggyback c.config.mtu p buffer t).2.pendingAcks ∧
        c'.tracker.ackBytes = (piggyback c.config.mtu p buffer t).2.ackBytes) ∧
      c'.phase = c.phase := by
  rw [transmit] at h
  split at h
  · obtain ⟨buffer, hbuffer, h⟩ := bind_eq_ok_iff.1 h
    obtain ⟨rfl, rfl⟩ := Prod.mk.inj (Except.ok.inj h)
    refine ⟨buffer, c.tracker, Datagram.length_of_setSequence hbuffer, ⟨rfl, rfl⟩, rfl, ?_, rfl⟩
    dsimp only
    split <;> exact ⟨rfl, rfl⟩
  · obtain ⟨buffer, hbuffer, h⟩ := bind_eq_ok_iff.1 h
    obtain ⟨⟨known, t⟩, ht, h⟩ := bind_eq_ok_iff.1 h
    obtain ⟨rfl, rfl⟩ := Prod.mk.inj (Except.ok.inj h)
    exact ⟨buffer, t, Datagram.length_of_setFlags hbuffer, Tracker.acks_of_noteResent ht, rfl,
      ⟨rfl, rfl⟩, rfl⟩

/-- **The first transmission** gives the datagram the next sequence number, and enters a reliable one
into the account under it. -/
theorem transmitFirst_plain {p : Outgoing} {f : Flags} {n : UInt32} {body : Octets}
    (hp : p.buffer = Datagram.plain f n body) (now : Instant) (c : Circuit) :
    ∃ k bytes, k ≤ Datagram.maxAppendedAcks ∧
      c.transmitFirst p now =
        .ok (Datagram.wire f c.nextSequence body (c.tracker.pendingAcks.take k),
          { c with
            tracker := { dropAcks k bytes c.tracker with
              unacked :=
                if f.reliable then
                  Tracker.insert
                    (firstEntry p (Datagram.plain f c.nextSequence body) c.nextSequence now)
                    c.tracker.unacked
                else c.tracker.unacked }
            nextSequence := followingSequence c.nextSequence }) := by
  obtain ⟨k, bytes, hk, hpiggy⟩ :=
    piggyback_plain c.config.mtu p f c.nextSequence body c.tracker
  refine ⟨k, bytes, hk, ?_⟩
  rw [transmitFirst, hp, Datagram.setSequence_plain]
  simp only [bind, Except.bind, hpiggy, isReliable_of_plain hp, pure, Except.pure]
  cases f.reliable <;> rfl

/-- **Another transmission** of a datagram in the account sends what was queued with the flag for that
set, and leaves the account with a new time and no copy waiting. -/
theorem transmitAgain_plain {p : Outgoing} {f : Flags} {n : UInt32} {body : Octets}
    (hp : p.buffer = Datagram.plain f n body) {now : Instant} {c c' : Circuit} {d : Octets}
    (h : c.transmitAgain p now = .ok (d, c')) {e : Tracked} (he : c.tracker.find? p.sequence = some e) :
    ∃ k bytes retries, k ≤ Datagram.maxAppendedAcks ∧ retries.toNat = e.packet.retries.toNat + 1 ∧
      d = Datagram.wire { f with resent := true } n body (c.tracker.pendingAcks.take k) ∧
      c' = { c with
        tracker := { dropAcks k bytes c.tracker with
          unacked := Tracker.insert (resentEntry e retries now) c.tracker.unacked } } := by
  have hflags : p.flags ||| { resent := true } = { f with resent := true } := by
    rw [Outgoing.flags, hp, Datagram.flags_plain]
    show Flags.mk .. = Flags.mk ..
    simp
  obtain ⟨d', hd', h⟩ := bind_eq_ok_iff.1 h
  rw [hflags, hp, Datagram.setFlags_plain] at hd'
  obtain rfl := Except.ok.inj hd'
  obtain ⟨⟨known, t⟩, ht, h⟩ := bind_eq_ok_iff.1 h
  obtain ⟨retries, hretries, rfl⟩ := Tracker.noteResent_eq_ok ht he
  obtain ⟨k, bytes, hk, hpiggy⟩ :=
    piggyback_plain c.config.mtu p { f with resent := true } n body
      { c.tracker with unacked := Tracker.insert (resentEntry e retries now) c.tracker.unacked }
  dsimp only [resentEntry] at h hpiggy
  rw [hpiggy] at h
  obtain ⟨rfl, rfl⟩ := Prod.mk.inj (Except.ok.inj h)
  exact ⟨k, bytes, retries, hk, hretries, rfl, rfl⟩

/-- **A transmission of a piece of a message,** the first or another one. -/
theorem transmit_cases {P : Message → Prop} {mtu : Nat} {p : Outgoing} {now : Instant}
    {c c' : Circuit} {d : Octets} (hp : p.Carries P mtu) (huseful : c.isUseful p = true)
    (h : c.transmit p now = .ok (d, c')) :
    ∃ m reliable piece k bytes, P m ∧ m.HasRoomFor mtu piece ∧
      p.buffer = m.datagram reliable p.sequence piece ∧ k ≤ Datagram.maxAppendedAcks ∧
      (p.sequence = 0 ∧
          d = Datagram.wire { reliable, zeroCoded := m.isCoded piece } c.nextSequence
            (m.codedBody piece) (c.tracker.pendingAcks.take k) ∧
          c' = { c with
            tracker := { dropAcks k bytes c.tracker with
              unacked :=
                if reliable then
                  Tracker.insert
                    (firstEntry p (m.datagram reliable c.nextSequence piece) c.nextSequence now)
                    c.tracker.unacked
                else c.tracker.unacked }
            nextSequence := followingSequence c.nextSequence } ∨
        p.sequence ≠ 0 ∧ ∃ e retries, c.tracker.find? p.sequence = some e ∧
          retries.toNat = e.packet.retries.toNat + 1 ∧
          d = Datagram.wire { reliable, resent := true, zeroCoded := m.isCoded piece } p.sequence
            (m.codedBody piece) (c.tracker.pendingAcks.take k) ∧
          c' = { c with
            tracker := { dropAcks k bytes c.tracker with
              unacked := Tracker.insert (resentEntry e retries now) c.tracker.unacked } }) := by
  obtain ⟨m, reliable, piece, hm, hroom, hbuffer⟩ := hp
  rw [transmit] at h
  -- a number is given at the first transmission, so none says that there was none
  by_cases h0 : p.sequence = 0
  · rw [if_pos h0] at h
    obtain ⟨k, bytes, hk, hfirst⟩ := transmitFirst_plain hbuffer now c
    rw [hfirst] at h
    obtain ⟨rfl, rfl⟩ := Prod.mk.inj (Except.ok.inj h)
    exact ⟨m, reliable, piece, k, bytes, hm, hroom, hbuffer, hk, .inl ⟨h0, rfl, rfl⟩⟩
  · rw [if_neg h0] at h
    have hentry : (c.tracker.find? p.sequence).isSome = true := by
      simpa [isUseful, h0, Tracker.isUnacked] using huseful
    obtain ⟨e, he⟩ := Option.isSome_iff_exists.1 hentry
    obtain ⟨k, bytes, retries, hk, hretries, hd, hc⟩ := transmitAgain_plain hbuffer h he
    exact ⟨m, reliable, piece, k, bytes, hm, hroom, hbuffer, hk,
      .inr ⟨h0, e, retries, he, hretries, hd, hc⟩⟩

/-! ### Datagrams whose time is up -/

/-- The copy that is queued to be sent again. -/
def resendCopy (p : Outgoing) : Outgoing :=
  { p with category := .throttled .resend }

/-- Whether the datagram of an entry is among those handed out. -/
def isHandedOut (l : List Outgoing) (e : Tracked) : Bool :=
  l.any fun p ↦ p.notify && p.sequence == e.sequence

/-- Of the datagrams whose time is up, those with a sender to tell leave the account, and of the others
a copy is queued. -/
theorem foldl_giveBack (l : List Outgoing) (c : Circuit) :
    ∃ q, l.foldl giveBack c =
        { c with
          tracker := { c.tracker with
            unacked := c.tracker.unacked.filter fun e ↦ !isHandedOut l e }
          queues := c.queues.set .resend q } ∧
      q.toList = (c.queues.get .resend).toList ++
        (l.filter fun p ↦ !p.notify).map resendCopy := by
  induction l generalizing c with
  | nil => exact ⟨c.queues.get .resend, by simp [isHandedOut], by simp⟩
  | cons p l ih =>
    obtain ⟨q, hq, hlist⟩ := ih (c.giveBack p)
    refine ⟨q, ?_, ?_⟩
    · rw [List.foldl_cons, hq]
      by_cases hp : p.notify = true
      · simp [giveBack, hp, Tracker.remove, isHandedOut, List.filter_filter, bne, Bool.beq_comm,
          Bool.and_comm]
      · simp [giveBack, hp, push, PerLane.modify, isHandedOut]
    · rw [hlist]
      by_cases hp : p.notify = true
      · simp [giveBack, hp]
      · simp [giveBack, hp, push, PerLane.get_modify, resendCopy]

/-- The entry with a copy waiting to be sent again, if it is one of the given ones. -/
def markIf (expired : Tracked → Bool) (e : Tracked) : Tracked :=
  if expired e then { e with awaitingResend := true } else e

@[simp] theorem packet_markIf (expired : Tracked → Bool) (e : Tracked) :
    (markIf expired e).packet = e.packet := by
  rw [markIf]
  split <;> rfl

@[simp] theorem sequence_markIf (expired : Tracked → Bool) (e : Tracked) :
    (markIf expired e).sequence = e.sequence :=
  congrArg Outgoing.sequence (packet_markIf expired e)

/-- **Collecting** hands out the datagrams with a sender to tell and forgets them; the others are marked,
and a copy of each is queued. -/
theorem collectExpired_eq (now : Instant) {c : Circuit} (h : Tracker.Ordered c.tracker.unacked)
    {expired : Tracked → Bool}
    (hexpired : expired = Tracker.isExpired c.tracker.roundTrip.timeout now) :
    (c.collectExpired now).1 =
        (c.tracker.unacked.filter fun e ↦ expired e && e.packet.notify).map Tracked.packet ∧
      ∃ q, (c.collectExpired now).2 =
          { c with
            tracker := { c.tracker with
              unacked := (c.tracker.unacked.filter fun e ↦ !(expired e && e.packet.notify)).map
                (markIf expired) }
            queues := c.queues.set .resend q } ∧
        q.toList = (c.queues.get .resend).toList ++
          (c.tracker.unacked.filter fun e ↦ expired e && !e.packet.notify).map
            fun e ↦ resendCopy e.packet := by
  subst hexpired
  generalize hexpired : Tracker.isExpired c.tracker.roundTrip.timeout now = expired
  have hfst : (c.collectExpired now).1 =
      ((c.tracker.unacked.filter expired).map Tracked.packet).filter Outgoing.notify := by
    rw [← hexpired]
    rfl
  have hsnd : (c.collectExpired now).2 =
      ((c.tracker.unacked.filter expired).map Tracked.packet).foldl giveBack
        { c with tracker := { c.tracker with unacked := c.tracker.unacked.map (markIf expired) } } := by
    rw [← hexpired]
    rfl
  -- a number names one entry, so an entry is handed out only on its own account
  have hhanded : ∀ e ∈ c.tracker.unacked,
      isHandedOut ((c.tracker.unacked.filter expired).map Tracked.packet) (markIf expired e) =
        (expired e && e.packet.notify) := by
    intro e he
    rw [Bool.eq_iff_iff]
    simp only [isHandedOut, List.any_map, List.any_eq_true, List.mem_filter, Function.comp_apply,
      sequence_markIf, Bool.and_eq_true, beq_iff_eq]
    constructor
    · rintro ⟨x, ⟨hx, hxe⟩, hnotify, hseq⟩
      obtain rfl := h.eq_of_sequence_eq hx he hseq
      exact ⟨hxe, hnotify⟩
    · rintro ⟨hee, hnotify⟩
      exact ⟨e, ⟨he, hee⟩, hnotify, rfl⟩
  obtain ⟨q, hq, hlist⟩ := foldl_giveBack ((c.tracker.unacked.filter expired).map Tracked.packet)
    { c with tracker := { c.tracker with unacked := c.tracker.unacked.map (markIf expired) } }
  refine ⟨?_, q, ?_, ?_⟩
  · rw [hfst, List.filter_map, List.filter_filter]
    simp only [Function.comp_def, Bool.and_comm]
  · rw [hsnd, hq]
    simp only [List.filter_map, Function.comp_def]
    rw [List.filter_congr fun e he ↦ congrArg Bool.not (hhanded e he)]
  · rw [hlist]
    simp only [List.filter_map, List.filter_filter, List.map_map, Function.comp_def, Bool.and_comm]

end Circuit

end DatagramCircuits
