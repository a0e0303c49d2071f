import DatagramCircuits.Proofs.Life
/-!
# The books of a circuit

What a circuit knows about the datagrams it sent fits its record, in any life and however long it is
(`Traced.books`). The numbers of first transmissions follow one another, from 1 on and back to 1, and 0
is left out. Whatever is in the account, left it, or waits to be sent again is in the record as a first
transmission: with the same number, and apart from what its transmission added, with the same octets.

The invariant is `Books`. A move that sends nothing out of a queue keeps it as soon as nothing unknown
shows up in the account or in the queues (`Books.unsent`); the two kinds of transmission extend it.
-/

namespace DatagramCircuits

namespace Circuit

variable {P : Message → Prop} {config : Config}

/-! ### First transmissions -/

/-- The numbers of the first transmissions, in order. -/
def firstNumbers (l : List Event) : List Nat :=
  (firstTransmissions l).map fun d ↦ (Datagram.sequence d).toNat

/-- The datagram is in the record as a first transmission that has to be acknowledged. -/
def SentFirst (l : List Event) (p : Outgoing) : Prop :=
  ∃ q d now, .transmitted q d now ∈ l ∧ (Datagram.flags d).resent = false ∧
    (Datagram.flags d).reliable = true ∧ q.notify = p.notify ∧
    Datagram.sequence d = p.sequence ∧ Datagram.bare d = p.buffer

/-- What was sent once stays in the record. -/
theorem SentFirst.mono {l : List Event} {p : Outgoing} (h : SentFirst l p) (k : List Event) :
    SentFirst (l ++ k) p := by
  obtain ⟨q, d, now, hmem, h⟩ := h
  exact ⟨q, d, now, List.mem_append_left k hmem, h⟩

/-- Where nothing is sent, nothing is sent for the first time. -/
theorem firstTransmissions_eq_nil {k : List Event} (h : transmissions k = []) :
    firstTransmissions k = [] := by
  rw [firstTransmissions, h]
  rfl

/-- First transmissions are those without the flag of another one. -/
theorem mem_firstTransmissions {l : List Event} {d : Octets} :
    d ∈ firstTransmissions l ↔
      (∃ p now, .transmitted p d now ∈ l) ∧ (Datagram.flags d).resent = false := by
  simp only [firstTransmissions, List.mem_filter, List.mem_map, Prod.exists, exists_eq_right,
    mem_transmissions, Bool.not_eq_true']

theorem firstTransmissions_transmitted {p : Outgoing} {d : Octets} {now : Instant} :
    firstTransmissions [.transmitted p d now] = if (Datagram.flags d).resent then [] else [d] := by
  cases h : (Datagram.flags d).resent <;>
    simp [firstTransmissions, transmissions, Event.transmission?, h]

/-- The number after the given one goes up, or back to 1. -/
theorem toNat_followingSequence {n : UInt32} {i : Nat} (h : n.toNat = 1 + i % sequenceCount) :
    (followingSequence n).toNat = 1 + (i + 1) % sequenceCount := by
  have hcount : sequenceCount = 4294967295 := rfl
  have hnext : (n + 1).toNat = (n.toNat + 1) % 4294967296 := by
    simp [UInt32.toNat_add]
  have hmax : (followingSequence n).toNat = Nat.max (n + 1).toNat 1 := by
    rw [followingSequence, show max (n + 1) 1 = if n + 1 ≤ 1 then 1 else n + 1 from rfl]
    split <;> rename_i hle <;> rw [UInt32.le_iff_toNat_le] at hle
    · exact (Nat.max_eq_right hle).symm
    · exact (Nat.max_eq_left (Nat.le_of_not_le hle)).symm
  rw [hmax, hnext, h, hcount]
  -- below the last number the next one is larger by 1; the last one wraps to 0, which is left out
  have hlt : i % 4294967295 < 4294967295 := Nat.mod_lt _ (by decide)
  rcases Nat.lt_or_ge (i % 4294967295 + 1) 4294967295 with hsmall | hlast
  · have hmod : (i + 1) % 4294967295 = i % 4294967295 + 1 := by omega
    rw [hmod, Nat.mod_eq_of_lt (by omega)]
    exact Nat.max_eq_left (by omega)
  · have hmod : (i + 1) % 4294967295 = 0 := by omega
    have hwrap : (1 + i % 4294967295 + 1) % 4294967296 = 0 := by omega
    rw [hmod, hwrap]
    rfl

/-! ### The invariant -/

/-- A datagram that is in the account, or was in it. -/
structure Kept (P : Message → Prop) (mtu : Nat) (l : List Event) (p : Outgoing) : Prop where
  carries : p.Carries P mtu
  sent : SentFirst l p
  numbered : p.sequence ≠ 0

/-- An entry of the account. -/
structure Entry (P : Message → Prop) (mtu : Nat) (l : List Event) (e : Tracked) : Prop where
  kept : Kept P mtu l e.packet
  /-- A datagram whose sender wants to hear of it never waits to be sent again. -/
  notify : e.packet.notify = true → e.awaitingResend = false
  firstSend : e.packet.firstSend.isSome
  lastSend : e.packet.lastSend.isSome

/-- A datagram in the queue of a lane. One with a number waits to be sent again. -/
structure Waiting (P : Message → Prop) (mtu : Nat) (l : List Event) (lane : Lane) (p : Outgoing) :
    Prop where
  carries : p.Carries P mtu
  again : p.sequence ≠ 0 → lane = .resend ∧ p.notify = false ∧ SentFirst l p

/-- The timeout never falls below its bound. -/
structure Steady (config : Config) (r : RoundTrip) : Prop where
  low : r.low = config.minTimeout
  timeout : config.minTimeout ≤ r.timeout

/-- What a circuit knows about the datagrams it sent fits the record. -/
structure Books (P : Message → Prop) (config : Config) (l : List Event) (c : Circuit) : Prop where
  config_eq : c.config = config
  steady : Steady config c.tracker.roundTrip
  next : c.nextSequence.toNat = 1 + (firstTransmissions l).length % sequenceCount
  numbers : firstNumbers l =
    (List.range (firstTransmissions l).length).map fun i ↦ 1 + i % sequenceCount
  ordered : Tracker.Ordered c.tracker.unacked
  entries : ∀ e ∈ c.tracker.unacked, Entry P config.mtu l e
  queues : ∀ lane, ∀ p ∈ (c.queues.get lane).toList, Waiting P config.mtu l lane p
  departed : ∀ p ∈ departures l, Kept P config.mtu l p

/-- What is kept fits a longer record as well. -/
theorem Kept.mono {mtu : Nat} {l : List Event} {p : Outgoing} (h : Kept P mtu l p)
    (k : List Event) : Kept P mtu (l ++ k) p :=
  ⟨h.carries, h.sent.mono k, h.numbered⟩

theorem Entry.mono {mtu : Nat} {l : List Event} {e : Tracked} (h : Entry P mtu l e)
    (k : List Event) : Entry P mtu (l ++ k) e :=
  ⟨h.kept.mono k, h.notify, h.firstSend, h.lastSend⟩

theorem Waiting.mono {mtu : Nat} {l : List Event} {lane : Lane} {p : Outgoing}
    (h : Waiting P mtu l lane p) (k : List Event) : Waiting P mtu (l ++ k) lane p :=
  ⟨h.carries, fun hp ↦ ⟨(h.again hp).1, (h.again hp).2.1, (h.again hp).2.2.mono k⟩⟩

/-- No sample takes the timeout out of its bounds. -/
theorem Steady.sample {r : RoundTrip} (h : Steady config r) (d : Span) :
    Steady config (r.sample d) :=
  ⟨h.low, h.low ▸ RoundTrip.low_le_clamp ..⟩

/-! ### Moves that send nothing -/

variable {l k : List Event} {c c' : Circuit}

/-- **What sends nothing out of a queue** keeps the books, if nothing unknown shows up. -/
theorem Books.unsent (h : Books P config l c) (hk : transmissions k = [])
    (hconfig : c'.config = c.config) (hnext : c'.nextSequence = c.nextSequence)
    (hsteady : Steady config c'.tracker.roundTrip)
    (hordered : Tracker.Ordered c'.tracker.unacked)
    (hentries : ∀ e ∈ c'.tracker.unacked, Entry P config.mtu l e)
    (hqueues : ∀ lane, ∀ p ∈ (c'.queues.get lane).toList, Waiting P config.mtu l lane p)
    (hdeparted : ∀ p ∈ departures k, Kept P config.mtu l p) : Books P config (l ++ k) c' where
  config_eq := hconfig.trans h.config_eq
  steady := hsteady
  next := by
    rw [hnext, firstTransmissions_append, firstTransmissions_eq_nil hk, List.append_nil]
    exact h.next
  numbers := by
    rw [firstNumbers, firstTransmissions_append, firstTransmissions_eq_nil hk, List.append_nil]
    exact h.numbers
  ordered := hordered
  entries e he := (hentries e he).mono k
  queues lane p hp := (hqueues lane p hp).mono k
  departed p hp := by
    rw [departures_append] at hp
    rcases List.mem_append.1 hp with hp | hp
    · exact (h.departed p hp).mono k
    · exact (hdeparted p hp).mono k

/-- What leaves alone all that the books are about keeps them. -/
theorem Books.same (h : Books P config l c) (hsame : SameBooks c c') (hk : transmissions k = [])
    (hdeparted : departures k = []) : Books P config (l ++ k) c' := by
  refine h.unsent hk hsame.config hsame.nextSequence ?_ ?_ ?_ ?_ ?_
  · rw [hsame.roundTrip]
    exact h.steady
  · rw [hsame.unacked]
    exact h.ordered
  · rw [hsame.unacked]
    exact h.entries
  · rw [hsame.queues]
    exact h.queues
  · rw [hdeparted]
    intro p hp
    exact absurd hp List.not_mem_nil

/-- Quiet work keeps the books. -/
theorem Books.quiet (h : Books P config l c) (hq : Quiet c k c') : Books P config (l ++ k) c' :=
  h.same hq.sameBooks hq.transmissions_eq_nil hq.departures_eq_nil

/-- So does a datagram that arrives. -/
theorem Books.arrival (h : Books P config l c) (ha : Arrival c k c') :
    Books P config (l ++ k) c' := by
  obtain ⟨p, disposition, rfl⟩ := ha.exists_arrived
  exact h.same ha.sameBooks rfl rfl

/-- A queue whose datagrams were in it before may take its place. -/
theorem Books.shrink (h : Books P config l c) {lane : Lane} {q : LaneQueue}
    (hq : ∀ p ∈ q.toList, p ∈ (c.queues.get lane).toList) :
    Books P config l { c with queues := c.queues.set lane q } := by
  refine { h with queues := fun lane' p hp ↦ ?_ }
  rw [PerLane.get_set] at hp
  split at hp
  · rename_i heq
    subst heq
    exact h.queues lane p (hq p hp)
  · exact h.queues lane' p hp

/-- The books stay in order when a framed message is queued. -/
theorem Books.queue (h : Books P config l c) {lane : Lane} {buffer : Octets} {notify : Bool}
    (hcarries : ({ category := .throttled lane, buffer, notify } : Outgoing).Carries P config.mtu) :
    Books P config (l ++ [.queued { category := .throttled lane, buffer, notify }])
      (c.push lane { category := .throttled lane, buffer, notify }) := by
  refine h.unsent rfl rfl rfl h.steady h.ordered h.entries (fun lane' p hp ↦ ?_) (fun p hp ↦ nomatch hp)
  rw [push, PerLane.get_modify] at hp
  split at hp
  · rw [LaneQueue.toList_push] at hp
    rcases List.mem_append.1 hp with hp | hp
    · exact h.queues lane' p hp
    · obtain rfl := List.mem_singleton.1 hp
      exact ⟨hcarries, fun hne ↦ absurd rfl hne⟩
  · exact h.queues lane' p hp

/-! ### Moves that take entries out -/

/-- What departs is known from the events that say so. -/
theorem mem_of_mem_departures {α : Type} {f : α → Event} {g : α → Outgoing}
    (hf : ∀ a, (f a).departure? = some (g a)) {as : List α} {p : Outgoing}
    (h : p ∈ departures (as.map f)) : ∃ a ∈ as, g a = p := by
  simpa [departures, List.filterMap_map, Function.comp_def, hf] using h

/-- An acknowledged datagram departs, and the rest is kept. -/
theorem Books.acknowledge (h : Books P config l c) (n : UInt32) (now : Instant) :
    Books P config (l ++ (c.tracker.acknowledge n now).1.toList.map (.acknowledged · now))
      { c with tracker := (c.tracker.acknowledge n now).2 } := by
  obtain ⟨r, hr, hround⟩ := Tracker.acknowledge_snd n now c.tracker
  refine h.unsent (filterMap_map_eq_nil (fun _ ↦ rfl) _) rfl rfl ?_ ?_ ?_ h.queues ?_
  · rw [hr]
    rcases hround with rfl | ⟨d, rfl⟩
    · exact h.steady
    · exact h.steady.sample d
  · rw [hr]
    exact h.ordered.filter _
  · rw [hr]
    exact fun e he ↦ h.entries e (List.mem_filter.1 he).1
  · intro p hp
    obtain ⟨q, hq, rfl⟩ := mem_of_mem_departures (fun _ ↦ rfl) hp
    rw [Tracker.acknowledge_fst, Option.mem_toList, Option.map_eq_some_iff] at hq
    obtain ⟨e, he, rfl⟩ := hq
    exact (h.entries e (Tracker.mem_of_find? he).1).kept

/-- Datagrams that are too old depart, and the rest is kept. -/
theorem Books.outdate (h : Books P config l c) (now : Instant) :
    Books P config (l ++ (c.dropOutdated now).1.map .outdated) (c.dropOutdated now).2 := by
  rw [dropOutdated]
  split
  · simpa using h
  · rename_i age _
    refine h.unsent (filterMap_map_eq_nil (fun _ ↦ rfl) _) rfl rfl h.steady (h.ordered.filter _)
      (fun e he ↦ h.entries e (List.mem_filter.1 he).1) h.queues fun p hp ↦ ?_
    obtain ⟨q, hq, rfl⟩ := mem_of_mem_departures (fun _ ↦ rfl) hp
    obtain ⟨e, he, rfl⟩ := List.mem_map.1 hq
    exact (h.entries e (List.mem_filter.1 he).1).kept

/-- Collecting puts only copies of known datagrams into the queue. -/
theorem Books.expire (h : Books P config l c) (now : Instant) :
    Books P config (l ++ (c.collectExpired now).1.map .unacknowledged) (c.collectExpired now).2 := by
  obtain ⟨hfst, q, hsnd, hq⟩ := collectExpired_eq now h.ordered rfl
  rw [hsnd]
  refine h.unsent (filterMap_map_eq_nil (fun _ ↦ rfl) _) rfl rfl h.steady
    ((h.ordered.filter _).map (sequence_markIf _)) ?_ ?_ ?_
  · -- an entry that is kept and has a sender that waits is not marked
    intro e' he'
    obtain ⟨e, he, rfl⟩ := List.mem_map.1 he'
    obtain ⟨hmem, hkeep⟩ := List.mem_filter.1 he
    have hentry := h.entries e hmem
    refine ⟨by simpa using hentry.kept, fun hnotify ↦ ?_, by simpa using hentry.firstSend,
      by simpa using hentry.lastSend⟩
    rw [packet_markIf] at hnotify
    have hno : Tracker.isExpired c.tracker.roundTrip.timeout now e = false := by
      simpa [hnotify] using hkeep
    rw [markIf, hno]
    exact hentry.notify hnotify
  · intro lane p hp
    rw [PerLane.get_set] at hp
    split at hp
    · rename_i heq
      subst heq
      rw [hq] at hp
      rcases List.mem_append.1 hp with hp | hp
      · exact h.queues .resend p hp
      · obtain ⟨e, he, rfl⟩ := List.mem_map.1 hp
        obtain ⟨hmem, hexpired⟩ := List.mem_filter.1 he
        have hkept := (h.entries e hmem).kept
        have hsilent : e.packet.notify = false := by
          simp only [Bool.and_eq_true, Bool.not_eq_true'] at hexpired
          exact hexpired.2
        exact ⟨hkept.carries, fun _ ↦ ⟨rfl, hsilent, hkept.sent⟩⟩
    · exact h.queues lane p hp
  · intro p hp
    obtain ⟨p', hp', rfl⟩ := mem_of_mem_departures (fun _ ↦ rfl) hp
    rw [hfst] at hp'
    obtain ⟨e, he, rfl⟩ := List.mem_map.1 hp'
    exact (h.entries e (List.mem_filter.1 he).1).kept

/-- Closing makes everything depart that is left in the account. -/
theorem Books.close (h : Books P config l c) :
    Books P config (l ++ c.tracker.unacked.map (.cleared ·.packet))
      { c with
        phase := .disconnected
        queues := PerLane.replicate {}
        outstandingPing := none
        tracker := c.tracker.clear } := by
  refine h.unsent (filterMap_map_eq_nil (fun _ ↦ rfl) _) rfl rfl h.steady List.Pairwise.nil
    (fun e he ↦ nomatch he) (fun lane p hp ↦ ?_) fun p hp ↦ ?_
  · rw [PerLane.get_replicate] at hp
    exact absurd hp List.not_mem_nil
  · obtain ⟨e, he, rfl⟩ := mem_of_mem_departures (g := Tracked.packet) (fun _ ↦ rfl) hp
    exact (h.entries e he).kept

/-! ### Transmissions -/

theorem departures_transmitted (l : List Event) (p : Outgoing) (d : Octets) (now : Instant) :
    departures (l ++ [.transmitted p d now]) = departures l :=
  (departures_append l _).trans (List.append_nil _)

/-- **A first transmission** is the next one in the record. -/
theorem Books.transmitFirst (h : Books P config l c) {m : Message} {piece : Octets} (hm : P m)
    (hroom : m.HasRoomFor config.mtu piece) (p : Outgoing) (reliable : Bool) (now : Instant)
    {d : Octets} {k bytes : Nat} (hk : k ≤ Datagram.maxAppendedAcks)
    (hd : d = Datagram.wire { reliable, zeroCoded := m.isCoded piece } c.nextSequence
      (m.codedBody piece) (c.tracker.pendingAcks.take k)) :
    Books P config (l ++ [.transmitted p d now])
      { c with
        tracker := { dropAcks k bytes c.tracker with
          unacked :=
            if reliable then
              Tracker.insert
                (firstEntry p (m.datagram reliable c.nextSequence piece) c.nextSequence now)
                c.tracker.unacked
            else c.tracker.unacked }
        nextSequence := followingSequence c.nextSequence } := by
  have hflags : (Datagram.flags d).resent = false ∧ (Datagram.flags d).reliable = reliable := by
    rw [hd, Datagram.flags_wire rfl]
    exact ⟨rfl, rfl⟩
  have hsequence : Datagram.sequence d = c.nextSequence := by
    rw [hd, Datagram.sequence_wire]
  have hbare : Datagram.bare d = m.datagram reliable c.nextSequence piece := by
    rw [hd, Datagram.bare_wire rfl _ _ (Nat.le_trans (List.length_take_le ..) hk)]
    rfl
  have hone : firstTransmissions [.transmitted p d now] = [d] := by
    rw [firstTransmissions_transmitted, hflags.1]
    rfl
  refine ⟨h.config_eq, h.steady, ?_, ?_, ?_, ?_, fun lane q hq ↦ (h.queues lane q hq).mono _, ?_⟩
  · rw [firstTransmissions_append, hone, List.length_append]
    exact toNat_followingSequence h.next
  · rw [firstNumbers, firstTransmissions_append, hone, List.map_append, List.length_append,
      List.length_singleton, List.range_succ, List.map_append, ← h.numbers]
    simp only [List.map_cons, List.map_nil, hsequence, h.next, firstNumbers]
  · show Tracker.Ordered (if reliable then _ else _)
    split
    · exact h.ordered.insert _
    · exact h.ordered
  · intro e (he : e ∈ if reliable then _ else _)
    split at he
    · rename_i hreliable
      rcases Tracker.mem_insert.1 he with rfl | ⟨he, -⟩
      · have hsent : SentFirst (l ++ [.transmitted p d now])
            (firstEntry p (m.datagram reliable c.nextSequence piece) c.nextSequence now).packet :=
          ⟨p, d, now, by simp, hflags.1, hflags.2.trans hreliable, rfl, hsequence, hbare⟩
        -- the numbers start at 1 again, and never at 0
        have hne : c.nextSequence ≠ 0 := by
          intro h0
          have hnext := h.next
          rw [h0] at hnext
          exact absurd hnext.symm (by simp [Nat.one_add])
        exact ⟨⟨⟨m, reliable, piece, hm, hroom, rfl⟩, hsent, hne⟩, fun _ ↦ rfl, rfl, rfl⟩
      · exact (h.entries e he).mono _
    · exact (h.entries e he).mono _
  · rw [departures_transmitted]
    exact fun q hq ↦ (h.departed q hq).mono _

/-- **Another transmission** is not counted, and leaves the entry with the same octets. -/
theorem Books.transmitAgain (h : Books P config l c) (p : Outgoing) (now : Instant) {d : Octets}
    {k bytes : Nat} (hd : (Datagram.flags d).resent = true) {e : Tracked} {n : UInt32}
    (he : c.tracker.find? n = some e) (retries : UInt32) :
    Books P config (l ++ [.transmitted p d now])
      { c with
        tracker := { dropAcks k bytes c.tracker with
          unacked := Tracker.insert (resentEntry e retries now) c.tracker.unacked } } := by
  have hnone : firstTransmissions [.transmitted p d now] = [] := by
    rw [firstTransmissions_transmitted, hd]
    rfl
  have hentry := h.entries e (Tracker.mem_of_find? he).1
  refine ⟨h.config_eq, h.steady, ?_, ?_, h.ordered.insert _, ?_,
    fun lane q hq ↦ (h.queues lane q hq).mono _, ?_⟩
  · rw [firstTransmissions_append, hnone, List.append_nil]
    exact h.next
  · rw [firstNumbers, firstTransmissions_append, hnone, List.append_nil]
    exact h.numbers
  · intro x hx
    rcases Tracker.mem_insert.1 hx with rfl | ⟨hx, -⟩
    · have hkept := hentry.kept.mono [.transmitted p d now]
      exact ⟨⟨hkept.carries, hkept.sent, hkept.numbered⟩, fun _ ↦ rfl, hentry.firstSend, rfl⟩
    · exact (h.entries x hx).mono _
  · rw [departures_transmitted]
    exact fun q hq ↦ (h.departed q hq).mono _

/-- What is left of a queue when the next datagram is taken was in it before. -/
theorem mem_of_take? {useful : Outgoing → Bool} {q q' : LaneQueue} {p : Outgoing}
    (h : q.take? useful = (some p, q')) : p ∈ q.toList ∧ ∀ x ∈ q'.toList, x ∈ q.toList := by
  obtain ⟨-, -, dropped, hq, -⟩ := LaneQueue.take?_eq_some h
  rw [hq]
  exact ⟨by simp, fun x hx ↦ by simp [hx]⟩

/-- **A transmission extends the books,** by a first one or another one of the same datagram. -/
theorem Books.transmit (h : Books P config l c) {lane : Lane} {p : Outgoing} {q : LaneQueue}
    {now : Instant} {d : Octets} (htake : (c.queues.get lane).take? c.isUseful = (some p, q))
    (hsent : { c with queues := c.queues.set lane q }.transmit p now = .ok (d, c')) :
    Books P config (l ++ [.transmitted p d now]) c' := by
  obtain ⟨hp, hrest⟩ := mem_of_take? htake
  have huseful := (LaneQueue.take?_eq_some htake).1
  have hshrunk := h.shrink hrest
  obtain ⟨m, reliable, piece, k, bytes, hm, hroom, hbuffer, hk,
      ⟨-, hd, rfl⟩ | ⟨-, e, retries, he, -, hd, rfl⟩⟩ :=
    transmit_cases (c := { c with queues := c.queues.set lane q }) (h.queues lane p hp).carries
      huseful hsent
  · exact hshrunk.transmitFirst hm hroom p reliable now hk hd
  · refine hshrunk.transmitAgain p now ?_ he retries
    rw [hd, Datagram.flags_wire rfl]

/-! ### All moves -/

/-- The service of the queues keeps the books. -/
theorem Books.service {now : Instant} (h : Books P config l c) (hs : Service now c k c') :
    Books P config (l ++ k) c' := by
  cases hs with
  | quiet hq => exact h.quiet hq
  | discard htake =>
    rw [List.append_nil]
    refine h.shrink ?_
    intro p hp
    rw [(LaneQueue.take?_eq_none htake).1] at hp
    exact absurd hp List.not_mem_nil
  | holdBack htake =>
    rw [List.append_nil]
    obtain ⟨hp, hrest⟩ := mem_of_take? htake
    refine h.shrink ?_
    intro x hx
    rw [LaneQueue.toList_holdBack (LaneQueue.take?_eq_some htake).2.1] at hx
    rcases List.mem_cons.1 hx with rfl | hx
    · exact hp
    · exact hrest x hx
  | transmit htake hsent => exact h.transmit htake hsent

/-- **Every move keeps the books.** -/
theorem Books.move (h : Books P config l c) (hm : Move P c k c') : Books P config (l ++ k) c' := by
  cases hm with
  | service hs => exact h.service hs
  | arrival ha => exact h.arrival ha
  | queue _ hcarries => exact h.queue (h.config_eq ▸ hcarries)
  | acknowledge _ n now => exact h.acknowledge n now
  | sample _ d =>
    rw [List.append_nil]
    exact { h with steady := h.steady.sample d }
  | outdate _ now => exact h.outdate now
  | expire _ now => exact h.expire now
  | close => exact h.close

/-- The books of a new circuit are empty. -/
theorem Fresh.books (h : Fresh config c) : Books P config [] c where
  config_eq := h.config_eq
  steady := ⟨h.low, h.timeout⟩
  next := by
    rw [h.nextSequence]
    rfl
  numbers := rfl
  ordered := by
    rw [h.unacked]
    exact List.Pairwise.nil
  entries e he := by
    rw [h.unacked] at he
    exact absurd he List.not_mem_nil
  queues lane p hp := by
    rw [h.queues, PerLane.get_replicate] at hp
    exact absurd hp List.not_mem_nil
  departed p hp := by cases hp

/-- **The books of a circuit fit its record,** whatever it does. -/
theorem Traced.books (h : Traced P config l c) : Books P config l c :=
  h.induction Fresh.books Books.move

/-- What a move preserves as long as the books fit holds of whatever is traced. -/
theorem Traced.invariant {motive : List Event → Circuit → Prop} (h : Traced P config l c)
    (hstart : ∀ {c₀}, Fresh config c₀ → motive [] c₀)
    (hstep : ∀ {l k c c'}, Books P config l c → motive l c → Move P c k c' → motive (l ++ k) c') :
    motive l c := by
  have hboth : Books P config l c ∧ motive l c :=
    h.induction (motive := fun l c ↦ Books P config l c ∧ motive l c)
      (fun hfresh ↦ ⟨hfresh.books, hstart hfresh⟩)
      fun hstate hm ↦ ⟨hstate.1.move hm, hstep hstate.1 hstate.2 hm⟩
  exact hboth.2

end Circuit

end DatagramCircuits
