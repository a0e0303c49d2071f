import DatagramCircuits.Proofs.Fairness
import DatagramCircuits.Proofs.Signals
/-!
# When datagrams were sent

The instants at which a number was sent, in a whole life of a circuit. They are read off what ticks
answer (`Circuit.sendings`), and the record tells the same (`Circuit.sendings_of_chronicle`).

**The account knows them as far as it needs to.** An entry counts the transmissions of its datagram, the
first one apart, and has the instant of the last one (`Traced.dates`), as long as sequence numbers are not
used again: the number that is given next was not sent yet (`Traced.times_nextSequence`).
-/

namespace DatagramCircuits

namespace Circuit

variable {P : Message → Prop} {config : Config} {l k : List Event} {c c' : Circuit} {n : UInt32}
  {p : Outgoing} {d : Octets} {now : Instant} {f f' : Forest} {t : Turn}

/-! ### Transmissions under a number -/

/-- When something was sent out of a queue under the number. -/
def Event.sentAt? (n : UInt32) : Event → Option Instant
  | transmitted _ d now => if Datagram.sequence d = n then some now else none
  | _ => none

/-- The instants at which something was sent out of a queue under the number, in order. -/
def times (n : UInt32) (l : List Event) : List Instant :=
  l.filterMap (Event.sentAt? n)

@[simp] theorem times_append (n : UInt32) (l k : List Event) : times n (l ++ k) = times n l ++ times n k :=
  List.filterMap_append

theorem times_transmitted (n : UInt32) (p : Outgoing) (d : Octets) (now : Instant) :
    times n [.transmitted p d now] = if Datagram.sequence d = n then [now] else [] := by
  by_cases h : Datagram.sequence d = n <;> simp [times, Event.sentAt?, h]

theorem times_map_transmitted (n : UInt32) (sent : List (Outgoing × Octets)) (now : Instant) :
    times n (sent.map fun s ↦ .transmitted s.1 s.2 now) =
      ((sent.map Prod.snd).filter (Datagram.sequence · == n)).map fun _ ↦ now := by
  induction sent with
  | nil => rfl
  | cons s sent ih =>
    rw [List.map_cons, ← List.singleton_append, times_append, times_transmitted, ih, List.map_cons,
      List.filter_cons]
    by_cases h : Datagram.sequence s.2 = n <;> simp [h]

/-- Where nothing is sent out of a queue, nothing is sent under a number. -/
theorem times_eq_nil (h : transmissions k = []) (n : UInt32) : times n k = [] := by
  refine List.filterMap_eq_nil_iff.2 fun ev hev ↦ ?_
  have hnone := List.filterMap_eq_nil_iff.1 h ev hev
  cases ev <;> first | rfl | cases hnone

theorem exists_of_mem_times (h : now ∈ times n l) :
    ∃ p d, .transmitted p d now ∈ l ∧ Datagram.sequence d = n := by
  obtain ⟨ev, hev, hat⟩ := List.mem_filterMap.1 h
  cases ev with
  | transmitted p d now' =>
    rw [Event.sentAt?] at hat
    split at hat
    · rename_i hsequence
      cases hat
      exact ⟨p, d, hev, hsequence⟩
    · cases hat
  | _ => cases hat

/-! ### Numbers -/

/-- What a step preserves from whatever is traced, holds of whatever is traced. -/
theorem Traced.steps {motive : List Event → Circuit → Prop} (h : Traced P config l c)
    (hstart : ∀ {c₀}, Fresh config c₀ → motive [] c₀)
    (hstep : ∀ {l k c c'}, Traced P config l c → motive l c → Move P c k c' → motive (l ++ k) c') :
    motive l c := by
  have hboth : Traced P config l c ∧ motive l c :=
    h.induction (motive := fun l c ↦ Traced P config l c ∧ motive l c)
      (fun hfresh ↦ ⟨⟨_, hfresh, Chain.refl⟩, hstart hfresh⟩)
      fun ⟨⟨c₀, hfresh, hchain⟩, hm⟩ hmove ↦
        ⟨⟨c₀, hfresh, hchain.tail hmove⟩, hstep ⟨c₀, hfresh, hchain⟩ hm hmove⟩
  exact hboth.2

/-- The numbers of first transmissions are positive, and not above their count. -/
theorem Books.toNat_sequence (h : Books P config l c) (hd : d ∈ firstTransmissions l) :
    0 < (Datagram.sequence d).toNat ∧ (Datagram.sequence d).toNat ≤ (firstTransmissions l).length := by
  have hmem : (Datagram.sequence d).toNat ∈ firstNumbers l := List.mem_map_of_mem hd
  rw [h.numbers] at hmem
  obtain ⟨i, hi, heq⟩ := List.mem_map.1 hmem
  have hlt := List.mem_range.1 hi
  have hle := Nat.mod_le i sequenceCount
  omega

/-- So are the numbers of all transmissions, since what is sent again keeps its number. -/
theorem Coursed.toNat_sequence (h : Coursed P V config l c) (hmem : .transmitted p d now ∈ l) :
    0 < (Datagram.sequence d).toNat ∧ (Datagram.sequence d).toNat ≤ (firstTransmissions l).length := by
  cases hresent : (Datagram.flags d).resent with
  | false => exact h.books.toNat_sequence (mem_firstTransmissions.2 ⟨⟨p, now, hmem⟩, hresent⟩)
  | true =>
    obtain ⟨before, after, hl⟩ := List.append_of_mem hmem
    obtain ⟨-, q, d₀, now₀, hmem₀, hfirst, -, -, hsame, -⟩ := h.first_of_resent hl hresent
    have hin : .transmitted q d₀ now₀ ∈ l := hl ▸ List.mem_append_left _ hmem₀
    rw [← hsame]
    exact h.books.toNat_sequence (mem_firstTransmissions.2 ⟨⟨q, now₀, hin⟩, hfirst⟩)

theorem Coursed.sequence_ne_zero (h : Coursed P V config l c) (hmem : .transmitted p d now ∈ l) :
    Datagram.sequence d ≠ 0 := by
  intro h0
  have hpos := (h.toNat_sequence hmem).1
  rw [h0] at hpos
  exact Nat.lt_irrefl 0 hpos

/-- **The number that is given next was not sent yet,** as long as numbers are not used again. -/
theorem Traced.times_nextSequence (h : Traced P config l c)
    (hbound : (firstTransmissions l).length < sequenceCount) : times c.nextSequence l = [] := by
  refine List.eq_nil_iff_forall_not_mem.2 fun now hmem ↦ ?_
  obtain ⟨p, d, hev, hsequence⟩ := exists_of_mem_times hmem
  have hle := (h.coursed.toNat_sequence hev).2
  rw [hsequence, h.books.next, Nat.mod_eq_of_lt hbound] at hle
  omega

/-! ### The account -/

/-- The datagram of an entry counts its transmissions after the first one, and has the instant of the
last one. -/
structure Dated (l : List Event) (p : Outgoing) : Prop where
  count : (times p.sequence l).length = p.retries.toNat + 1
  last : (times p.sequence l).getLast? = p.lastSend

/-- The entries are dated, and what waits to be sent for the first time has no retries. -/
structure Dates (l : List Event) (c : Circuit) : Prop where
  entries : ∀ e ∈ c.tracker.unacked, Dated l e.packet
  untried : ∀ lane, ∀ p ∈ (c.queues.get lane).toList, p.sequence = 0 → p.retries = 0

theorem Dated.append (h : Dated l p) (hk : times p.sequence k = []) : Dated (l ++ k) p := by
  refine ⟨?_, ?_⟩ <;> rw [times_append, hk, List.append_nil]
  · exact h.count
  · exact h.last

/-- What is sent under another number does not matter. -/
theorem Dated.elsewhere (h : Dated l p) (hne : p.sequence ≠ Datagram.sequence d) {q : Outgoing} :
    Dated (l ++ [.transmitted q d now]) p := by
  refine h.append ?_
  rw [times_transmitted]
  exact if_neg hne.symm

/-- An entry is made at the first transmission. -/
theorem Dated.first {buffer : Octets} {q : Outgoing} (hnone : times n l = [])
    (hnumber : Datagram.sequence d = n) (hretries : p.retries = 0) :
    Dated (l ++ [.transmitted q d now]) (firstEntry p buffer n now).packet := by
  have htimes : times n (l ++ [.transmitted q d now]) = [now] := by
    rw [times_append, hnone, times_transmitted, if_pos hnumber, List.nil_append]
  have hzero : (firstEntry p buffer n now).packet.retries.toNat = 0 := congrArg UInt32.toNat hretries
  refine ⟨?_, congrArg List.getLast? htimes⟩
  rw [hzero]
  exact congrArg List.length htimes

/-- Any further transmission is counted in it. -/
theorem Dated.again {e : Tracked} (h : Dated l e.packet) {q : Outgoing} {retries : UInt32}
    (hnumber : Datagram.sequence d = e.sequence) (hretries : retries.toNat = e.packet.retries.toNat + 1) :
    Dated (l ++ [.transmitted q d now]) (resentEntry e retries now).packet := by
  have htimes : times e.packet.sequence (l ++ [.transmitted q d now]) =
      times e.packet.sequence l ++ [now] := by
    rw [times_append, times_transmitted]
    exact congrArg (_ ++ ·) (if_pos hnumber)
  constructor
  · show (times e.packet.sequence _).length = retries.toNat + 1
    rw [htimes, List.length_append, h.count, hretries]
    rfl
  · show (times e.packet.sequence _).getLast? = some now
    rw [htimes, List.getLast?_append]
    rfl

/-- What sends nothing out of a queue keeps the dates, if nothing new shows up in the account, and no
retries in the queues. -/
theorem Dates.unsent (h : Dates l c) (hk : transmissions k = [])
    (hentries : ∀ e' ∈ c'.tracker.unacked, ∃ e ∈ c.tracker.unacked, e.packet = e'.packet)
    (hqueues : ∀ lane, ∀ p ∈ (c'.queues.get lane).toList, p.sequence = 0 → p.retries ≠ 0 →
      p ∈ (c.queues.get lane).toList) : Dates (l ++ k) c' where
  entries e' he' := by
    obtain ⟨e, he, hpacket⟩ := hentries e' he'
    exact hpacket ▸ (h.entries e he).append (times_eq_nil hk _)
  untried lane p hp h0 := by
    by_contra hretries
    exact hretries (h.untried lane p (hqueues lane p hp h0 hretries) h0)

theorem Dates.same (h : Dates l c) (hsame : SameBooks c c') (hk : transmissions k = []) :
    Dates (l ++ k) c' := by
  refine h.unsent hk (fun e he ↦ ⟨e, ?_, rfl⟩) fun lane p hp _ _ ↦ ?_
  · rwa [hsame.unacked] at he
  · rwa [hsame.queues] at hp

/-- Queues whose datagrams were in them before may take their place. -/
theorem Dates.shrink (h : Dates l c) {lane : Lane} {q : LaneQueue}
    (hq : ∀ p ∈ q.toList, p ∈ (c.queues.get lane).toList) :
    Dates l { c with queues := c.queues.set lane q } := by
  refine ⟨h.entries, fun lane' p hp ↦ ?_⟩
  rw [PerLane.get_set] at hp
  split at hp
  · rename_i heq
    subst heq
    exact h.untried lane p (hq p hp)
  · exact h.untried lane' p hp

/-- **A transmission** is counted and dated in the entry of its number. -/
theorem Dates.transmit (h : Dates l c) (htraced : Traced P config l c)
    (hbound : (firstTransmissions l).length < sequenceCount) {lane : Lane} {q : LaneQueue}
    (htake : (c.queues.get lane).take? c.isUseful = (some p, q))
    (hsent : { c with queues := c.queues.set lane q }.transmit p now = .ok (d, c')) :
    Dates (l ++ [.transmitted p d now]) c' := by
  have hbooks := htraced.books
  obtain ⟨hp, hrest⟩ := mem_of_take? htake
  have hshrunk := h.shrink hrest
  obtain ⟨m, reliable, piece, i, bytes, -, -, -, -,
      ⟨h0, hd, rfl⟩ | ⟨h0, e, retries, he, hretries, hd, rfl⟩⟩ :=
    transmit_cases (c := { c with queues := c.queues.set lane q }) (hbooks.queues lane p hp).carries
      (LaneQueue.take?_eq_some htake).1 hsent
  · have hnumber : Datagram.sequence d = c.nextSequence := by
      rw [hd, Datagram.sequence_wire]
    have hold : ∀ x ∈ c.tracker.unacked, Dated (l ++ [.transmitted p d now]) x.packet := by
      intro x hx
      have hne : x.sequence ≠ c.nextSequence :=
        hbooks.ne_nextSequence hbound (hbooks.entries x hx).kept.sent.mem_reliableSequences
      exact (h.entries x hx).elsewhere (hnumber ▸ hne)
    refine ⟨fun x (hx : x ∈ if reliable then _ else _) ↦ ?_, hshrunk.untried⟩
    split at hx
    · rcases Tracker.mem_insert.1 hx with rfl | ⟨hx, -⟩
      · exact .first (htraced.times_nextSequence hbound) hnumber (h.untried lane p hp h0)
      · exact hold x hx
    · exact hold x hx
  · obtain ⟨hmem, hsequence⟩ := Tracker.mem_of_find? he
    have hnumber : Datagram.sequence d = e.sequence := by
      rw [hd, Datagram.sequence_wire, hsequence]
    refine ⟨fun x hx ↦ ?_, hshrunk.untried⟩
    rcases Tracker.mem_insert.1 hx with rfl | ⟨hx, hne⟩
    · exact (h.entries e hmem).again hnumber hretries
    · exact (h.entries x hx).elsewhere fun heq ↦ hne (heq.trans hnumber)

theorem Dates.service (h : Dates l c) (htraced : Traced P config l c)
    (hbound : (firstTransmissions l).length < sequenceCount) (hs : Service now c k c') :
    Dates (l ++ k) c' := by
  cases hs with
  | quiet hq => exact h.same hq.sameBooks hq.transmissions_eq_nil
  | discard htake =>
    rw [List.append_nil]
    refine h.shrink fun p hp ↦ ?_
    rw [(LaneQueue.take?_eq_none htake).1] at hp
    exact absurd hp List.not_mem_nil
  | holdBack htake =>
    rw [List.append_nil]
    obtain ⟨hp, hrest⟩ := mem_of_take? htake
    refine h.shrink fun x hx ↦ ?_
    rw [LaneQueue.toList_holdBack (LaneQueue.take?_eq_some htake).2.1] at hx
    rcases List.mem_cons.1 hx with rfl | hx
    · exact hp
    · exact hrest x hx
  | transmit htake hsent => exact h.transmit htraced hbound htake hsent

/-- Copies of what was sent before have a number, so the queues stay untried. -/
theorem Dates.expire (h : Dates l c) (hbooks : Books P config l c) (now : Instant) :
    Dates (l ++ (c.collectExpired now).1.map .unacknowledged) (c.collectExpired now).2 := by
  obtain ⟨-, q, hsnd, hq⟩ := collectExpired_eq now hbooks.ordered rfl
  rw [hsnd]
  refine h.unsent (filterMap_map_eq_nil (fun _ ↦ rfl) _) (fun e' he' ↦ ?_) fun lane p hp h0 _ ↦ ?_
  · obtain ⟨e, he, rfl⟩ := List.mem_map.1 he'
    exact ⟨e, (List.mem_filter.1 he).1, (packet_markIf ..).symm⟩
  · rw [PerLane.get_set] at hp
    split at hp
    · rename_i heq
      subst heq
      rw [hq] at hp
      refine (List.mem_append.1 hp).resolve_right fun hcopy ↦ ?_
      obtain ⟨e, he, rfl⟩ := List.mem_map.1 hcopy
      exact (hbooks.entries e (List.mem_filter.1 he).1).kept.numbered h0
    · exact hp

/-- **Every move keeps the dates,** as long as numbers are not used again. -/
theorem Dates.move (h : Dates l c) (htraced : Traced P config l c)
    (hbound : (firstTransmissions l).length < sequenceCount) (hm : Move P c k c') :
    Dates (l ++ k) c' := by
  cases hm with
  | service hs => exact h.service htraced hbound hs
  | arrival ha =>
    obtain ⟨q, disposition, rfl⟩ := ha.exists_arrived
    exact h.same ha.sameBooks rfl
  | @queue _ lane buffer notify =>
    refine h.unsent rfl (fun e he ↦ ⟨e, he, rfl⟩) fun lane' p hp _ hretries ↦ ?_
    rw [push, PerLane.get_modify] at hp
    split at hp
    · rw [LaneQueue.toList_push] at hp
      refine (List.mem_append.1 hp).resolve_right fun hone ↦ ?_
      exact hretries (List.mem_singleton.1 hone ▸ rfl)
    · exact hp
  | acknowledge _ n now =>
    obtain ⟨r, hr, -⟩ := Tracker.acknowledge_snd n now c.tracker
    refine h.unsent (filterMap_map_eq_nil (fun _ ↦ rfl) _) (fun e he ↦ ?_) fun lane p hp _ _ ↦ hp
    rw [hr] at he
    exact ⟨e, (List.mem_filter.1 he).1, rfl⟩
  | sample => exact h.unsent rfl (fun e he ↦ ⟨e, he, rfl⟩) fun lane p hp _ _ ↦ hp
  | outdate _ now =>
    rw [dropOutdated]
    split
    · exact h.unsent rfl (fun e he ↦ ⟨e, he, rfl⟩) fun lane p hp _ _ ↦ hp
    · exact h.unsent (filterMap_map_eq_nil (fun _ ↦ rfl) _)
        (fun e he ↦ ⟨e, (List.mem_filter.1 he).1, rfl⟩) fun lane p hp _ _ ↦ hp
  | expire _ now => exact h.expire htraced.books now
  | close =>
    refine h.unsent (filterMap_map_eq_nil (fun _ ↦ rfl) _) (fun e he ↦ absurd he List.not_mem_nil)
      fun lane p hp _ _ ↦ ?_
    rw [PerLane.get_replicate] at hp
    exact absurd hp List.not_mem_nil

/-- **Entries know how often and when their datagrams were sent,** as long as numbers are not used
again. -/
theorem Traced.dates (h : Traced P config l c)
    (hbound : (firstTransmissions l).length < sequenceCount) : Dates l c := by
  refine h.steps (motive := fun l c ↦ (firstTransmissions l).length < sequenceCount → Dates l c)
    (fun hfresh _ ↦ ⟨fun e he ↦ ?_, fun lane p hp ↦ ?_⟩)
    (fun {l k c c'} htraced hl hm hlonger ↦ ?_) hbound
  · rw [hfresh.unacked] at he
    exact absurd he List.not_mem_nil
  · rw [hfresh.queues, PerLane.get_replicate] at hp
    exact absurd hp List.not_mem_nil
  · have hshorter := Nat.lt_of_le_of_lt (length_firstTransmissions_le l k) hlonger
    exact (hl hshorter).move htraced hshorter hm

/-! ### What ticks answer -/

/-- The instants at which ticks put out something under the number, in order. -/
def sendings (n : UInt32) (h : List ((Operation × Forest) × Moment)) : List Instant :=
  h.flatMap fun x ↦ match x.1.1 with
    | .tick now => (x.2.answer.datagrams.filter (Datagram.sequence · == n)).map fun _ ↦ now
    | _ => []

theorem Upkept.sequence_eq_zero {mtu : Nat} (h : Upkept mtu t) :
    ∀ d ∈ t.output.datagrams, Datagram.sequence d = 0 := by
  obtain ⟨acks, ping, hdatagrams, hacks, hping⟩ := h.datagrams
  intro d hd
  rw [hdatagrams] at hd
  rcases List.mem_append.1 hd with hd | hd
  · obtain ⟨s, hs⟩ := hacks d hd
    exact sequence_of_signal hs
  · obtain ⟨id, oldest, hs⟩ := hping d (Option.mem_toList.1 hd)
    exact sequence_of_signal hs

/-- What a tick sends out of queues is numbered. -/
theorem numbered_of_tick (h : Coursed P (fun _ ↦ True) config l c) (ht : c.tick now f = .ok t)
    (hopen : c.isClosed = false) : ∃ sent,
      t.output.datagrams = (c.prepared now f).output.datagrams ++ sent ∧
        ∀ d ∈ sent, Datagram.sequence d ≠ 0 := by
  obtain ⟨sent, -, hdatagrams, hlog⟩ := (round_of_tick h.books ht hopen).sent
  refine ⟨sent.map Prod.snd, hdatagrams, fun d hd ↦ ?_⟩
  obtain ⟨s, hs, rfl⟩ := List.mem_map.1 hd
  have hmem : .transmitted s.1 s.2 now ∈ l ++ t.log := by
    rw [hlog]
    exact List.mem_append_right _ (List.mem_append_right _ (List.mem_map_of_mem hs))
  exact (h.trans (courses_of_moves (chain_of_tick ht) fun _ _ ↦ trivial)).sequence_ne_zero hmem

/-- **Nothing but a tick sends anything under a number.** -/
theorem sequence_eq_zero_of_apply {o : Operation} {answer : Answer} (ho : ∀ now, o ≠ .tick now)
    (h : c.apply o f = .ok (answer, c', f')) : ∀ d ∈ answer.datagrams, Datagram.sequence d = 0 := by
  intro d hd
  -- all that is put out besides are signals, which go out without a number
  cases o with
  | send category m reliable notify =>
    cases h
    rw [(silent_queuing c (c.send category m reliable notify)).1] at hd
    exact absurd hd List.not_mem_nil
  | enqueue p =>
    cases h
    rw [(silent_queuing c (c.enqueue p)).1] at hd
    exact absurd hd List.not_mem_nil
  | tick now => exact absurd rfl (ho now)
  | receive p length now =>
    obtain ⟨disposition, -, h⟩ := bind_eq_ok_iff.1 h
    cases h
    exact absurd hd List.not_mem_nil
  | flushAcks =>
    cases h
    obtain ⟨s, hs⟩ := exists_signal_of_mem_sendAcks hd
    exact sequence_of_signal hs
  | ping now =>
    cases h
    exact sequence_of_signal (signal_of_ping (Option.mem_toList.1 hd))
  | answerPing id =>
    simp only [apply] at h
    cases hs : c.answerPing id with
    | ok d' =>
      rw [hs] at h
      cases h
      obtain rfl := List.mem_singleton.1 hd
      exact sequence_of_signal hs
    | error e =>
      rw [hs] at h
      cases h
      exact absurd hd List.not_mem_nil
  | renegotiate requested now =>
    obtain ⟨⟨adjustment, forest⟩, -, h⟩ := bind_eq_ok_iff.1 h
    cases h
    exact absurd hd List.not_mem_nil
  | close =>
    rw [apply_close] at h
    obtain ⟨rfl, -⟩ := Prod.mk.inj (Except.ok.inj h)
    exact absurd hd List.not_mem_nil
  | acknowledge | takePong | connect | pause | resume | beginQueueEmpty | endQueueEmpty =>
    cases h
    exact absurd hd List.not_mem_nil

/-- **A tick records what it sends** under a number with its own instant. -/
theorem times_of_tick (h : Traced P config l c) (ht : c.tick now f = .ok t) (hn : n ≠ 0) :
    times n t.log = (t.output.datagrams.filter (Datagram.sequence · == n)).map fun _ ↦ now := by
  cases hclosed : c.isClosed with
  | true =>
    rw [tick_of_isClosed ht hclosed]
    rfl
  | false =>
    obtain ⟨sent, -, hdatagrams, hlog⟩ := (round_of_tick h.books ht hclosed).sent
    have hupkept := upkept_prepared now c f
    have hnone : (c.prepared now f).output.datagrams.filter (Datagram.sequence · == n) = [] := by
      refine List.filter_eq_nil_iff.2 fun d hd heq ↦ hn ?_
      rw [← eq_of_beq heq, hupkept.sequence_eq_zero d hd]
    rw [hlog, times_append, times_eq_nil hupkept.transmissions, times_map_transmitted, hdatagrams,
      List.filter_append, hnone, List.nil_append, List.nil_append]

/-- A chronicle has a moment for each operation. -/
theorem length_of_chronicle {ops : List (Operation × Forest)} {moments : List Moment}
    (h : chronicle ops c = .ok (moments, c')) : moments.length = ops.length := by
  induction ops generalizing c moments with
  | nil =>
    obtain ⟨rfl, -⟩ := Prod.mk.inj (Except.ok.inj h)
    rfl
  | cons o ops ih =>
    obtain ⟨answer, next, forest, moments', -, hrest, rfl⟩ := chronicle_cons_eq_ok h
    rw [List.length_cons, List.length_cons, ih hrest]

theorem sequence_eq_zero_of_chronicle {ops : List (Operation × Forest)} {moments : List Moment}
    (h : chronicle ops c = .ok (moments, c')) : ∀ x ∈ ops.zip moments, (∀ now, x.1.1 ≠ .tick now) →
      ∀ d ∈ x.2.answer.datagrams, Datagram.sequence d = 0 := by
  induction ops generalizing c moments with
  | nil => exact fun x hx ↦ absurd hx List.not_mem_nil
  | cons o ops ih =>
    obtain ⟨answer, next, forest, moments', ho, hrest, rfl⟩ := chronicle_cons_eq_ok h
    intro x hx hno
    rw [List.zip_cons_cons] at hx
    rcases List.mem_cons.1 hx with rfl | hx
    · exact sequence_eq_zero_of_apply hno ho
    · exact ih hrest x hx hno

/-- **What an operation answers is what it records** about the transmissions under a number. -/
theorem sendings_of_apply {o : Operation} {answer : Answer} (h : Traced P config l c)
    (ho : c.apply o f = .ok (answer, c', f')) (hn : n ≠ 0) :
    sendings n [((o, f), ⟨answer, c.events o f⟩)] = times n (c.events o f) := by
  by_cases htick : ∃ now, o = .tick now
  · obtain ⟨now, rfl⟩ := htick
    obtain ⟨t, ht, rfl, rfl, rfl⟩ := eq_of_apply_tick ho
    simp only [events, ht]
    rw [times_of_tick h ht hn]
    exact List.append_nil _
  · have hno : ∀ now, o ≠ .tick now := fun now heq ↦ htick ⟨now, heq⟩
    rw [times_eq_nil (transmissions_events hno c f)]
    cases o <;> first | rfl | exact absurd rfl (hno _)

@[simp] theorem sendings_append (n : UInt32) (h h' : List ((Operation × Forest) × Moment)) :
    sendings n (h ++ h') = sendings n h ++ sendings n h' :=
  List.flatMap_append

/-- **What ticks answer is what the record tells** in a whole chronicle. -/
theorem sendings_of_chronicle {ops : List (Operation × Forest)} {moments : List Moment}
    (h : Traced P config l c) (hP : ∀ o ∈ ops, Operation.QueuesOnly P (Prod.fst o))
    (hops : chronicle ops c = .ok (moments, c')) (hn : n ≠ 0) :
    sendings n (ops.zip moments) = times n (history moments) := by
  induction ops generalizing l c moments with
  | nil =>
    obtain ⟨rfl, rfl⟩ := Prod.mk.inj (Except.ok.inj hops)
    rfl
  | cons o ops ih =>
    obtain ⟨answer, next, forest, moments', ho, hrest, rfl⟩ := chronicle_cons_eq_ok hops
    have hnext := h.apply (hP o List.mem_cons_self) ho
    rw [List.zip_cons_cons, ← List.singleton_append, sendings_append, sendings_of_apply h ho hn,
      history_cons, times_append, ih hnext (fun o' ho' ↦ hP o' (List.mem_cons_of_mem _ ho')) hrest]

end Circuit

end DatagramCircuits
