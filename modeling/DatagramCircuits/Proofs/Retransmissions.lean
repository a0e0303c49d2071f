import DatagramCircuits.Proofs.Counters
/-!
# What counts as sent again

A tick counts what it sends out of the lane of resent datagrams (`TickOutput.resent`), and serves that lane
also when it stalls. Copies wait in that lane, but a message may be sent under it as well, and its
datagrams are taken for copies there. So **the count is that of the datagrams with the flag for another
transmission, and of the first transmissions out of that lane** (`Circuit.retransmits_of_lived`), and
those go on while a tick stalls. `Circuit.retransmits_not_only` is a life in which both happens.

If no message is sent under that lane, only what was sent before counts, and nothing is sent for the
first time while a tick stalls.
-/

namespace DatagramCircuits

/-- What is asked for in a lane is the next datagram of the lane. -/
theorem Allowance.packet_of_mem_bids {a : Allowance} {next : Lane → Option Outgoing} {now : Instant}
    {lanes : List Lane} {f : Forest} {b : Bid} (h : b ∈ (a.bids next now lanes f).1) :
    next b.lane = some b.packet := by
  induction lanes generalizing f with
  | nil => exact absurd h List.not_mem_nil
  | cons lane lanes ih =>
    rw [bids] at h
    rcases List.mem_append.1 h with hfirst | hrest
    · cases hnext : next lane with
      | none =>
        rw [hnext] at hfirst
        exact absurd hfirst List.not_mem_nil
      | some p =>
        rw [hnext] at hfirst
        obtain rfl := List.mem_singleton.1 hfirst
        exact hnext
    · exact ih hrest

namespace Circuit

variable {P : Message → Prop} {config : Config} {l k : List Event} {c c' : Circuit} {now : Instant}
  {f f' : Forest} {t : Turn}

/-- The datagram carries the flag for another transmission. -/
def isFlagged (d : Octets) : Bool :=
  (Datagram.flags d).resent

/-- How many datagrams were sent again. -/
def retransmitted (k : List Event) : Nat :=
  (transmissions k).countP fun s ↦ isFlagged s.2

/-- How many datagrams were sent for the first time, out of the lane of resent datagrams. -/
def mistaken (k : List Event) : Nat :=
  (newlySent k).countP (Outgoing.isOf .resend)

/-! ### A tick and its record -/

theorem transmissions_map_transmitted (sent : List (Outgoing × Octets)) (now : Instant) :
    transmissions (sent.map fun s ↦ .transmitted s.1 s.2 now) = sent := by
  rw [transmissions, List.filterMap_map]
  exact List.filterMap_some

theorem queued_map_transmitted (sent : List (Outgoing × Octets)) (now : Instant) :
    queued (sent.map fun s ↦ .transmitted s.1 s.2 now) = [] :=
  filterMap_map_eq_nil (fun _ ↦ rfl) sent

/-- The record of a tick tells what the allowance afforded in its round. -/
theorem record_of_tick (h : Traced P config l c) (ht : c.tick now f = .ok t)
    (hopen : c.isClosed = false) :
    (transmissions t.log).map Prod.fst = (((c.prepared now f).bids now
        (if t.output.stalled then [.resend] else Lane.all)).filter Bid.afforded).map Bid.packet ∧
      t.output.datagrams =
        (c.prepared now f).output.datagrams ++ (transmissions t.log).map Prod.snd ∧
      queued t.log = [] := by
  obtain ⟨sent, hsent, hdatagrams, hlog⟩ := (round_of_tick h.books ht hopen).sent
  have hupkept := upkept_prepared now c f
  have htransmissions : transmissions t.log = sent := by
    rw [hlog, transmissions_append, hupkept.transmissions, transmissions_map_transmitted,
      List.nil_append]
  refine ⟨?_, ?_, ?_⟩
  · rw [htransmissions, hsent]
  · rw [htransmissions, hdatagrams]
  · rw [hlog, queued_append, hupkept.queued, queued_map_transmitted, List.append_nil]

/-- A tick queues no message. -/
theorem queued_of_tick (h : Traced P config l c) (ht : c.tick now f = .ok t) : queued t.log = [] := by
  cases hclosed : c.isClosed with
  | true =>
    rw [tick_of_isClosed ht hclosed]
    rfl
  | false => exact (record_of_tick h ht hclosed).2.2

/-- What is sent in a round belongs to the lane that asked for it. -/
theorem category_of_mem_bids (h : Traced P config l c) (hopen : c.isClosed = false) {lanes : List Lane}
    {b : Bid} (hb : b ∈ (c.prepared now f).bids now lanes) :
    b.packet.category = .throttled b.lane := by
  have hstays : (c.prepared now f).circuit.isClosed = false :=
    (isClosed_of_standing (keeps_prepared now c f).standing).trans hopen
  exact ((h.prepared now f).lossless hstays).category b.lane b.packet
    (List.mem_of_find?_eq_some (Allowance.packet_of_mem_bids hb))

/-! ### What counts -/

theorem not_flagged_of_signal {mtu : Nat} {m : Control} {d : Octets} (h : signal mtu m = .ok d) :
    isFlagged d = false := by
  rw [isFlagged, eq_of_signal h, Message.datagram, Datagram.flags_plain]

/-- Before the round of a tick nothing is sent again. -/
theorem Upkept.countP_flagged {mtu : Nat} {t : Turn} (h : Upkept mtu t) :
    t.output.datagrams.countP isFlagged = 0 := by
  obtain ⟨acks, ping, hdatagrams, hacks, hping⟩ := h.datagrams
  refine List.countP_eq_zero.2 fun d hd ↦ ?_
  rw [hdatagrams] at hd
  rw [Bool.not_eq_true]
  rcases List.mem_append.1 hd with hd | hd
  · obtain ⟨s, hs⟩ := hacks d hd
    exact not_flagged_of_signal hs
  · obtain ⟨id, oldest, hs⟩ := hping d (Option.mem_toList.1 hd)
    exact not_flagged_of_signal hs

/-- A datagram that is sent has the flag unless it is new. -/
theorem Traced.isFlagged_eq (h : Traced P config l c) {s : Outgoing × Octets}
    (hs : s ∈ transmissions l) : isFlagged s.2 = !s.1.isNew := by
  have hiff := (h.first_iff (p := s.1) (d := s.2) hs).1
  rw [isFlagged]
  cases hnew : s.1.isNew with
  | true => exact hiff.2 hnew
  | false =>
    refine Bool.eq_true_of_not_eq_false fun hflag ↦ ?_
    rw [hiff.1 hflag] at hnew
    cases hnew

/-- What was sent before waits in the lane of resent datagrams only. -/
theorem isOf_resend_of_old (h : Traced P config l c) (hopen : c.isClosed = false) {lanes : List Lane}
    {b : Bid} (hb : b ∈ (c.prepared now f).bids now lanes) (hold : b.packet.isNew = false) :
    b.packet.isOf .resend = true := by
  have hmem := List.mem_of_find?_eq_some (Allowance.packet_of_mem_bids hb)
  have hcategory := category_of_mem_bids h hopen hb
  by_contra hother
  have hne : b.lane ≠ .resend := fun heq ↦ hother (by rw [Outgoing.isOf, hcategory, heq]; rfl)
  rw [(h.books.prepared now f).isNew_of_ordinary hne b.packet hmem] at hold
  cases hold

/-- What is sent out of the lane of resent datagrams is counted. -/
theorem resent_eq_countP (h : Traced P config l c) (ht : c.tick now f = .ok t)
    (hopen : c.isClosed = false) :
    t.output.resent = ((transmissions t.log).map Prod.fst).countP (Outgoing.isOf .resend) := by
  have hnone : (c.prepared now f).output.resent = 0 :=
    congrArg Prod.snd (Turn.verdict_upkeep now { circuit := c, forest := f })
  rw [(round_of_tick h.books ht hopen).resent, hnone, Nat.zero_add, (record_of_tick h ht hopen).1,
    List.countP_map]
  refine List.countP_congr fun b hb ↦ ?_
  rw [Function.comp_apply, Outgoing.isOf, category_of_mem_bids h hopen (List.mem_filter.1 hb).1]
  cases b.lane <;> decide

/-- What is sent again comes out of that lane. -/
theorem countP_old_of_tick (h : Traced P config l c) (ht : c.tick now f = .ok t)
    (hopen : c.isClosed = false) :
    (((transmissions t.log).map Prod.fst).filter fun p ↦ !p.isNew).countP (Outgoing.isOf .resend) =
      retransmitted t.log := by
  have hsent := (record_of_tick h ht hopen).1
  have hall : ∀ p ∈ ((transmissions t.log).map Prod.fst).filter fun p ↦ !p.isNew,
      p.isOf .resend = true := by
    intro p hp
    obtain ⟨hp, hold⟩ := List.mem_filter.1 hp
    rw [hsent] at hp
    obtain ⟨b, hb, rfl⟩ := List.mem_map.1 hp
    exact isOf_resend_of_old h hopen (List.mem_filter.1 hb).1 (by simpa using hold)
  rw [List.countP_eq_length.2 hall, ← List.countP_eq_length_filter, List.countP_map, retransmitted]
  refine List.countP_congr fun s hs ↦ ?_
  rw [(h.tick ht).isFlagged_eq (by rw [transmissions_append]; exact List.mem_append_right _ hs)]
  rfl

/-- **A tick counts** the datagrams with the flag, and the first transmissions out of the lane of resent
datagrams. -/
theorem resent_of_tick (h : Traced P config l c) (ht : c.tick now f = .ok t) :
    t.output.resent = t.output.datagrams.countP isFlagged + mistaken t.log ∧
      t.output.resent = retransmitted t.log + mistaken t.log := by
  cases hclosed : c.isClosed with
  | true =>
    rw [tick_of_isClosed ht hclosed]
    exact ⟨rfl, rfl⟩
  | false =>
    have hflagged : t.output.datagrams.countP isFlagged = retransmitted t.log := by
      rw [(record_of_tick h ht hclosed).2.1, List.countP_append,
        (upkept_prepared now c f).countP_flagged, Nat.zero_add, List.countP_map]
      rfl
    have hsplit : t.output.resent = retransmitted t.log + mistaken t.log := by
      rw [resent_eq_countP h ht hclosed, List.countP_eq_countP_filter_add _ _ Outgoing.isNew,
        Nat.add_comm]
      exact congrArg (· + mistaken t.log) (countP_old_of_tick h ht hclosed)
    exact ⟨hflagged ▸ hsplit, hsplit⟩

/-- **While a tick stalls,** only the lane of resent datagrams sends anything for the first time. -/
theorem category_of_stalled (h : Traced P config l c) (ht : c.tick now f = .ok t)
    (hstalled : t.output.stalled = true) : ∀ p ∈ newlySent t.log, p.category = .throttled .resend := by
  intro p hp
  cases hclosed : c.isClosed with
  | true =>
    rw [tick_of_isClosed ht hclosed] at hstalled
    cases hstalled
  | false =>
    obtain ⟨hsent, -, -⟩ := record_of_tick h ht hclosed
    have hround := round_of_tick h.books ht hclosed
    have hmem := (List.mem_filter.1 hp).1
    rw [hsent] at hmem
    obtain ⟨b, hb, rfl⟩ := List.mem_map.1 hmem
    have hb := (List.mem_filter.1 hb).1
    rw [hstalled] at hround hb
    have hlane := List.mem_singleton.1 (hround.ordered.subset (List.mem_map_of_mem hb))
    rw [category_of_mem_bids h hclosed hb, hlane]

/-- **A new number is for a first transmission.** -/
theorem nextSequence_of_tick (h : Traced P config l c) (ht : c.tick now f = .ok t)
    (hnone : newlySent t.log = []) : t.circuit.nextSequence = c.nextSequence := by
  have hfirst : firstTransmissions t.log = [] := by
    refine List.eq_nil_iff_forall_not_mem.2 fun d hd ↦ ?_
    obtain ⟨⟨p, now', hev⟩, hflag⟩ := mem_firstTransmissions.1 hd
    have hmem : (p, d) ∈ transmissions t.log := mem_transmissions.2 ⟨now', hev⟩
    have hin : (p, d) ∈ transmissions (l ++ t.log) := by
      rw [transmissions_append]
      exact List.mem_append_right _ hmem
    have hnew := ((h.tick ht).first_iff hin).1.1 hflag
    have hp : p ∈ newlySent t.log := List.mem_filter.2 ⟨List.mem_map.2 ⟨(p, d), hmem, rfl⟩, hnew⟩
    rw [hnone] at hp
    exact absurd hp List.not_mem_nil
  have hnext := (h.tick ht).books.next
  rw [firstTransmissions_append, hfirst, List.append_nil, ← h.books.next] at hnext
  exact UInt32.toNat_inj.1 hnext

/-! ### The counter of a circuit -/

/-- **An operation adds** to the counter what its record tells. -/
theorem counter_of_events {o : Operation} {answer : Answer} (h : Traced P config l c)
    (ho : c.apply o f = .ok (answer, c', f')) :
    c'.resent = c.resent +
      UInt64.ofNat (retransmitted (c.events o f) + mistaken (c.events o f)) := by
  have hcount : c'.resent = c.resent + UInt64.ofNat answer.resent :=
    congrArg Prod.snd (counters_of_apply ho)
  rw [hcount]
  by_cases htick : ∃ now, o = .tick now
  · obtain ⟨now, rfl⟩ := htick
    obtain ⟨t, ht, rfl, rfl, rfl⟩ := eq_of_apply_tick ho
    simp only [events, ht]
    rw [← (resent_of_tick h ht).2]
    rfl
  · have hno : ∀ now, o ≠ .tick now := fun now heq ↦ htick ⟨now, heq⟩
    have hnone := transmissions_events hno c f
    rw [resent_eq_zero_of_apply hno ho, retransmitted, mistaken, hnone, newlySent_eq_nil hnone]
    rfl

theorem counter_of_chronicle {ops : List (Operation × Forest)} {moments : List Moment}
    (h : Traced P config l c) (hP : ∀ o ∈ ops, Operation.QueuesOnly P (Prod.fst o))
    (hops : chronicle ops c = .ok (moments, c')) :
    c'.resent = c.resent +
      UInt64.ofNat (retransmitted (history moments) + mistaken (history moments)) := by
  induction ops generalizing l c moments with
  | nil =>
    obtain ⟨rfl, rfl⟩ := Prod.mk.inj (Except.ok.inj hops)
    exact (UInt64.add_zero _).symm
  | cons o ops ih =>
    obtain ⟨answer, next, forest, moments', ho, hrest, rfl⟩ := chronicle_cons_eq_ok hops
    have hfirst := hP o List.mem_cons_self
    rw [ih (h.apply hfirst ho) (fun o' ho' ↦ hP o' (List.mem_cons_of_mem _ ho')) hrest,
      counter_of_events h ho, history_cons, UInt64.add_assoc, ← UInt64.ofNat_add]
    congr 2
    simp only [retransmitted, mistaken, transmissions_append, newlySent_append, List.countP_append]
    omega

/-! ### The count of a life -/

/-- What was sent for the first time was queued. -/
theorem Traced.mem_queued (h : Traced P config l c) {p : Outgoing} (hp : p ∈ newlySent l) :
    p ∈ queued l := by
  obtain ⟨hmem, hnew⟩ := List.mem_filter.1 hp
  have hle := h.count_le (beq_iff_eq.1 hnew)
  exact List.count_pos_iff.1 (Nat.lt_of_lt_of_le (List.count_pos_iff.2 hmem) hle)

/-- If no message was sent under the lane of resent datagrams, nothing is sent for the first time out of
that lane. -/
theorem Traced.newlySent_apart (h : Traced P config l c)
    (hqueued : ∀ p ∈ queued l, p.category ≠ .throttled .resend) :
    ∀ p ∈ newlySent l, p.category ≠ .throttled .resend :=
  fun p hp ↦ hqueued p (h.mem_queued hp)

theorem Traced.tick_apart (h : Traced P config l c) (ht : c.tick now f = .ok t)
    (hqueued : ∀ p ∈ queued l, p.category ≠ .throttled .resend) :
    ∀ p ∈ newlySent t.log, p.category ≠ .throttled .resend := by
  have hboth : ∀ p ∈ queued (l ++ t.log), p.category ≠ .throttled .resend := by
    rw [queued_append, queued_of_tick h ht, List.append_nil]
    exact hqueued
  refine fun p hp ↦ (h.tick ht).newlySent_apart hboth p ?_
  rw [newlySent_append]
  exact List.mem_append_right _ hp

/-- A tick that stalls sends nothing for the first time then. -/
theorem newlySent_of_stalled (h : Traced P config l c) (ht : c.tick now f = .ok t)
    (hstalled : t.output.stalled = true)
    (hqueued : ∀ p ∈ queued l, p.category ≠ .throttled .resend) : newlySent t.log = [] :=
  List.eq_nil_iff_forall_not_mem.2 fun p hp ↦
    h.tick_apart ht hqueued p hp (category_of_stalled h ht hstalled p hp)

theorem mistaken_eq_zero (h : ∀ p ∈ newlySent l, p.category ≠ .throttled .resend) : mistaken l = 0 :=
  List.countP_eq_zero.2 fun p hp heq ↦ h p hp (beq_iff_eq.1 heq)

/-- What a circuit counts as sent again, after the history so far. -/
structure Retransmits (l : List Moment) (c : Circuit) : Prop where
  /-- The counter is that of the datagrams sent again, and of the first transmissions out of the lane of
  resent datagrams. It has 64 bits. -/
  counter : c.resent = UInt64.ofNat (retransmitted (history l) + mistaken (history l))
  /-- A tick counts the same. -/
  resent : ∀ now f t, c.tick now f = .ok t →
    t.output.resent = t.output.datagrams.countP isFlagged + mistaken t.log
  /-- While a tick stalls, only that lane sends anything for the first time. -/
  stalled : ∀ now f t, c.tick now f = .ok t → t.output.stalled = true →
    ∀ p ∈ newlySent t.log, p.category = .throttled .resend
  /-- The next number changes with a first transmission only. -/
  number : ∀ now f t, c.tick now f = .ok t → newlySent t.log = [] →
    t.circuit.nextSequence = c.nextSequence
  /-- If no message was sent under that lane, only what was sent before counts, and a tick that stalls
  sends nothing for the first time. -/
  apart : (∀ p ∈ queued (history l), p.category ≠ .throttled .resend) →
    c.resent = UInt64.ofNat (retransmitted (history l)) ∧
    ∀ now f t, c.tick now f = .ok t →
      t.output.resent = t.output.datagrams.countP isFlagged ∧
        (t.output.stalled = true → newlySent t.log = [] ∧ t.circuit.nextSequence = c.nextSequence)

/-- **What counts as sent again** in any life. -/
theorem retransmits_of_lived {l : List Moment} (h : Lived (fun _ ↦ True) config l c) :
    Retransmits l c := by
  have htraced := h.traced
  have hcounter : c.resent = UInt64.ofNat (retransmitted (history l) + mistaken (history l)) := by
    obtain ⟨session, address, root, now, f, ops, hP, hlive⟩ := h
    obtain ⟨c₀, f', hopened, hrun⟩ := live_eq_ok hlive
    have hzero : c₀.resent = 0 := by
      obtain ⟨allowance, -, hbegun⟩ := opened_eq_ok_iff.1 hopened
      obtain ⟨roundTrip, tracker, -, -, rfl⟩ := begun_eq_ok hbegun
      rfl
    have hstart : Traced (fun _ ↦ True) config [] c₀ := ⟨c₀, fresh_of_opened hopened, Chain.refl⟩
    rw [counter_of_chronicle hstart hP hrun, hzero, UInt64.zero_add]
  refine ⟨hcounter, fun now f t ht ↦ (resent_of_tick htraced ht).1,
    fun now f t ht ↦ category_of_stalled htraced ht, fun now f t ht ↦ nextSequence_of_tick htraced ht,
    fun hqueued ↦ ⟨?_, fun now f t ht ↦ ?_⟩⟩
  · rw [hcounter, mistaken_eq_zero (htraced.newlySent_apart hqueued), Nat.add_zero]
  · have hapart := htraced.tick_apart ht hqueued
    refine ⟨?_, fun hstalled ↦ ?_⟩
    · rw [(resent_of_tick htraced ht).1, mistaken_eq_zero hapart, Nat.add_zero]
    · have hnone := newlySent_of_stalled htraced ht hstalled hqueued
      exact ⟨hnone, nextSequence_of_tick htraced ht hnone⟩

/-- Two reliable datagrams are on their way, which is one too many. Then a message is sent under the lane
of resent datagrams. -/
def crowdingOperations : List (Operation × Forest) :=
  let send (lane : Lane) : Operation :=
    .send (.throttled lane) { id := .high 5, payload := [1, 2, 3] } true false
  [send .task, send .texture, .tick (100 * Span.millisecond), send .resend].map
    (·, ⟨List.replicate 9 (.full [] 0 0 0)⟩)

theorem retransmits_of_crowding : ∃ l c, Lived (fun _ ↦ True) { highWater := 1 } l c ∧
    c.tracker.unacked.length = 2 ∧ (∃ p ∈ queued (history l), p.category = .throttled .resend) ∧
    Retransmits l c := by
  obtain ⟨⟨l, c⟩, hlive, htest⟩ := exists_eq_ok_of_any
    (x := live ⟨.ofNat 7, .ofNat 8, 99, none⟩ (.loopback 5) { highWater := 1 } 0 0 {} crowdingOperations)
    (p := fun r ↦ decide (r.2.tracker.unacked.length = 2 ∧
      ∃ p ∈ queued (history r.1), p.category = .throttled .resend)) (by decide +kernel)
  obtain ⟨hunacked, hqueued⟩ := of_decide_eq_true htest
  have hlived : Lived (fun _ ↦ True) { highWater := 1 } l c :=
    ⟨_, _, _, _, _, _, by simp [crowdingOperations, Operation.QueuesOnly], hlive⟩
  exact ⟨l, c, hlived, hunacked, hqueued, retransmits_of_lived hlived⟩

/-- **First transmissions count as well, and go on while a tick stalls.** -/
theorem retransmits_not_only : ∃ l c t, Config.Valid { highWater := 1 } ∧
    Lived (fun _ ↦ True) { highWater := 1 } l c ∧
    c.tick (200 * Span.millisecond) ⟨List.replicate 9 (.full [] 0 0 0)⟩ = .ok t ∧
    t.output.resent = 1 ∧ t.output.datagrams.countP isFlagged = 0 ∧
    t.output.stalled = true ∧ t.circuit.nextSequence ≠ c.nextSequence := by
  obtain ⟨⟨l, c⟩, hlive, htest⟩ := exists_eq_ok_of_any
    (x := live ⟨.ofNat 7, .ofNat 8, 99, none⟩ (.loopback 5) { highWater := 1 } 0 0 {} crowdingOperations)
    (p := fun r ↦ (r.2.tick (200 * Span.millisecond) ⟨List.replicate 9 (.full [] 0 0 0)⟩).toOption.any
      fun t : Turn ↦ decide (t.output.resent = 1 ∧ t.output.datagrams.countP isFlagged = 0 ∧
        t.output.stalled = true ∧ t.circuit.nextSequence ≠ r.2.nextSequence)) (by decide +kernel)
  obtain ⟨t, ht, htest⟩ := exists_eq_ok_of_any htest
  have hlived : Lived (fun _ ↦ True) { highWater := 1 } l c :=
    ⟨_, _, _, _, _, _, by simp [crowdingOperations, Operation.QueuesOnly], hlive⟩
  have hvalid : Config.Valid { highWater := 1 } := Config.valid_iff _ |>.2 (by decide +kernel)
  exact ⟨l, c, t, hvalid, hlived, ht, of_decide_eq_true htest⟩

end Circuit

end DatagramCircuits
