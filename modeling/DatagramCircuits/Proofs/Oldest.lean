import DatagramCircuits.Proofs.Instants
/-!
# What a ping says about the past

A ping names a number, and nothing with a number below it is sent after the ping, in any life in which
sequence numbers are not used again (`heeded_of_lived`). So a peer that has read the ping needs to remember
nothing about smaller numbers.

The number is the lowest one in the account, or else the next one to be given (`Books.isFloor`). The
former may leave the account, but entries come into it under the next number only, and that never falls
(`Traced.nextSequence_le`). **Copies that still wait below the number are not sent:** a copy is sent only
as long as its number is in the account, and that is where the number of the ping was taken from
(`Floored.transmit`).
-/

namespace DatagramCircuits

namespace Circuit

variable {P : Message → Prop} {config : Config} {l k : List Event} {c c' : Circuit} {mtu : Nat}
  {p : Outgoing} {d d' : Octets} {now : Instant} {oldest : UInt32}

/-- Either of the datagrams may be sent after the other one: if the first one is a ping, the second one has
no number below the one that it names. -/
def Heeds (mtu : Nat) (d d' : Octets) : Prop :=
  ∀ id oldest, Datagram.ping? mtu d = some (id, oldest) → Datagram.sequence d' ≠ 0 →
    oldest ≤ Datagram.sequence d'

/-- The number is a floor of what the circuit sends from now on. -/
structure IsFloor (c : Circuit) (oldest : UInt32) : Prop where
  next : oldest ≤ c.nextSequence
  entries : ∀ e ∈ c.tracker.unacked, oldest ≤ e.sequence

/-- The pings in the record name floors, and what was sent after them heeds them. -/
structure Floored (mtu : Nat) (l : List Event) (c : Circuit) : Prop where
  floors : ∀ d ∈ emissions l, ∀ id oldest, Datagram.ping? mtu d = some (id, oldest) → c.IsFloor oldest
  heeded : (emissions l).Pairwise (Heeds mtu)

/-! ### Floors -/

/-- Numbers in the account were given before the next one. -/
theorem Books.sequence_le (h : Books P config l c)
    (hbound : (firstTransmissions l).length < sequenceCount) :
    ∀ e ∈ c.tracker.unacked, e.sequence ≤ c.nextSequence := by
  intro e he
  have hle := h.toNat_le (h.entries e he).kept.sent.mem_reliableSequences
  rw [UInt32.le_iff_toNat_le, h.next, Nat.mod_eq_of_lt hbound]
  exact hle.trans (Nat.le_add_left ..)

/-- **What a ping names is a floor.** -/
theorem Books.isFloor (h : Books P config l c)
    (hbound : (firstTransmissions l).length < sequenceCount) :
    c.IsFloor (c.tracker.oldest?.getD c.nextSequence) := by
  have hnext := h.sequence_le hbound
  have hordered := h.ordered
  rw [Tracker.oldest?]
  cases hunacked : c.tracker.unacked with
  | nil => exact ⟨UInt32.le_refl _, fun e he ↦ by rw [hunacked] at he; exact absurd he List.not_mem_nil⟩
  | cons e rest =>
    rw [hunacked] at hnext hordered
    refine ⟨hnext e List.mem_cons_self, fun x hx ↦ ?_⟩
    rw [hunacked] at hx
    rcases List.mem_cons.1 hx with rfl | hx
    · exact UInt32.le_refl _
    · exact UInt32.le_of_lt ((List.pairwise_cons.1 hordered).1 x hx)

/-- **The next number never falls,** as long as numbers are not used again. -/
theorem Traced.nextSequence_le (h : Traced P config l c) (hm : Move P c k c')
    (hbound : (firstTransmissions (l ++ k)).length < sequenceCount) : c.nextSequence ≤ c'.nextSequence := by
  have hle := length_firstTransmissions_le l k
  rw [UInt32.le_iff_toNat_le, h.books.next, (h.books.move hm).next, Nat.mod_eq_of_lt hbound,
    Nat.mod_eq_of_lt (Nat.lt_of_le_of_lt hle hbound)]
  exact Nat.add_le_add_left hle 1

/-- A floor stays one while the next number does not fall, if only entries with numbers from the account
or the next one show up. -/
theorem IsFloor.step (h : c.IsFloor oldest) (hnext : c.nextSequence ≤ c'.nextSequence)
    (hentries : ∀ e' ∈ c'.tracker.unacked,
      e'.sequence = c.nextSequence ∨ ∃ e ∈ c.tracker.unacked, e.sequence = e'.sequence) :
    c'.IsFloor oldest := by
  refine ⟨UInt32.le_trans h.next hnext, fun e' he' ↦ ?_⟩
  rcases hentries e' he' with heq | ⟨e, he, heq⟩
  · exact heq ▸ h.next
  · exact heq ▸ h.entries e he

/-! ### Moves -/

/-- **One datagram more** is sent. It heeds the pings before it, and if it is one, it names a floor. -/
theorem Floored.emit (h : Floored mtu l c)
    (hfloor : ∀ id oldest, Datagram.ping? mtu d = some (id, oldest) → c.IsFloor oldest)
    (hheeds : ∀ oldest, c.IsFloor oldest → Datagram.sequence d ≠ 0 → oldest ≤ Datagram.sequence d)
    (hk : emissions k = [d]) (hstep : ∀ oldest, c.IsFloor oldest → c'.IsFloor oldest) :
    Floored mtu (l ++ k) c' := by
  refine ⟨fun x hx id oldest hping ↦ hstep oldest ?_, ?_⟩
  · rw [emissions_append, hk] at hx
    rcases List.mem_append.1 hx with hx | hx
    · exact h.floors x hx id oldest hping
    · exact hfloor id oldest (List.mem_singleton.1 hx ▸ hping)
  · rw [emissions_append, hk]
    refine List.pairwise_append.2 ⟨h.heeded, List.pairwise_singleton .., fun x hx y hy ↦ ?_⟩
    obtain rfl := List.mem_singleton.1 hy
    exact fun id oldest hping ↦ hheeds oldest (h.floors x hx id oldest hping)

/-- What sends nothing keeps the floors. -/
theorem Floored.silent (h : Floored mtu l c) (hk : emissions k = [])
    (hstep : ∀ oldest, c.IsFloor oldest → c'.IsFloor oldest) : Floored mtu (l ++ k) c' := by
  refine ⟨fun x hx id oldest hping ↦ hstep oldest ?_, ?_⟩ <;> rw [emissions_append, hk, List.append_nil] at *
  · exact h.floors x hx id oldest hping
  · exact h.heeded

/-- **A message of the protocol** has no number, and a ping among them names a floor. -/
theorem Floored.signal (h : Floored mtu l c) {m : Control}
    (hfloor : ∀ id oldest, m = .ping id oldest → c.IsFloor oldest)
    (hstep : ∀ oldest, c.IsFloor oldest → c'.IsFloor oldest) :
    Floored mtu (l ++ signalEvents mtu m) c' := by
  rw [signalEvents]
  split
  · rename_i d hd
    refine h.emit (d := d) (fun id oldest hping ↦ ?_)
      (fun _ _ hnumbered ↦ absurd (sequence_of_signal hd) hnumbered) rfl hstep
    rw [ping?_of_signal hd] at hping
    split at hping
    · cases hping
      exact hfloor id oldest rfl
    · cases hping
  · exact h.silent rfl hstep

theorem Floored.quiet (h : Floored config.mtu l c) (hbooks : Books P config l c)
    (hbound : (firstTransmissions l).length < sequenceCount) (hq : Quiet c k c') :
    Floored config.mtu (l ++ k) c' := by
  have hstep : ∀ oldest, c.IsFloor oldest → c'.IsFloor oldest := by
    intro oldest hfloor
    refine ⟨?_, ?_⟩
    · rw [hq.sameBooks.nextSequence]
      exact hfloor.next
    · rw [hq.sameBooks.unacked]
      exact hfloor.entries
  have hmtu : c.config.mtu = config.mtu := by rw [hbooks.config_eq]
  cases hq with
  | keep => exact h.silent rfl hstep
  | acks =>
    rw [hmtu]
    exact h.signal (fun id oldest heq ↦ nomatch heq) hstep
  | ping now =>
    rw [hmtu]
    refine h.signal (fun id oldest heq ↦ ?_) hstep
    obtain ⟨-, rfl⟩ := Control.ping.inj heq
    exact hbooks.isFloor hbound
  | pong id =>
    rw [hmtu]
    exact h.signal (fun id oldest heq ↦ nomatch heq) hstep

/-- **A transmission** has the next number, or one in the account, whatever copies wait. -/
theorem Floored.transmit (h : Floored config.mtu l c) (htraced : Traced P config l c) {lane : Lane}
    {q : LaneQueue} (htake : (c.queues.get lane).take? c.isUseful = (some p, q))
    (hsent : { c with queues := c.queues.set lane q }.transmit p now = .ok (d, c'))
    (hbound : (firstTransmissions (l ++ [.transmitted p d now])).length < sequenceCount) :
    Floored config.mtu (l ++ [.transmitted p d now]) c' := by
  have hmove : Move P c [.transmitted p d now] c' := .service (.transmit htake hsent)
  have hnext := htraced.nextSequence_le hmove hbound
  obtain ⟨c₀, hfresh, hchain⟩ := htraced
  have hafter : Traced P config (l ++ [.transmitted p d now]) c' := ⟨c₀, hfresh, hchain.tail hmove⟩
  have hmem : .transmitted p d now ∈ l ++ [.transmitted p d now] :=
    List.mem_append_right l (List.mem_singleton.2 rfl)
  have hnone := Datagram.ping?_of_numbered (hafter.coursed.sequence_ne_zero hmem) config.mtu
  have hbooks := (show Traced P config l c from ⟨c₀, hfresh, hchain⟩).books
  obtain ⟨m, reliable, piece, i, bytes, -, -, -, -, ⟨-, hd, rfl⟩ | ⟨-, e, retries, he, -, hd, rfl⟩⟩ :=
    transmit_cases (c := { c with queues := c.queues.set lane q })
      (hbooks.queues lane p (mem_of_take? htake).1).carries (LaneQueue.take?_eq_some htake).1 hsent
  -- the number is the next one if the datagram never had any, and else that of its entry
  · have hnumber : Datagram.sequence d = c.nextSequence := by
      rw [hd, Datagram.sequence_wire]
    refine h.emit (fun id oldest hping ↦ ?_) (fun oldest hfloor _ ↦ hnumber ▸ hfloor.next) rfl
      fun oldest hfloor ↦ hfloor.step hnext fun x (hx : x ∈ if reliable then _ else _) ↦ ?_
    · rw [hnone] at hping
      cases hping
    · split at hx
      · rcases Tracker.mem_insert.1 hx with rfl | ⟨hx, -⟩
        · exact .inl rfl
        · exact .inr ⟨x, hx, rfl⟩
      · exact .inr ⟨x, hx, rfl⟩
  · obtain ⟨hmem, hsequence⟩ := Tracker.mem_of_find? he
    have hnumber : Datagram.sequence d = e.sequence := by
      rw [hd, Datagram.sequence_wire, hsequence]
    refine h.emit (fun id oldest hping ↦ ?_) (fun oldest hfloor _ ↦ hnumber ▸ hfloor.entries e hmem) rfl
      fun oldest hfloor ↦ hfloor.step hnext fun x hx ↦ ?_
    · rw [hnone] at hping
      cases hping
    · rcases Tracker.mem_insert.1 hx with rfl | ⟨hx, -⟩
      · exact .inr ⟨e, hmem, rfl⟩
      · exact .inr ⟨x, hx, rfl⟩

/-- **Every move keeps the floors,** as long as numbers are not used again. -/
theorem Floored.move (h : Floored config.mtu l c) (htraced : Traced P config l c)
    (hbound : (firstTransmissions (l ++ k)).length < sequenceCount) (hm : Move P c k c') :
    Floored config.mtu (l ++ k) c' := by
  have hshorter := Nat.lt_of_le_of_lt (length_firstTransmissions_le l k) hbound
  have hnext := htraced.nextSequence_le hm hbound
  have hfewer : (∀ e' ∈ c'.tracker.unacked, ∃ e ∈ c.tracker.unacked, e.sequence = e'.sequence) →
      ∀ oldest, c.IsFloor oldest → c'.IsFloor oldest :=
    fun hentries oldest hfloor ↦ hfloor.step hnext fun e' he' ↦ .inr (hentries e' he')
  -- only transmissions make entries, so a floor remains one through every other move
  cases hm with
  | service hs =>
    cases hs with
    | quiet hq => exact h.quiet htraced.books hshorter hq
    | discard | holdBack => exact h.silent rfl (hfewer fun e he ↦ ⟨e, he, rfl⟩)
    | transmit htake hsent => exact h.transmit htraced htake hsent hbound
  | arrival ha =>
    obtain ⟨q, disposition, rfl⟩ := ha.exists_arrived
    refine h.silent rfl (hfewer fun e he ↦ ⟨e, ?_, rfl⟩)
    rwa [ha.sameBooks.unacked] at he
  | queue | sample => exact h.silent rfl (hfewer fun e he ↦ ⟨e, he, rfl⟩)
  | acknowledge _ n now =>
    refine h.silent (filterMap_map_eq_nil (fun _ ↦ rfl) _) (hfewer fun e he ↦ ⟨e, ?_, rfl⟩)
    obtain ⟨r, hr, -⟩ := Tracker.acknowledge_snd n now c.tracker
    rw [hr] at he
    exact (List.mem_filter.1 he).1
  | outdate _ now =>
    refine h.silent (filterMap_map_eq_nil (fun _ ↦ rfl) _) (hfewer fun e he ↦ ⟨e, ?_, rfl⟩)
    rw [dropOutdated] at he
    split at he
    · exact he
    · exact (List.mem_filter.1 he).1
  | expire _ now =>
    obtain ⟨-, q, hsnd, -⟩ := collectExpired_eq now htraced.books.ordered rfl
    refine h.silent (filterMap_map_eq_nil (fun _ ↦ rfl) _) (hfewer fun e' he' ↦ ?_)
    rw [hsnd] at he'
    obtain ⟨e, he, rfl⟩ := List.mem_map.1 he'
    exact ⟨e, (List.mem_filter.1 he).1, (sequence_markIf ..).symm⟩
  | close =>
    exact h.silent (filterMap_map_eq_nil (fun _ ↦ rfl) _) (hfewer fun e he ↦ absurd he List.not_mem_nil)

theorem Traced.floored (h : Traced P config l c)
    (hbound : (firstTransmissions l).length < sequenceCount) : Floored config.mtu l c := by
  refine h.steps
    (motive := fun l c ↦ (firstTransmissions l).length < sequenceCount → Floored config.mtu l c)
    (fun _ _ ↦ ⟨fun d hd ↦ absurd hd List.not_mem_nil, List.Pairwise.nil⟩)
    (fun {l k c c'} htraced hl hm hlonger ↦ ?_) hbound
  have hshorter := Nat.lt_of_le_of_lt (length_firstTransmissions_le l k) hlonger
  exact (hl hshorter).move htraced hlonger hm

/-! ### Lives -/

/-- What the pings of a life say about the datagrams after them. -/
structure Heeded (config : Config) (l : List Moment) : Prop where
  /-- A ping that is sent by itself is read as one. -/
  pinged : ∀ m ∈ l, ∀ d, m.answer = .pinged (some d) →
    ∃ id oldest, Datagram.ping? config.mtu d = some (id, oldest)
  /-- Of the datagrams in all answers, in order, those after a ping have no numbers below the one that it
  names, apart from messages of the protocol, which have none. -/
  heeded : (l.flatMap fun m ↦ m.answer.datagrams).Pairwise (Heeds config.mtu)

/-- **A ping that is sent by itself** is read as one. -/
theorem ping?_of_apply {o : Operation} {f f' : Forest}
    (h : c.apply o f = .ok (.pinged (some d), c', f')) :
    ∃ id oldest, Datagram.ping? c.config.mtu d = some (id, oldest) := by
  have hkind := kind_of_apply h
  cases o with
  | ping now =>
    obtain ⟨hping, -⟩ := Prod.mk.inj (Except.ok.inj h)
    exact ⟨_, _, ping?_of_signal (m := c.pingMessage) (signal_of_ping (Answer.pinged.inj hping))⟩
  | _ => exact hkind.elim

theorem ping?_of_chronicle {ops : List (Operation × Forest)} {moments : List Moment}
    (h : Traced P config l c) (hP : ∀ o ∈ ops, Operation.QueuesOnly P (Prod.fst o))
    (hops : chronicle ops c = .ok (moments, c')) : ∀ m ∈ moments, ∀ d, m.answer = .pinged (some d) →
      ∃ id oldest, Datagram.ping? config.mtu d = some (id, oldest) := by
  induction ops generalizing l c moments with
  | nil =>
    obtain ⟨rfl, rfl⟩ := Prod.mk.inj (Except.ok.inj hops)
    exact fun m hm ↦ absurd hm List.not_mem_nil
  | cons o ops ih =>
    obtain ⟨answer, next, forest, moments', ho, hrest, rfl⟩ := chronicle_cons_eq_ok hops
    intro m hm d hd
    rcases List.mem_cons.1 hm with rfl | hm
    · obtain rfl : answer = .pinged (some d) := hd
      rw [← h.books.config_eq]
      exact ping?_of_apply ho
    · have hnext := h.apply (hP o List.mem_cons_self) ho
      exact ih hnext (fun o' ho' ↦ hP o' (List.mem_cons_of_mem _ ho')) hrest m hm d hd

/-- **Nothing below the number that a ping names is sent after it,** in any life in which sequence numbers
are not used again. -/
theorem heeded_of_lived {l : List Moment} (h : Lived (fun _ ↦ True) config l c)
    (hbound : (firstTransmissions (history l)).length < sequenceCount) : Heeded config l := by
  have hemitted : (l.flatMap fun m ↦ m.answer.datagrams) = emissions (history l) := by
    rw [emissions, history, List.filterMap_flatMap]
    exact List.flatMap_congr fun m hm ↦ (h.agrees m hm).datagrams
  refine ⟨?_, hemitted ▸ (h.traced.floored hbound).heeded⟩
  obtain ⟨session, address, root, now, f, ops, hP, hlive⟩ := h
  obtain ⟨c₀, f', hopened, hrun⟩ := live_eq_ok hlive
  exact ping?_of_chronicle ⟨c₀, fresh_of_opened hopened, Chain.refl⟩ hP hrun

/-- A life in which a datagram is acknowledged while a copy of it waits, and a ping is sent then. -/
def forgettingOperations : List (Operation × Forest) :=
  let full : Forest := ⟨List.replicate 9 (.full [] 0 0 0)⟩
  let send (lane : Lane) : Operation :=
    .send (.throttled lane) { id := .high 5, payload := [1, 2, 3] } true false
  [(send .task, full), (send .texture, full), (.tick (100 * Span.millisecond), full),
    (.tick (1200 * Span.millisecond), {}), (.acknowledge [1] (1250 * Span.millisecond), full),
    (.ping (1300 * Span.millisecond), full), (send .task, full),
    (.tick (1400 * Span.millisecond), full)]

theorem heeded_of_forgetting : ∃ l c, Lived (fun _ ↦ True) {} l c ∧
    (firstTransmissions (history l)).length < sequenceCount ∧
    (l.flatMap fun m ↦ m.answer.datagrams).map
        (fun d ↦ (Datagram.sequence d, Datagram.ping? 1400 d)) =
      [(1, none), (2, none), (0, some (0, 2)), (2, none), (3, none)] ∧ Heeded {} l := by
  obtain ⟨⟨l, c⟩, hlive, htest⟩ := exists_eq_ok_of_any
    (x := live ⟨.ofNat 7, .ofNat 8, 99, none⟩ (.loopback 5) {} 0 0 {} forgettingOperations)
    (p := fun r ↦ decide ((firstTransmissions (history r.1)).length < sequenceCount ∧
      (r.1.flatMap fun m ↦ m.answer.datagrams).map
          (fun d ↦ (Datagram.sequence d, Datagram.ping? 1400 d)) =
        [(1, none), (2, none), (0, some (0, 2)), (2, none), (3, none)])) (by decide +kernel)
  obtain ⟨hbound, hemitted⟩ := of_decide_eq_true htest
  have hlived : Lived (fun _ ↦ True) {} l c :=
    ⟨_, _, _, _, _, _, by simp [forgettingOperations, Operation.QueuesOnly], hlive⟩
  exact ⟨l, c, hlived, hbound, hemitted, heeded_of_lived hlived hbound⟩

end Circuit

end DatagramCircuits
