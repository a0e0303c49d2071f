import DatagramCircuits.Proofs.Sequencing
/-!
# Datagrams to be sent again

Nothing in the account is forgotten, and nothing is queued twice. An entry tells whether a copy of it
waits to be sent again, and it tells the truth; and a tick that looks for datagrams to be sent again
leaves no entry behind whose time is up, unless a copy of it waits (`attended_of_lived`).

What such a tick does after the look can not undo this. It happens at the same instant, when the time of
what is sent only begins (`Timely.service`).

**A datagram may be as old as allowed when the tick is over,** but only where the age that is not allowed
is nothing at all: what the tick itself sends first is of that age (`outdated_of_ageless`).
-/

namespace DatagramCircuits

namespace Circuit

variable {P : Message → Prop} {config : Config} {now : Instant}

/-- What a tick with a look for datagrams to be sent again leaves behind of an entry, given the timeout,
the age at which datagrams are given up, and the record of the tick. -/
structure Timely (now : Instant) (timeout : Span) (oldest : Option Span) (k : List Event)
    (e : Tracked) : Prop where
  /-- Its time is not up, or a copy of it waits; the latter only where no sender waits. -/
  due : ∃ last, e.packet.lastSend = some last ∧
    (now - last < timeout ∨ e.packet.notify = false ∧ e.awaitingResend = true)
  /-- It is not too old, unless any age is too old and the tick has just sent it. -/
  young : ∀ age, oldest = some age → ∃ first, e.packet.firstSend = some first ∧
    (now - first < age ∨ age = 0 ∧ first = now ∧
      ∃ p d, .transmitted p d now ∈ k ∧ (Datagram.flags d).resent = false ∧
        Datagram.sequence d = e.sequence)

variable {timeout : Span} {oldest : Option Span} {k : List Event}

theorem Timely.mono {e : Tracked} (h : Timely now timeout oldest k e) (k' : List Event) :
    Timely now timeout oldest (k ++ k') e := by
  refine ⟨h.due, fun age hage ↦ ?_⟩
  obtain ⟨first, hfirst, hyoung | ⟨h0, hnow, p, d, hmem, hd⟩⟩ := h.young age hage
  · exact ⟨first, hfirst, .inl hyoung⟩
  · exact ⟨first, hfirst, .inr ⟨h0, hnow, p, d, List.mem_append_left _ hmem, hd⟩⟩

/-! ### The look for datagrams to be sent again -/

/-- What is not given up is young enough. -/
theorem young_of_dropOutdated {c : Circuit} {age : Span} (hage : c.config.maxUnackedAge = some age)
    {e : Tracked} (he : e ∈ (c.dropOutdated now).2.tracker.unacked) {first : Instant}
    (hfirst : e.packet.firstSend = some first) : now - first < age := by
  rw [dropOutdated, hage] at he
  have hno : Tracker.isOutdated age now e = false := by
    simpa using (List.mem_filter.1 he).2
  rw [Tracker.isOutdated, hfirst] at hno
  simpa using hno

/-- What is not collected is in time, or a copy of it waited before. -/
theorem due_of_collectExpired {l : List Event} {c : Circuit} (h : Books P config l c) {e : Tracked}
    (he : e ∈ (c.collectExpired now).2.tracker.unacked) :
    (∃ x ∈ c.tracker.unacked, x.packet = e.packet) ∧
      ∃ last, e.packet.lastSend = some last ∧
        (now - last < c.tracker.roundTrip.timeout ∨
          e.packet.notify = false ∧ e.awaitingResend = true) := by
  generalize hexpired : Tracker.isExpired c.tracker.roundTrip.timeout now = expired
  obtain ⟨-, q, hsnd, -⟩ := collectExpired_eq now h.ordered hexpired.symm
  rw [hsnd] at he
  obtain ⟨x, hx, rfl⟩ := List.mem_map.1 he
  obtain ⟨hmem, hkeep⟩ := List.mem_filter.1 hx
  obtain ⟨last, hlast⟩ := Option.isSome_iff_exists.1 (h.entries x hmem).lastSend
  refine ⟨⟨x, hmem, (packet_markIf ..).symm⟩, last, by rw [packet_markIf, hlast], ?_⟩
  -- a mark is set now, or was set before, or the time is not up
  rw [packet_markIf, markIf]
  cases hup : expired x with
  | true =>
    have hsilent : x.packet.notify = false := by
      simpa [hup] using hkeep
    exact .inr ⟨hsilent, rfl⟩
  | false =>
    cases hwaits : x.awaitingResend with
    | true =>
      have hsilent : x.packet.notify = false := by
        by_contra hnotify
        rw [(h.entries x hmem).notify (by simpa using hnotify)] at hwaits
        exact absurd hwaits (by simp)
      exact .inr ⟨hsilent, hwaits⟩
    | false =>
      rw [← hexpired, Tracker.isExpired, hwaits, hlast] at hup
      exact .inl (by simpa using hup)

/-! ### What follows in the tick -/

/-- A datagram that is sent at an instant is in time then. -/
theorem lt_timeout {r : RoundTrip} (h : Steady config r) (hvalid : config.Valid) (now : Instant) :
    now - now < r.timeout := by
  have hpos : (config.minTimeout == 0) = false :=
    config.valid_iff.1 hvalid (.minTimeoutZero, _) (by simp [Config.rules])
  have hne : config.minTimeout ≠ 0 := by simpa using hpos
  rw [Nat.sub_self]
  exact Nat.lt_of_lt_of_le (Nat.pos_of_ne_zero hne) h.timeout

/-- **Serving the queues leaves all entries in time.** -/
theorem Timely.service {l : List Event} {k' : List Event} {c c' : Circuit} (hvalid : config.Valid)
    (h : Books P config l c)
    (hall : ∀ e ∈ c.tracker.unacked,
      Timely now c.tracker.roundTrip.timeout config.maxUnackedAge k e)
    (hs : Service now c k' c') :
    c'.tracker.roundTrip = c.tracker.roundTrip ∧
      ∀ e ∈ c'.tracker.unacked,
        Timely now c.tracker.roundTrip.timeout config.maxUnackedAge (k ++ k') e := by
  cases hs with
  | quiet hq =>
    refine ⟨hq.sameBooks.roundTrip, fun e he ↦ ?_⟩
    rw [hq.sameBooks.unacked] at he
    exact (hall e he).mono k'
  | discard => exact ⟨rfl, fun e he ↦ (hall e he).mono _⟩
  | holdBack => exact ⟨rfl, fun e he ↦ (hall e he).mono _⟩
  | @transmit _ lane p q d htake hsent =>
    have hnow := lt_timeout h.steady hvalid now
    obtain ⟨m, reliable, piece, n, bytes, -, -, -, -, ⟨-, hd, rfl⟩ | ⟨-, e, retries, he, -, -, rfl⟩⟩ :=
      transmit_cases (c := { c with queues := c.queues.set lane q })
        (h.queues lane p (mem_of_take? htake).1).carries (LaneQueue.take?_eq_some htake).1 hsent
    · refine ⟨rfl, fun x (hx : x ∈ if reliable then _ else _) ↦ ?_⟩
      split at hx
      · rcases Tracker.mem_insert.1 hx with rfl | ⟨hx, -⟩
        · refine ⟨⟨now, rfl, .inl hnow⟩, fun age _ ↦ ⟨now, rfl, ?_⟩⟩
          -- an age of zero leaves no time at all, not even to what is sent at this instant
          rcases Nat.eq_zero_or_pos age with h0 | hpos
          · refine .inr ⟨h0, rfl, p, d, by simp, ?_, ?_⟩
            · rw [hd, Datagram.flags_wire rfl]
            · rw [hd, Datagram.sequence_wire]
              rfl
          · exact .inl (by rwa [Nat.sub_self])
        · exact (hall x hx).mono _
      · exact (hall x hx).mono _
    · refine ⟨rfl, fun x hx ↦ ?_⟩
      rcases Tracker.mem_insert.1 hx with rfl | ⟨hx, -⟩
      · have hold := (hall e (Tracker.mem_of_find? he).1).mono [.transmitted p d now]
        exact ⟨⟨now, rfl, .inl hnow⟩, hold.young⟩
      · exact (hall x hx).mono _

/-- The look itself leaves all entries in time. -/
theorem timely_checkResends {l : List Event} {c : Circuit} (h : Books P config l c) (f : Forest)
    (hdue : c.resendDue ≤ now) {look : Turn}
    (hlook : look = Turn.checkResends now { circuit := c, forest := f }) :
    Books P config (l ++ look.log) look.circuit ∧ ∀ e ∈ look.circuit.tracker.unacked,
      Timely now look.circuit.tracker.roundTrip.timeout config.maxUnackedAge look.log e := by
  rw [hlook, Turn.checkResends, if_neg (Nat.not_lt.2 hdue)]
  have htimer : Books P config l { c with resendDue := now + c.config.resendInterval } := { h with }
  generalize { c with resendDue := now + c.config.resendInterval } = c₁ at htimer
  have hdropped := htimer.outdate now
  have hcollected := hdropped.expire now
  rw [List.append_assoc] at hcollected
  have hround : (((c₁.dropOutdated now).2.collectExpired now).2).tracker.roundTrip =
      (c₁.dropOutdated now).2.tracker.roundTrip := by
    obtain ⟨-, q, hsnd, -⟩ := collectExpired_eq now hdropped.ordered rfl
    rw [hsnd]
  refine ⟨hcollected, fun e he ↦ ?_⟩
  obtain ⟨⟨x, hx, hpacket⟩, hdue⟩ := due_of_collectExpired hdropped he
  refine ⟨?_, fun age hage ↦ ?_⟩
  · show ∃ last, _ ∧ (now - last < RoundTrip.timeout
      (((c₁.dropOutdated now).2.collectExpired now).2).tracker.roundTrip ∨ _)
    rw [hround]
    exact hdue
  · obtain ⟨first, hfirst⟩ := Option.isSome_iff_exists.1 (hdropped.entries x hx).firstSend
    rw [← htimer.config_eq] at hage
    exact ⟨first, hpacket ▸ hfirst, .inl (young_of_dropOutdated hage hx hfirst)⟩

/-- **A tick with a look** leaves all entries in time. -/
theorem timely_of_tick {l : List Event} {c : Circuit} {f : Forest} {t : Turn}
    (hvalid : config.Valid) (h : Books P config l c) (ht : c.tick now f = .ok t)
    (hopen : c.isClosed = false) (hdue : c.resendDue ≤ now) :
    ∀ e ∈ t.circuit.tracker.unacked,
      Timely now t.circuit.tracker.roundTrip.timeout config.maxUnackedAge t.log e := by
  obtain ⟨⟨k, hchain, hlog, -⟩, -, -⟩ := serves_of_tick ht hopen
  generalize hlook : Turn.checkResends now { circuit := c, forest := f } = look at hchain hlog
  obtain ⟨hbooks, htimely⟩ := timely_checkResends h f hdue hlook.symm
  have hserved : (Books P config (l ++ (look.log ++ k)) t.circuit ∧
      t.circuit.tracker.roundTrip = look.circuit.tracker.roundTrip) ∧
      ∀ e ∈ t.circuit.tracker.unacked,
        Timely now look.circuit.tracker.roundTrip.timeout config.maxUnackedAge (look.log ++ k) e := by
    -- along the moves of service, with the books as they go on
    refine hchain.preserves (motive := fun k c ↦ (Books P config (l ++ k) c ∧
      c.tracker.roundTrip = look.circuit.tracker.roundTrip) ∧ ∀ e ∈ c.tracker.unacked,
        Timely now look.circuit.tracker.roundTrip.timeout config.maxUnackedAge k e)
      ⟨⟨hbooks, rfl⟩, htimely⟩ ?_
    rintro k k' x y ⟨⟨hx, hround⟩, hall⟩ hs
    rw [← hround] at hall ⊢
    obtain ⟨hround', hall'⟩ := Timely.service hvalid hx hall hs
    exact ⟨⟨List.append_assoc l k k' ▸ hx.service hs, hround'⟩, hall'⟩
  rw [hlog, hserved.1.2]
  exact hserved.2

/-! ### The account of a whole life -/

/-- The account tells which copies wait, and ticks look after it. -/
structure Attended (c : Circuit) : Prop where
  /-- An entry of which a copy is said to wait has exactly one, and any other has none. -/
  copies : ∀ e ∈ c.tracker.unacked, c.copies e.sequence = if e.awaitingResend then 1 else 0
  /-- After a tick with a look for datagrams to be sent again, all entries are in time. -/
  checked : ∀ (now : Instant) (f : Forest) (t : Turn), c.tick now f = .ok t → c.isClosed = false →
    c.resendDue ≤ now → ∀ e ∈ t.circuit.tracker.unacked,
      Timely now t.circuit.tracker.roundTrip.timeout t.circuit.config.maxUnackedAge t.log e

/-- **No reliable datagram is forgotten, or queued twice,** in any life in which sequence numbers are not
used again. -/
theorem attended_of_lived {l : List Moment} {c : Circuit} (hvalid : config.Valid)
    (h : Lived (fun _ ↦ True) config l c)
    (hbound : (firstTransmissions (history l)).length < sequenceCount) : Attended c where
  copies := (h.traced.accounts hbound).waiting
  checked now f t ht hopen hdue e he := by
    have hconfig : t.circuit.config = config := by
      have hbooks : Books (fun _ ↦ True) config (history l ++ t.log) t.circuit :=
        (chain_of_tick ht).preserves h.traced.books Books.move
      exact hbooks.config_eq
    rw [hconfig]
    exact timely_of_tick hvalid h.traced.books ht hopen hdue e he

/-- A life in which a datagram is not acknowledged in time, and its copy can not be afforded. -/
def delayingOperations : List (Operation × Forest) :=
  [(.send (.throttled .task) { id := .high 5, payload := [1, 2, 3] } true false, {}),
    (.tick (100 * Span.millisecond), ⟨List.replicate 9 (.full [] 0 0 0)⟩),
    (.tick (1200 * Span.millisecond), {})]

theorem attended_of_delaying : Config.Valid {} ∧ ∃ l c, Lived (fun _ ↦ True) {} l c ∧
    (firstTransmissions (history l)).length < sequenceCount ∧
    c.tracker.unacked.map (fun e ↦ (e.sequence, e.awaitingResend)) = [(1, true)] ∧
    c.copies 1 = 1 ∧ Attended c := by
  have hvalid : Config.Valid {} := Config.valid_iff _ |>.2 (by decide +kernel)
  obtain ⟨⟨l, c⟩, hlive, htest⟩ := exists_eq_ok_of_any
    (x := live ⟨.ofNat 7, .ofNat 8, 99, none⟩ (.loopback 5) {} 0 0 {} delayingOperations)
    (p := fun r ↦ decide ((firstTransmissions (history r.1)).length < sequenceCount ∧
      r.2.tracker.unacked.map (fun e ↦ (e.sequence, e.awaitingResend)) = [(1, true)] ∧
      r.2.copies 1 = 1)) (by decide +kernel)
  obtain ⟨hbound, hwaits, hcopies⟩ := of_decide_eq_true htest
  have hlived : Lived (fun _ ↦ True) {} l c :=
    ⟨_, _, _, _, _, _, by simp [delayingOperations, Operation.QueuesOnly], hlive⟩
  exact ⟨hvalid, l, c, hlived, hbound, hwaits, hcopies, attended_of_lived hvalid hlived hbound⟩

/-- **Where no age is young enough,** a tick with a look leaves a datagram in the account that is not:
the one that it has just sent. -/
theorem outdated_of_ageless :
    Config.Valid { maxUnackedAge := some 0 } ∧ ∃ l c f t,
      Lived (fun _ ↦ True) { maxUnackedAge := some 0 } l c ∧
        (firstTransmissions (history l ++ t.log)).length < sequenceCount ∧
        c.tick (100 * Span.millisecond) f = .ok t ∧ c.isClosed = false ∧
        c.resendDue ≤ 100 * Span.millisecond ∧
        t.circuit.tracker.unacked.map (fun e ↦ (e.sequence, e.packet.firstSend)) =
          [(1, some (100 * Span.millisecond))] ∧
        ¬ 100 * Span.millisecond - 100 * Span.millisecond < 0 := by
  have hvalid : Config.Valid { maxUnackedAge := some 0 } := Config.valid_iff _ |>.2 (by decide +kernel)
  obtain ⟨⟨l, c⟩, hlive, htest⟩ := exists_eq_ok_of_any
    (x := live ⟨.ofNat 7, .ofNat 8, 99, none⟩ (.loopback 5) { maxUnackedAge := some 0 } 0 0 {}
      [(.send (.throttled .task) { id := .high 5, payload := [1, 2, 3] } true false, {})])
    (p := fun r ↦ (r.2.tick (100 * Span.millisecond)
        ⟨List.replicate 9 (.full [] 0 0 0)⟩).toOption.any fun t : Turn ↦ decide
      ((firstTransmissions (history r.1 ++ t.log)).length < sequenceCount ∧ r.2.isClosed = false ∧
        r.2.resendDue ≤ 100 * Span.millisecond ∧
        t.circuit.tracker.unacked.map (fun e ↦ (e.sequence, e.packet.firstSend)) =
          [(1, some (100 * Span.millisecond))])) (by decide +kernel)
  obtain ⟨t, ht, htest⟩ := exists_eq_ok_of_any htest
  obtain ⟨hbound, hopen, hdue, hentries⟩ := of_decide_eq_true htest
  have hlived : Lived (fun _ ↦ True) { maxUnackedAge := some 0 } l c :=
    ⟨_, _, _, _, _, _, by simp [Operation.QueuesOnly], hlive⟩
  exact ⟨hvalid, l, c, _, t, hlived, hbound, ht, hopen, hdue, hentries, Nat.not_lt_zero _⟩

end Circuit

end DatagramCircuits
