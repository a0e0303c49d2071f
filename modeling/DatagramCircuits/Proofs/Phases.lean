import DatagramCircuits.Proofs.Life
/-!
# Open circuits

A circuit is open until it is closed, and stays closed then. Nothing but closing it changes which of
the two it is (`isClosed_of_apply`); no move opens a closed one (`Move.isClosed`).
-/

namespace DatagramCircuits

namespace Circuit

variable {P : Message → Prop} {now : Instant} {c c' : Circuit} {k : List Event}

/-! ### Moves -/

/-- Whether a circuit is open depends on its phase alone. -/
theorem isClosed_congr (h : c'.phase = c.phase) : c'.isClosed = c.isClosed := by
  rw [isClosed, isClosed, h]

/-- What no step of a loop changes, the loop does not change. -/
theorem view_foldl {α β : Type} (view : Circuit → β) {g : Circuit → α → Circuit}
    (h : ∀ c a, view (g c a) = view c) (l : List α) (c : Circuit) :
    view (l.foldl g c) = view c := by
  induction l generalizing c with
  | nil => rfl
  | cons a l ih => exact (ih (g c a)).trans (h c a)

/-- A ping of the circuit's own keeps the phase. -/
theorem phase_nextPingDatagram (now : Instant) (c : Circuit) :
    (c.nextPingDatagram now).2.phase = c.phase := by
  rw [nextPingDatagram]
  split <;> rfl

theorem phase_dropOutdated (now : Instant) (c : Circuit) :
    (c.dropOutdated now).2.phase = c.phase := by
  rw [dropOutdated]
  split <;> rfl

/-- The search for datagrams to be sent again keeps the phase. -/
theorem phase_collectExpired (now : Instant) (c : Circuit) :
    (c.collectExpired now).2.phase = c.phase := by
  refine view_foldl phase (fun c p ↦ ?_) (c.tracker.expire now).1 _
  rw [giveBack]
  split <;> rfl

/-- Quiet work neither opens nor closes a circuit. -/
theorem Quiet.isClosed (h : Quiet c k c') : c'.isClosed = c.isClosed := by
  cases h with
  | keep h => exact h.isClosed
  | acks | pong => rfl
  | ping now => exact isClosed_congr (phase_nextPingDatagram now c)

/-- Nor does the service of its queues. -/
theorem Service.isClosed (h : Service now c k c') : c'.isClosed = c.isClosed := by
  cases h with
  | quiet h => exact h.isClosed
  | discard | holdBack => rfl
  | transmit _ hsent =>
    obtain ⟨-, -, -, -, -, -, hphase⟩ := exists_of_transmit hsent
    exact isClosed_congr hphase

/-- **A closed circuit stays closed.** -/
theorem Move.isClosed (h : Move P c k c') (hclosed : c.isClosed = true) : c'.isClosed = true := by
  cases h with
  | service h => exact h.isClosed.trans hclosed
  | arrival h => cases h <;> exact hclosed
  | queue | acknowledge | sample => exact hclosed
  | outdate _ now => exact (isClosed_congr (phase_dropOutdated now c)).trans hclosed
  | expire _ now => exact (isClosed_congr (phase_collectExpired now c)).trans hclosed
  | close => rfl

/-! ### Operations -/

theorem isClosed_checkResends (now : Instant) (t : Turn) :
    (t.checkResends now).circuit.isClosed = t.circuit.isClosed := by
  refine isClosed_congr ?_
  rw [Turn.checkResends]
  dsimp only
  split
  · rfl
  · exact (phase_collectExpired now _).trans (phase_dropOutdated now _)

/-- A tick neither closes a circuit nor opens one. -/
theorem isClosed_of_tick {f : Forest} {t : Turn} (h : c.tick now f = .ok t) :
    t.circuit.isClosed = c.isClosed := by
  cases hclosed : c.isClosed with
  | true => rw [tick_of_isClosed h hclosed, hclosed]
  | false =>
    obtain ⟨⟨k, hchain, -, -⟩, -, -⟩ := serves_of_tick h hclosed
    have hchecked := (isClosed_checkResends now { circuit := c, forest := f }).trans hclosed
    refine hchain.preserves (motive := fun _ c ↦ c.isClosed = false) (k := []) hchecked ?_
    exact fun hl hstep ↦ hstep.isClosed.trans hl

/-- Queueing pieces one after another touches the queues only. -/
theorem exists_queues_of_foldl (lane : Lane) (g : Octets → Outgoing) (datagrams : List Octets)
    (c : Circuit) :
    ∃ queues, datagrams.foldl (fun c buffer ↦ c.push lane (g buffer)) c = { c with queues } := by
  induction datagrams generalizing c with
  | nil => exact ⟨c.queues, rfl⟩
  | cons buffer datagrams ih =>
    obtain ⟨queues, h⟩ := ih (c.push lane (g buffer))
    exact ⟨queues, h⟩

/-- **A message that is sent** goes to the queues, and nothing else is felt of it. -/
theorem exists_queues_of_send {category : Category} {m : Message} {reliable notify : Bool}
    (h : c.send category m reliable notify = .ok c') : ∃ queues, c' = { c with queues } := by
  cases category with
  | unthrottled => cases h
  | throttled lane =>
    obtain ⟨datagrams, -, h⟩ := bind_eq_ok_iff.1 h
    split at h
    · cases h
    · obtain ⟨queues, hqueues⟩ := exists_queues_of_foldl lane
        (fun buffer ↦ { category := .throttled lane, buffer, notify }) datagrams c
      exact ⟨queues, (Except.ok.inj h).symm.trans hqueues⟩

/-- Queueing a message keeps the phase, whether there is room for it or not. -/
theorem phase_queuing_send (category : Category) (m : Message) (reliable notify : Bool) (c : Circuit) :
    (c.queuing (c.send category m reliable notify)).2.phase = c.phase := by
  cases hs : c.send category m reliable notify with
  | error e => rfl
  | ok next =>
    obtain ⟨queues, rfl⟩ := exists_queues_of_send hs
    rfl

theorem phase_queuing_enqueue (p : Outgoing) (c : Circuit) :
    (c.queuing (c.enqueue p)).2.phase = c.phase := by
  rw [enqueue]
  split
  · rfl
  · split <;> rfl

/-- Pings keep the phase. -/
theorem phase_ping (now : Instant) (c : Circuit) : (c.ping now).2.phase = c.phase := by
  have hphase := phase_nextPingDatagram now c
  rw [ping]
  split <;> rename_i hnext <;> rw [hnext] at hphase <;> exact hphase

theorem phase_takePong (id : UInt8) (now : Instant) (c : Circuit) :
    (c.takePong id now).2.phase = c.phase := by
  rw [takePong]
  split
  · split <;> rfl
  · rfl

theorem phase_beginQueueEmpty (now : Instant) (c : Circuit) :
    (c.beginQueueEmpty now).2.phase = c.phase := by
  unfold beginQueueEmpty
  dsimp only
  split <;> rfl

/-- Datagrams that arrive keep the phase, whatever the answer to them. -/
theorem phase_receive (p : Packet) (length : Nat) (now : Instant) (c : Circuit) :
    (c.receive p length now).2.phase = c.phase := by
  rw [receive]
  split
  · rfl
  split
  · rw [receiveReliable]
    split
    · rfl
    · dsimp only
      split <;> rfl
  · rfl

/-- **Nothing but closing it closes a circuit,** and nothing opens it again. -/
theorem isClosed_of_apply {o : Operation} {f f' : Forest} {answer : Answer} (ho : o ≠ .close)
    (h : c.apply o f = .ok (answer, c', f')) : c'.isClosed = c.isClosed := by
  -- only closing ends in the phase of a closed circuit, and nothing else leaves it
  cases o with
  | send category m reliable notify =>
    cases h
    exact isClosed_congr (phase_queuing_send category m reliable notify c)
  | enqueue p =>
    cases h
    exact isClosed_congr (phase_queuing_enqueue p c)
  | tick now =>
    obtain ⟨t, ht, rfl, rfl, rfl⟩ := eq_of_apply_tick h
    exact isClosed_of_tick ht
  | receive p length now =>
    obtain ⟨disposition, -, h⟩ := bind_eq_ok_iff.1 h
    cases h
    exact isClosed_congr (phase_receive p length now c)
  | ping now =>
    cases h
    exact isClosed_congr (phase_ping now c)
  | answerPing id => rw [eq_of_apply_answerPing h]
  | takePong id now =>
    cases h
    exact isClosed_congr (phase_takePong id now c)
  | renegotiate requested now =>
    obtain ⟨⟨adjustment, forest⟩, -, h⟩ := bind_eq_ok_iff.1 h
    cases h
    rfl
  | connect | pause | resume =>
    cases h
    exact (sameWork_transition (by decide) (by decide) c).isClosed
  | close => exact absurd rfl ho
  | beginQueueEmpty now =>
    cases h
    exact isClosed_congr (phase_beginQueueEmpty now c)
  | acknowledge | flushAcks | endQueueEmpty =>
    cases h
    rfl

/-- A circuit is open as long as it is not closed. -/
theorem isClosed_of_chronicle {ops : List (Operation × Forest)} {l : List Moment}
    (hops : ∀ o ∈ ops, o.1 ≠ .close) (h : chronicle ops c = .ok (l, c')) :
    c'.isClosed = c.isClosed := by
  induction ops generalizing c l with
  | nil =>
    obtain ⟨-, rfl⟩ := Prod.mk.inj (Except.ok.inj h)
    rfl
  | cons o ops ih =>
    obtain ⟨answer, next, forest, l', ho, hrest, rfl⟩ := chronicle_cons_eq_ok h
    have hfirst := isClosed_of_apply (hops o List.mem_cons_self) ho
    exact (ih (fun o' ho' ↦ hops o' (List.mem_cons_of_mem _ ho')) hrest).trans hfirst

end Circuit

end DatagramCircuits
