import DatagramCircuits.Proofs.Operations
/-!
# Ticks as chains of moves

A tick first looks for datagrams to be sent again, if it is time for that, and then only makes moves of
service at its instant. `Turn.Serves` says the latter about two states of a tick, together with what is
added to the output on the way. `moves_of_apply` puts all operations together.
-/

namespace DatagramCircuits

namespace Turn

open Circuit

variable {now : Instant}

/-- The later state of a tick comes from the earlier one by moves of service, and has the datagrams of
these in its output. -/
structure Serves (now : Instant) (t t' : Turn) : Prop where
  chain : ∃ k, Chain (Service now) t.circuit k t'.circuit ∧ t'.log = t.log ++ k ∧
    t'.output.datagrams = t.output.datagrams ++ k.filterMap Event.datagram?
  droppedUnacked : t'.output.droppedUnacked = t.output.droppedUnacked
  unacknowledged : t'.output.unacknowledged = t.output.unacknowledged

theorem Serves.refl (t : Turn) : Serves now t t :=
  ⟨⟨[], Chain.refl, by simp, by simp⟩, rfl, rfl⟩

/-- Service in two parts is service. -/
theorem Serves.trans {t t' t'' : Turn} (h₁ : Serves now t t') (h₂ : Serves now t' t'') :
    Serves now t t'' := by
  obtain ⟨⟨k₁, hchain₁, hlog₁, hout₁⟩, hdropped₁, hunacked₁⟩ := h₁
  obtain ⟨⟨k₂, hchain₂, hlog₂, hout₂⟩, hdropped₂, hunacked₂⟩ := h₂
  refine ⟨⟨k₁ ++ k₂, hchain₁.trans hchain₂, ?_, ?_⟩, hdropped₂.trans hdropped₁,
    hunacked₂.trans hunacked₁⟩
  · rw [hlog₂, hlog₁, List.append_assoc]
  · rw [hout₂, hout₁, List.filterMap_append, List.append_assoc]

/-- Signals are datagrams. -/
theorem filterMap_datagram?_map_signalled (l : List Octets) :
    (l.map Event.signalled).filterMap Event.datagram? = l := by
  rw [List.filterMap_map]
  exact List.filterMap_some

/-- Sending messages of the protocol is a service. -/
theorem serves_signal {c : Circuit} {l : List Octets} {t : Turn}
    (h : Chain Quiet t.circuit (l.map .signalled) c) :
    Serves now t ({ t with circuit := c }.signal l) := by
  refine ⟨⟨l.map .signalled, h.mono .quiet, rfl, ?_⟩, rfl, rfl⟩
  rw [filterMap_datagram?_map_signalled]
  rfl

/-- Acknowledgements that are due are signals. -/
theorem serves_checkAcks (t : Turn) : Serves now t (t.checkAcks now) := by
  unfold checkAcks
  dsimp only
  split
  · exact Serves.refl t
  · have htimer : Quiet
        { t.circuit with tracker := (ackDatagrams t.circuit.config.mtu t.circuit.tracker).2 } []
        { t.circuit with
          tracker := (ackDatagrams t.circuit.config.mtu t.circuit.tracker).2
          ackDue := now + t.circuit.config.ackInterval } :=
      .keep ⟨rfl, rfl, rfl, rfl, rfl, rfl, rfl⟩
    have hacks := (chain_ackDatagrams t.circuit).tail htimer
    rw [List.append_nil] at hacks
    exact serves_signal hacks

/-- So is a ping that is due. -/
theorem serves_checkPing (t : Turn) : Serves now t (t.checkPing now) := by
  rw [checkPing]
  dsimp only
  split
  · exact Serves.refl t
  · have htimer : Quiet t.circuit []
        { t.circuit with pingDue := now + t.circuit.config.pingInterval } :=
      .keep ⟨rfl, rfl, rfl, rfl, rfl, rfl, rfl⟩
    exact serves_signal ((Chain.single htimer).tail (quiet_nextPingDatagram _ now))

/-! ### Serving the queues -/

/-- **Serving a lane** is a move of service, and records the datagram it sends. -/
theorem service_of_serveLane {lane : Lane} {t t' : Turn} {d : Option Octets}
    (h : t.serveLane lane now = .ok (d, t')) :
    t'.output = t.output ∧ ∃ k, Service now t.circuit k t'.circuit ∧ t'.log = t.log ++ k ∧
      k.filterMap Event.datagram? = d.toList := by
  obtain ⟨q, htake, rfl, rfl⟩ | ⟨p, q, forest, htake, -, rfl, rfl⟩ |
    ⟨p, q, forest, datagram, c', htake, -, hsent, rfl, rfl⟩ := serveLane_eq_ok h
  · exact ⟨rfl, [], .discard htake, by simp, rfl⟩
  · exact ⟨rfl, [], .holdBack htake, by simp, rfl⟩
  · exact ⟨rfl, [.transmitted p datagram now], .transmit htake hsent, rfl, rfl⟩

/-- A lane is served, and what it sent is added to the output. -/
theorem serves_of_serveLane {lane : Lane} {t t' t'' : Turn} {d : Option Octets}
    (h : t.serveLane lane now = .ok (d, t')) (hcircuit : t''.circuit = t'.circuit)
    (hlog : t''.log = t'.log) (hout : t''.output.datagrams = t'.output.datagrams ++ d.toList)
    (hdropped : t''.output.droppedUnacked = t'.output.droppedUnacked)
    (hunacked : t''.output.unacknowledged = t'.output.unacknowledged) : Serves now t t'' := by
  obtain ⟨hsame, k, hstep, hk, hd⟩ := service_of_serveLane h
  refine ⟨⟨k, ?_, hlog.trans hk, ?_⟩, ?_, ?_⟩
  · rw [hcircuit]
    exact Chain.single hstep
  · rw [hout, hsame, hd]
  · rw [hdropped, hsame]
  · rw [hunacked, hsame]

/-- Serving the lane of resends is service. -/
theorem serves_of_serveResends {t t' : Turn} (h : t.serveResends now = .ok t') : Serves now t t' := by
  obtain ⟨r, hlane, h⟩ := bind_eq_ok_iff.1 h
  obtain ⟨d, t₁⟩ := r
  cases d with
  | none =>
    obtain rfl := Except.ok.inj h
    exact serves_of_serveLane hlane rfl rfl (by simp) rfl rfl
  | some d =>
    obtain rfl := Except.ok.inj h
    exact serves_of_serveLane hlane rfl rfl rfl rfl rfl

/-- So is serving another lane. -/
theorem serves_of_serveOrdinary {lane : Lane} {t t' : Turn} (h : t.serveOrdinary now lane = .ok t') :
    Serves now t t' := by
  obtain ⟨⟨d, t₁⟩, hlane, h⟩ := bind_eq_ok_iff.1 h
  dsimp only at h
  split at h <;> cases h <;> exact serves_of_serveLane hlane rfl rfl rfl rfl rfl

/-- So is serving several lanes, one after another. -/
theorem serves_of_foldlM {lanes : List Lane} {t t' : Turn}
    (h : lanes.foldlM (serveOrdinary now) t = .ok t') : Serves now t t' := by
  induction lanes generalizing t with
  | nil =>
    obtain rfl := Except.ok.inj h
    exact Serves.refl _
  | cons lane lanes ih =>
    rw [List.foldlM_cons] at h
    obtain ⟨t₁, hlane, h⟩ := bind_eq_ok_iff.1 h
    exact (serves_of_serveOrdinary hlane).trans (ih h)

/-- So is serving them all. -/
theorem serves_of_serveLanes {t t' : Turn} (h : t.serveLanes now = .ok t') : Serves now t t' := by
  obtain ⟨t₁, hresends, h⟩ := bind_eq_ok_iff.1 h
  have hfirst := serves_of_serveResends hresends
  split at h
  · obtain rfl := Except.ok.inj h
    exact hfirst.trans ⟨⟨[], Chain.refl, by simp, by simp⟩, rfl, rfl⟩
  · exact hfirst.trans (serves_of_foldlM h)

theorem serves_count (t : Turn) : Serves now t t.count := by
  have hcount : Quiet t.circuit [] t.count.circuit := .keep ⟨rfl, rfl, rfl, rfl, rfl, rfl, rfl⟩
  exact ⟨⟨[], Chain.single (.quiet hcount), by simp [count], by simp [count]⟩, rfl, rfl⟩

end Turn

namespace Circuit

variable {P : Message → Prop}

/-- **A tick of an open circuit** looks for datagrams to be sent again, and then serves. -/
theorem serves_of_tick {now : Instant} {c : Circuit} {f : Forest} {t : Turn}
    (h : c.tick now f = .ok t) (hopen : c.isClosed = false) :
    Turn.Serves now (Turn.checkResends now { circuit := c, forest := f }) t := by
  obtain ⟨hclosed, -⟩ | ⟨-, t₁, hlanes, rfl⟩ := tick_eq_ok h
  · simp [hopen] at hclosed
  exact (Turn.serves_checkAcks _).trans <| (Turn.serves_checkPing _).trans <|
    (Turn.serves_of_serveLanes hlanes).trans (Turn.serves_count t₁)

/-- **A tick that ends with a fault** looks for datagrams to be sent again and serves like any other, until
a lane can not be served. -/
theorem exists_served_of_error {now : Instant} {c : Circuit} {f : Forest} {t : Turn} {fault : Fault}
    (h : c.tick now f = .error (fault, t)) :
    ∃ (u : Turn) (k : List Event) (lane : Lane),
      Chain (Service now) (Turn.checkResends now { circuit := c, forest := f }).circuit k
        u.circuit ∧
      u.log = (Turn.checkResends now { circuit := c, forest := f }).log ++ k ∧
      u.serveLane lane now = .error (fault, t) := by
  obtain ⟨-, h⟩ := tick_eq_error h
  let start := Turn.checkResends now { circuit := c, forest := f }
  let motive (t : Turn) : Prop :=
    ∃ k, Chain (Service now) start.circuit k t.circuit ∧ t.log = start.log ++ k
  have hstart : motive ((start.checkAcks now).checkPing now) := by
    have hserves : Turn.Serves now start ((start.checkAcks now).checkPing now) :=
      (Turn.serves_checkAcks start).trans (Turn.serves_checkPing _)
    obtain ⟨k, hchain, hlog, -⟩ := hserves.chain
    exact ⟨k, hchain, hlog⟩
  have houtcome : Turn.ComesTo motive now (((start.checkAcks now).checkPing now).serveLanes now) :=
    Turn.comesTo_serveLanes (fun _ _ ht ↦ ht) ?_ hstart
  · rw [h] at houtcome
    obtain ⟨u, lane, ⟨k, hchain, hlog⟩, hlane⟩ := houtcome
    exact ⟨u, k, lane, hchain, hlog, hlane⟩
  · rintro t t' lane d ⟨k, hchain, hlog⟩ hlane
    obtain ⟨-, k', hstep, hlog', -⟩ := Turn.service_of_serveLane hlane
    exact ⟨k ++ k', hchain.tail hstep, by rw [hlog', hlog, List.append_assoc]⟩

/-- A closed circuit does not tick. -/
theorem tick_of_isClosed {now : Instant} {c : Circuit} {f : Forest} {t : Turn}
    (h : c.tick now f = .ok t) (hclosed : c.isClosed = true) : t = { circuit := c, forest := f } := by
  obtain ⟨-, rfl⟩ | ⟨hopen, -⟩ := tick_eq_ok h
  · rfl
  · simp [hclosed] at hopen

/-- The look for datagrams to be sent again, when it is due. -/
theorem chain_checkResends (now : Instant) (c : Circuit) (f : Forest) :
    Chain (Move P) c (Turn.checkResends now { circuit := c, forest := f }).log
      (Turn.checkResends now { circuit := c, forest := f }).circuit := by
  rw [Turn.checkResends]
  dsimp only
  split
  · exact Chain.refl
  · have htimer : Quiet c [] { c with resendDue := now + c.config.resendInterval } :=
      .keep ⟨rfl, rfl, rfl, rfl, rfl, rfl, rfl⟩
    -- what is too old is given up before anything is queued to be sent again
    have hchain := ((Chain.single (Move.quiet (P := P) htimer)).tail (Move.outdate _ now)).tail
      (Move.expire _ now)
    simpa [Turn.note] using hchain

/-- **A tick** is a chain of moves. -/
theorem chain_of_tick {now : Instant} {c : Circuit} {f : Forest} {t : Turn}
    (h : c.tick now f = .ok t) : Chain (Move P) c t.log t.circuit := by
  cases hclosed : c.isClosed with
  | true =>
    rw [tick_of_isClosed h hclosed]
    exact Chain.refl
  | false =>
    obtain ⟨⟨k, hchain, hlog, -⟩, -, -⟩ := serves_of_tick h hclosed
    rw [hlog]
    exact (chain_checkResends now c f).trans (hchain.mono .service)

/-! ### All operations -/

/-- A move that only changes phase, timers and counters is no entry in the record. -/
theorem chain_keep {c c' : Circuit} (h : SameWork c c') : Chain (Move P) c [] c' :=
  Chain.single (.quiet (.keep h))

/-- Going from one phase to another neither closes a circuit nor opens one. -/
theorem sameWork_transition {source target : Phase} (hsource : source ≠ .disconnected)
    (htarget : target ≠ .disconnected) (c : Circuit) : SameWork c (c.transition source target).2 := by
  rw [transition]
  split
  · rename_i hphase
    exact ⟨rfl, rfl, rfl, rfl, rfl, rfl, by simp [isClosed, hphase, hsource, htarget]⟩
  · exact .rfl

/-- Sending what is owed is a chain of moves. -/
theorem chain_flushAcks (c : Circuit) :
    Chain (Move P) c (c.flushAcks.1.map .signalled) c.flushAcks.2 := by
  have hacks := (chain_ackDatagrams c).mono (S := Move P) .quiet
  have hcount : SameWork { c with tracker := (ackDatagrams c.config.mtu c.tracker).2 }
      c.flushAcks.2 := ⟨rfl, rfl, rfl, rfl, rfl, rfl, rfl⟩
  have hchain := hacks.trans (chain_keep hcount)
  rwa [List.append_nil] at hchain

/-- So is a ping. -/
theorem chain_ping (c : Circuit) (now : Instant) :
    Chain (Move P) c ((c.ping now).1.toList.map .signalled) (c.ping now).2 := by
  have hping := Chain.single (Move.quiet (P := P) (quiet_nextPingDatagram c now))
  rw [ping]
  rcases hd : c.nextPingDatagram now with ⟨_ | d, next⟩
  · rw [hd] at hping
    exact hping
  · rw [hd] at hping
    have hcount : SameWork next { next with sent := next.sent + 1 } :=
      ⟨rfl, rfl, rfl, rfl, rfl, rfl, rfl⟩
    exact hping.trans (chain_keep hcount)

/-- A ping that is answered leaves the circuit as it is, and so does one that can not be answered. -/
theorem eq_of_apply_answerPing {c c' : Circuit} {id : UInt8} {f f' : Forest} {answer : Answer}
    (h : c.apply (.answerPing id) f = .ok (answer, c', f')) : c' = c := by
  simp only [apply] at h
  rcases hd : c.answerPing id with e | d
  · rw [hd] at h
    exact (Prod.mk.inj (Prod.mk.inj (Except.ok.inj h)).2).1.symm
  · rw [hd] at h
    exact (Prod.mk.inj (Prod.mk.inj (Except.ok.inj h)).2).1.symm

/-- An answer to a ping is a chain of moves without events. -/
theorem chain_takePong (c : Circuit) (id : UInt8) (now : Instant) :
    Chain (Move P) c [] (c.takePong id now).2 := by
  rw [takePong]
  split
  · split
    · exact Chain.single (.sample c _)
    · exact Chain.refl
  · exact Chain.refl

/-- To close a circuit is to confirm whether it was open. -/
theorem apply_close (c : Circuit) (f : Forest) :
    c.apply .close f = .ok (.confirmed (c.close f).1, (c.close f).2.1, (c.close f).2.2) :=
  rfl

/-- Closing is one move, unless the circuit is closed. -/
theorem chain_close (c : Circuit) (f : Forest) :
    Chain (Move P) c c.closeEvents (c.close f).2.1 := by
  rw [closeEvents, close]
  split
  · exact Chain.refl
  · exact Chain.single (.close c)

/-- The beginning of a notice makes no moves. -/
theorem chain_beginQueueEmpty (c : Circuit) (now : Instant) :
    Chain (Move P) c [] (c.beginQueueEmpty now).2 := by
  unfold beginQueueEmpty
  dsimp only
  split
  · exact Chain.refl
  · exact chain_keep ⟨rfl, rfl, rfl, rfl, rfl, rfl, rfl⟩

/-- **Every operation is a chain of moves,** recorded by its record. -/
theorem moves_of_apply {o : Operation} {c c' : Circuit} {f f' : Forest} {answer : Answer}
    (hP : o.QueuesOnly P) (h : c.apply o f = .ok (answer, c', f')) :
    Chain (Move P) c (c.events o f) c' := by
  -- requeueing is ruled out by `hP`; every other operation has its chain
  cases o with
  | send category m reliable notify =>
    cases h
    exact chain_send hP
  | enqueue p => exact hP.elim
  | tick now =>
    obtain ⟨t, ht, rfl, rfl, rfl⟩ := eq_of_apply_tick h
    simp only [events, ht]
    exact chain_of_tick ht
  | receive p length now =>
    obtain ⟨disposition, hd, h⟩ := bind_eq_ok_iff.1 h
    cases h
    exact chain_receive hd
  | acknowledge sequences now =>
    cases h
    exact chain_acknowledge c sequences now
  | flushAcks =>
    cases h
    exact chain_flushAcks c
  | ping now =>
    cases h
    exact chain_ping c now
  | answerPing id =>
    rw [eq_of_apply_answerPing h]
    exact Chain.single (.quiet (.pong c id))
  | takePong id now =>
    cases h
    exact chain_takePong c id now
  | renegotiate requested now =>
    obtain ⟨⟨adjustment, forest⟩, -, h⟩ := bind_eq_ok_iff.1 h
    cases h
    exact Chain.refl
  | connect | pause | resume =>
    cases h
    exact chain_keep (sameWork_transition (by decide) (by decide) c)
  | close =>
    rw [apply_close] at h
    obtain ⟨-, hrest⟩ := Prod.mk.inj (Except.ok.inj h)
    rw [← (Prod.mk.inj hrest).1]
    exact chain_close c f
  | beginQueueEmpty now =>
    cases h
    exact chain_beginQueueEmpty c now
  | endQueueEmpty =>
    cases h
    exact chain_keep ⟨rfl, rfl, rfl, rfl, rfl, rfl, rfl⟩

end Circuit

end DatagramCircuits
