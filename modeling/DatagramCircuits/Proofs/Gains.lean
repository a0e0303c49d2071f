import DatagramCircuits.Proofs.Recall
import DatagramCircuits.Proofs.Standing
/-!
# The octets that a circuit has to acknowledge

A circuit counts the octets that arrived and are not acknowledged, in as many bits as a length has.
**Only a datagram that it takes in adds to them,** and no more than its length (`Circuit.Gains`). None
of what is done with a circuit changes the settings that it was opened under, nor its limit.
-/

namespace DatagramCircuits

namespace Tracker

/-- Taking owed acknowledgements never adds to the octets that are counted. -/
theorem ackBytes_takeAcks_le (n : Nat) (t : Tracker) : (t.takeAcks n).2.ackBytes ≤ t.ackBytes := by
  rw [takeAcks]
  dsimp only
  split
  · exact Nat.zero_le _
  · exact Nat.le_refl _

end Tracker

namespace Circuit

variable {now : Instant} {c c' c'' : Circuit} {m n : Nat}

/-- The circuit goes on under its settings and with its buckets, and `n` octets more at most are to be
acknowledged. -/
structure Gains (n : Nat) (c c' : Circuit) : Prop where
  config : c'.config = c.config
  allowance : c'.allowance = c.allowance
  ackBytes : c'.tracker.ackBytes ≤ c.tracker.ackBytes + n

theorem Gains.refl (c : Circuit) : Gains 0 c c :=
  ⟨rfl, rfl, Nat.le_refl _⟩

/-- What is gained in two parts adds up. -/
theorem Gains.trans (h : Gains m c c') (h' : Gains n c' c'') : Gains (m + n) c c'' where
  config := h'.config.trans h.config
  allowance := h'.allowance.trans h.allowance
  ackBytes := by
    have hfirst := h.ackBytes
    have hthen := h'.ackBytes
    omega

/-- A change of phase gains nothing. -/
theorem gains_transition (source target : Phase) (c : Circuit) :
    Gains 0 c (c.transition source target).2 := by
  rw [transition]
  split <;> exact ⟨rfl, rfl, Nat.le_refl _⟩

/-- A circuit that is closed gains nothing. -/
theorem gains_ended (c : Circuit) : Gains 0 c c.ended :=
  ⟨rfl, rfl, Nat.zero_le _⟩

/-- Acknowledgements that arrive gain nothing; only datagrams count. -/
theorem gains_acknowledge (sequences : List UInt32) (now : Instant) (c : Circuit) :
    Gains 0 c (c.acknowledge sequences now).2 :=
  ⟨rfl, rfl, (ackBytes_acknowledgeAll sequences now c.tracker).1.le⟩

theorem gains_takePong (id : UInt8) (now : Instant) (c : Circuit) : Gains 0 c (c.takePong id now).2 := by
  rw [takePong]
  split
  · split <;> exact ⟨rfl, rfl, Nat.le_refl _⟩
  · exact .refl c

theorem gains_beginQueueEmpty (now : Instant) (c : Circuit) : Gains 0 c (c.beginQueueEmpty now).2 := by
  unfold beginQueueEmpty
  dsimp only
  split <;> exact ⟨rfl, rfl, Nat.le_refl _⟩

theorem gains_endQueueEmpty (c : Circuit) : Gains 0 c c.endQueueEmpty :=
  ⟨rfl, rfl, Nat.le_refl _⟩

/-- Queueing a message gains nothing. -/
theorem gains_send {category : Category} {m : Message} {reliable notify : Bool}
    (h : c.send category m reliable notify = .ok c') : Gains 0 c c' := by
  obtain ⟨queues, rfl⟩ := exists_queues_of_send h
  exact ⟨rfl, rfl, Nat.le_refl _⟩

/-- Quiet work keeps the settings and adds no octets. -/
theorem Quiet.gains {k : List Event} (h : Quiet c k c') :
    c'.config = c.config ∧ c'.tracker.ackBytes ≤ c.tracker.ackBytes := by
  refine ⟨h.sameBooks.config, ?_⟩
  cases h with
  | keep h => rw [h.tracker]
  | acks => exact Tracker.ackBytes_takeAcks_le ..
  | ping =>
    rw [nextPingDatagram]
    split <;> exact Nat.le_refl _
  | pong => exact Nat.le_refl _

/-- Sending what is owed gains nothing. -/
theorem gains_flushAcks (c : Circuit) : Gains 0 c c.flushAcks.2 := by
  have hacks := (chain_ackDatagrams c).preserves (k := [])
    (motive := fun _ c' ↦ c'.tracker.ackBytes ≤ c.tracker.ackBytes) (Nat.le_refl _)
    fun hbefore hstep ↦ Nat.le_trans hstep.gains.2 hbefore
  exact ⟨rfl, rfl, hacks⟩

/-- Of the octets of a datagram that a circuit is given, no more are to be acknowledged than there
are. -/
theorem gains_receive (p : Packet) (length : Nat) (now : Instant) (c : Circuit) :
    Gains length c (c.receive p length now).2 := by
  have hacks := gains_acknowledge p.acks now c
  rw [receive]
  split
  · exact ⟨rfl, rfl, Nat.le_add_right ..⟩
  split
  · rw [receiveReliable]
    split
    · exact ⟨rfl, rfl, Nat.le_trans hacks.ackBytes (Nat.le_add_right ..)⟩
    · rename_i t hqueue
      obtain ⟨bytes, hbytes, ht⟩ := bind_eq_ok_iff.1 hqueue
      obtain rfl := Except.ok.inj ht
      obtain ⟨-, rfl⟩ := within64_eq_ok_iff.1 hbytes
      have hsum := Nat.add_le_add_right hacks.ackBytes length
      dsimp only
      split <;> exact ⟨rfl, rfl, hsum⟩
  · exact ⟨rfl, rfl, Nat.le_trans hacks.ackBytes (Nat.le_add_right ..)⟩

/-! ### Ticks -/

/-- Acknowledgements that are appended to a datagram are owed no more. -/
theorem ackBytes_piggyback_le (mtu : Nat) (p : Outgoing) (d : Octets) (t : Tracker) :
    (piggyback mtu p d t).2.ackBytes ≤ t.ackBytes := by
  rw [piggyback]
  split
  · exact Tracker.ackBytes_takeAcks_le ..
  · exact Nat.le_refl _

/-- A transmission keeps the settings. -/
theorem config_transmit {p : Outgoing} {d : Octets} (h : c.transmit p now = .ok (d, c')) :
    c'.config = c.config := by
  rw [transmit] at h
  split at h
  · obtain ⟨buffer, -, h⟩ := bind_eq_ok_iff.1 h
    obtain ⟨-, rfl⟩ := Prod.mk.inj (Except.ok.inj h)
    rfl
  · obtain ⟨buffer, -, h⟩ := bind_eq_ok_iff.1 h
    obtain ⟨⟨known, t⟩, -, h⟩ := bind_eq_ok_iff.1 h
    obtain ⟨-, rfl⟩ := Prod.mk.inj (Except.ok.inj h)
    rfl

/-- One service of the queues keeps the settings and adds no octets. -/
theorem Service.gains {k : List Event} (h : Service now c k c') :
    c'.config = c.config ∧ c'.tracker.ackBytes ≤ c.tracker.ackBytes := by
  cases h with
  | quiet h => exact h.gains
  | discard | holdBack => exact ⟨rfl, Nat.le_refl _⟩
  | transmit htake hsent =>
    obtain ⟨buffer, t, -, ht, -, hbytes, -⟩ := exists_of_transmit hsent
    refine ⟨(config_transmit hsent).trans rfl, ?_⟩
    rw [hbytes.2]
    exact Nat.le_trans (ackBytes_piggyback_le ..) ht.2.le

theorem gains_dropOutdated (now : Instant) (c : Circuit) : Gains 0 c (c.dropOutdated now).2 := by
  rw [dropOutdated]
  split <;> exact ⟨rfl, rfl, Nat.le_refl _⟩

/-- The search for datagrams to be sent again gains nothing. -/
theorem gains_collectExpired (now : Instant) (c : Circuit) : Gains 0 c (c.collectExpired now).2 := by
  obtain ⟨q, hq, -⟩ := foldl_giveBack (c.tracker.expire now).1
    { c with tracker := (c.tracker.expire now).2 }
  rw [show (c.collectExpired now).2 = _ from hq]
  exact ⟨rfl, rfl, Nat.le_refl _⟩

/-- Looking whether anything is to be sent again gains nothing. -/
theorem gains_checkResends (now : Instant) (c : Circuit) (f : Forest) :
    Gains 0 c (Turn.checkResends now { circuit := c, forest := f }).circuit := by
  rw [Turn.checkResends]
  dsimp only
  split
  · exact .refl c
  · have htimer : Gains 0 c { c with resendDue := now + c.config.resendInterval } :=
      ⟨rfl, rfl, Nat.le_refl _⟩
    exact (htimer.trans (gains_dropOutdated now _)).trans (gains_collectExpired now _)

theorem gains_spoiled (p : Outgoing) (c : Circuit) : Gains 0 c (c.spoiled p) := by
  rw [spoiled]
  split <;> exact ⟨rfl, rfl, Nat.le_refl _⟩

/-- What a tick does after the look for datagrams to be sent again adds nothing. -/
theorem gains_served {f : Forest} {k : List Event} (h : Chain (Service now)
    (Turn.checkResends now { circuit := c, forest := f }).circuit k c') :
    c'.config = c.config ∧ c'.tracker.ackBytes ≤ c.tracker.ackBytes :=
  have hfirst := gains_checkResends now c f
  h.preserves (k := [])
    (motive := fun _ c' ↦ c'.config = c.config ∧ c'.tracker.ackBytes ≤ c.tracker.ackBytes)
    ⟨hfirst.config, hfirst.ackBytes⟩
    fun hbefore hstep ↦ ⟨hstep.gains.1.trans hbefore.1, Nat.le_trans hstep.gains.2 hbefore.2⟩

/-- A tick gains nothing. -/
theorem gains_tick {f : Forest} {t : Turn} (h : c.tick now f = .ok t) : Gains 0 c t.circuit := by
  cases hclosed : c.isClosed with
  | true =>
    rw [tick_of_isClosed h hclosed]
    exact .refl c
  | false =>
    obtain ⟨⟨k, hchain, -, -⟩, -, -⟩ := serves_of_tick h hclosed
    have hserved := gains_served hchain
    exact ⟨hserved.1, allowance_of_standing (keeps_of_tick h).1, hserved.2⟩

/-- Neither does a tick that ends with a fault. -/
theorem gains_tick_error {f : Forest} {t : Turn} {fault : Fault}
    (h : c.tick now f = .error (fault, t)) : Gains 0 c t.circuit := by
  have hallowance := allowance_of_standing (standing_of_background (background_of_tick_error h).1)
  obtain ⟨u, k, lane, hchain, -, hlane⟩ := exists_served_of_error h
  obtain ⟨p, q, forest, -, -, -, rfl⟩ := Turn.serveLane_eq_error hlane
  have hserved := gains_served hchain
  have hspoiled := gains_spoiled p { u.circuit with queues := u.circuit.queues.set lane q }
  exact ⟨hspoiled.config.trans hserved.1, hallowance, Nat.le_trans hspoiled.ackBytes hserved.2⟩

end Circuit

end DatagramCircuits
