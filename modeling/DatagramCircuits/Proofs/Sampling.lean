import DatagramCircuits.Proofs.Counters
import DatagramCircuits.Proofs.Instants
/-!
# Which round trips are sampled

The estimate of the round trip comes of one sample after the other, and what is a sample is read off the
operations of a life, their answers, and the record of acknowledgements (`sampled_of_live`). An
acknowledgement gives a sample if its datagram was sent once until then. The answer to a ping gives one
if the ping is the last one that was sent, and is neither answered already nor forgotten in closing.

**The account does not keep what it would take to say this.** An entry has a number of retries and the
instant of the last transmission, and a copy may wait while the datagram is acknowledged. That these two
are the number of transmissions so far, and the time of the last one of them, is `Dated`.

What a sample does to the estimate is left to `RoundTrip.sample`. The timeout stays between its bounds
whatever the samples are (`RoundTrip.Bounded`).
-/

namespace DatagramCircuits

namespace RoundTrip

variable {low high timeout d : Span} {r : RoundTrip}

/-- Takes samples into account, one after the other. -/
def sampleAll (l : List Span) (r : RoundTrip) : RoundTrip :=
  l.foldl (fun r d ↦ r.sample d) r

theorem sampleAll_append (l l' : List Span) (r : RoundTrip) :
    r.sampleAll (l ++ l') = (r.sampleAll l).sampleAll l' :=
  List.foldl_append

/-- The timeout has these bounds, and is between them. -/
structure Bounded (low high : Span) (r : RoundTrip) : Prop where
  lowest : r.low = low
  highest : r.high = high
  above : low ≤ r.timeout
  below : r.timeout ≤ high

/-- A sample keeps the timeout between its bounds. -/
theorem Bounded.sample (h : Bounded low high r) (hle : low ≤ high) (d : Span) :
    Bounded low high (r.sample d) := by
  obtain ⟨rfl, rfl, -, -⟩ := h
  exact ⟨rfl, rfl, low_le_clamp .., clamp_le_high hle _⟩

/-- So does any number of samples. -/
theorem Bounded.sampleAll (h : Bounded low high r) (hle : low ≤ high) (l : List Span) :
    Bounded low high (r.sampleAll l) := by
  induction l generalizing r with
  | nil => exact h
  | cons d l ih => exact ih (h.sample hle d)

/-- There is an estimate without samples only if the bounds are in order. -/
theorem bounded_of_unsampled {weight : Float} (h : unsampled timeout low high weight = .ok r) :
    low ≤ high ∧ Bounded low high r := by
  rw [unsampled] at h
  split at h
  · rename_i hle
    obtain rfl := Except.ok.inj h
    exact ⟨hle, rfl, rfl, low_le_clamp .., clamp_le_high hle _⟩
  · cases h

end RoundTrip

namespace Circuit

variable {P : Message → Prop} {config : Config} {l k : List Event} {c c' : Circuit} {p : Outgoing}
  {now : Instant} {f f' : Forest} {t t' : Turn} {mtu : Nat} {sent : UInt32 → List Instant}
  {ping : Option (UInt8 × Instant)}

/-! ### Samples -/

/-- How long ago something was sent, if it was sent once. -/
def soleGap (sent : List Instant) (now : Instant) : Option Span :=
  match sent with
  | [once] => some (now - once)
  | _ => none

/-- The sample that an event gives, where it is known when each number was sent. -/
def Event.sample? (sent : UInt32 → List Instant) : Event → Option Span
  | acknowledged p now => soleGap (sent p.sequence) now
  | _ => none

/-- The samples that acknowledgements give. -/
def ackSamples (sent : UInt32 → List Instant) (k : List Event) : List Span :=
  k.filterMap (Event.sample? sent)

/-- The sample that the answer to a ping gives, if it answers the one that is outstanding. -/
def pongSample (ping : Option (UInt8 × Instant)) : Operation → Option Span
  | .takePong id now => ping.bind fun (outstanding, since) ↦
      if outstanding = id then some (now - since) else none
  | _ => none

theorem pongSample_takePong (outstanding id : UInt8) (since now : Instant) :
    pongSample (some (outstanding, since)) (.takePong id now) =
      if outstanding = id then some (now - since) else none :=
  rfl

/-- The ping that is outstanding once a datagram is sent. -/
def pingAfter (mtu : Nat) (now : Instant) (ping : Option (UInt8 × Instant)) (d : Octets) :
    Option (UInt8 × Instant) :=
  match Datagram.ping? mtu d with
  | some (id, _) => some (id, now)
  | none => ping

/-- The ping that is outstanding after an operation: the last one that was sent, unless it was answered,
or the circuit was closed since then. -/
def nextPing? (mtu : Nat) (ping : Option (UInt8 × Instant)) (o : Operation) (answer : Answer) :
    Option (UInt8 × Instant) :=
  match o, answer with
  | .tick now, a | .ping now, a => a.datagrams.foldl (pingAfter mtu now) ping
  | .takePong id _, _ => ping.filter (·.1 != id)
  | .close, .confirmed true => none
  | _, _ => ping

/-- The samples that a life gives, in order, after what came before it and with a ping outstanding. -/
def samples (mtu : Nat) : List ((Operation × Forest) × Moment) → Option (UInt8 × Instant) →
    List ((Operation × Forest) × Moment) → List Span
  | _, _, [] => []
  | past, ping, x :: rest =>
    ackSamples (sendings · past) x.2.events ++ (pongSample ping x.1.1).toList ++
      samples mtu (past ++ [x]) (nextPing? mtu ping x.1.1 x.2.answer) rest

/-! ### Acknowledgements -/

theorem ackSamples_append (sent : UInt32 → List Instant) (k k' : List Event) :
    ackSamples sent (k ++ k') = ackSamples sent k ++ ackSamples sent k' :=
  List.filterMap_append

/-- Where nothing leaves the account, acknowledgements give no samples. -/
theorem ackSamples_eq_nil (h : departures k = []) (sent : UInt32 → List Instant) :
    ackSamples sent k = [] := by
  refine List.filterMap_eq_nil_iff.2 fun ev hev ↦ ?_
  have hnone := List.filterMap_eq_nil_iff.1 h ev hev
  cases ev <;> first | rfl | cases hnone

/-- **An entry tells whether its datagram was sent once,** and when. -/
theorem Dated.soleGap_times (h : Dated l p) (now : Instant) :
    soleGap (times p.sequence l) now = if p.retries = 0 then p.lastSend.map (now - ·) else none := by
  obtain ⟨hcount, hlast⟩ := h
  rw [← hlast]
  generalize times p.sequence l = instants at hcount
  match instants with
  | [] => cases hcount
  | [once] =>
    have hzero : p.retries = 0 := UInt32.toNat.inj (Nat.succ.inj hcount).symm
    rw [if_pos hzero]
    rfl
  | _ :: _ :: rest =>
    have hretries : p.retries ≠ 0 := by
      intro hzero
      rw [hzero] at hcount
      cases hcount
    rw [if_neg hretries]
    rfl

/-- **An acknowledgement** is a sample if its datagram was sent once. -/
theorem roundTrip_acknowledge (sent : UInt32 → List Instant) (n : UInt32) (now : Instant) {t : Tracker}
    (hdates : ∀ e ∈ t.unacked, Dated l e.packet)
    (hsent : ∀ e ∈ t.unacked, sent e.sequence = times e.sequence l) :
    (t.acknowledge n now).2.roundTrip = t.roundTrip.sampleAll
      (ackSamples sent ((t.acknowledge n now).1.toList.map (.acknowledged · now))) := by
  rw [Tracker.acknowledge_fst, Tracker.acknowledge, Tracker.remove]
  cases he : t.find? n with
  | none => rfl
  | some e =>
    obtain ⟨hmem, -⟩ := Tracker.mem_of_find? he
    have hgap : Event.sample? sent (.acknowledged e.packet now) =
        if e.packet.retries = 0 then e.packet.lastSend.map (now - ·) else none := by
      rw [← (hdates e hmem).soleGap_times now]
      exact congrArg (soleGap · now) (hsent e hmem)
    simp only [Option.map_some, Option.toList_some, List.map_cons, List.map_nil, ackSamples,
      List.filterMap_cons, List.filterMap_nil, hgap]
    cases e.packet.lastSend with
    | none =>
      rw [Option.map_none, ite_self]
      rfl
    | some last =>
      dsimp only
      split <;> rfl

/-- Acknowledgements give the samples that their events tell. -/
theorem roundTrip_acknowledgeAll (sent : UInt32 → List Instant) (sequences : List UInt32)
    (now : Instant) {t : Tracker}
    (hdates : ∀ e ∈ t.unacked, Dated l e.packet)
    (hsent : ∀ e ∈ t.unacked, sent e.sequence = times e.sequence l) :
    (t.acknowledgeAll sequences now).2.roundTrip = t.roundTrip.sampleAll
      (ackSamples sent ((t.acknowledgeAll sequences now).1.map (.acknowledged · now))) := by
  induction sequences generalizing t with
  | nil => rfl
  | cons n rest ih =>
    have hfirst := roundTrip_acknowledge sent n now hdates hsent
    obtain ⟨r, hr, -⟩ := Tracker.acknowledge_snd n now t
    have hfewer : ∀ e ∈ (t.acknowledge n now).2.unacked, e ∈ t.unacked := by
      rw [hr]
      exact fun e he ↦ (List.mem_filter.1 he).1
    have hrest := ih (fun e he ↦ hdates e (hfewer e he)) fun e he ↦ hsent e (hfewer e he)
    rw [Tracker.acknowledgeAll]
    dsimp only
    rw [hrest, hfirst, List.map_append, ackSamples_append, RoundTrip.sampleAll_append]

/-! ### Ticks -/

/-- Appended acknowledgements are no sample. -/
theorem roundTrip_piggyback (mtu : Nat) (p : Outgoing) (d : Octets) (t : Tracker) :
    (piggyback mtu p d t).2.roundTrip = t.roundTrip := by
  rw [piggyback]
  split <;> rfl

theorem roundTrip_noteResent {n : UInt32} {t t' : Tracker} {found : Bool}
    (h : t.noteResent n now = .ok (found, t')) : t'.roundTrip = t.roundTrip := by
  rw [Tracker.noteResent] at h
  split at h
  · obtain ⟨-, rfl⟩ := Prod.mk.inj (Except.ok.inj h)
    rfl
  · split at h
    · obtain ⟨-, rfl⟩ := Prod.mk.inj (Except.ok.inj h)
      rfl
    · cases h

/-- Transmissions give no sample. -/
theorem roundTrip_transmit {d : Octets} (h : c.transmit p now = .ok (d, c')) :
    c'.tracker.roundTrip = c.tracker.roundTrip := by
  rw [transmit] at h
  split at h
  · obtain ⟨buffer, -, h⟩ := bind_eq_ok_iff.1 h
    obtain ⟨-, rfl⟩ := Prod.mk.inj (Except.ok.inj h)
    dsimp only
    split <;> exact roundTrip_piggyback ..
  · obtain ⟨datagram, -, h⟩ := bind_eq_ok_iff.1 h
    obtain ⟨⟨found, tracker⟩, hresent, h⟩ := bind_eq_ok_iff.1 h
    obtain ⟨-, rfl⟩ := Prod.mk.inj (Except.ok.inj h)
    exact (roundTrip_piggyback ..).trans (roundTrip_noteResent hresent)

/-- **Serving the queues** gives no sample. -/
theorem Service.roundTrip (h : Service now c k c') : c'.tracker.roundTrip = c.tracker.roundTrip := by
  cases h with
  | quiet hq => exact hq.sameBooks.roundTrip
  | discard | holdBack => rfl
  | transmit _ hsent => exact (roundTrip_transmit hsent).trans rfl

theorem roundTrip_dropOutdated (now : Instant) (c : Circuit) :
    (c.dropOutdated now).2.tracker.roundTrip = c.tracker.roundTrip := by
  rw [dropOutdated]
  split <;> rfl

/-- The search for datagrams to be sent again leaves the estimate as it is. -/
theorem roundTrip_collectExpired (now : Instant) (c : Circuit) :
    (c.collectExpired now).2.tracker.roundTrip = c.tracker.roundTrip := by
  have hgive : ∀ (c : Circuit) (p : Outgoing),
      (c.giveBack p).tracker.roundTrip = c.tracker.roundTrip := by
    intro c p
    rw [giveBack]
    split <;> rfl
  exact view_foldl (fun c ↦ c.tracker.roundTrip) hgive _ _

theorem roundTrip_checkResends (now : Instant) (c : Circuit) (f : Forest) :
    (Turn.checkResends now { circuit := c, forest := f }).circuit.tracker.roundTrip =
      c.tracker.roundTrip := by
  rw [Turn.checkResends]
  dsimp only
  split
  · rfl
  · exact (roundTrip_collectExpired now _).trans (roundTrip_dropOutdated now _)

/-- **A tick** gives no sample. -/
theorem roundTrip_of_tick (h : c.tick now f = .ok t) :
    t.circuit.tracker.roundTrip = c.tracker.roundTrip ∧ ∀ sent, ackSamples sent t.log = [] := by
  cases hclosed : c.isClosed with
  | true =>
    rw [tick_of_isClosed h hclosed]
    exact ⟨rfl, fun _ ↦ rfl⟩
  | false =>
    obtain ⟨⟨k, hchain, hlog, -⟩, -, -⟩ := serves_of_tick h hclosed
    have hround := hchain.preserves (k := [])
      (motive := fun _ x ↦ x.tracker.roundTrip = c.tracker.roundTrip) (roundTrip_checkResends now c f)
      fun hx hs ↦ hs.roundTrip.trans hx
    obtain ⟨-, dropped, handed, hlook⟩ := silent_checkResends now c f
    refine ⟨hround, fun sent ↦ ?_⟩
    rw [hlog, hlook, ackSamples_append, ackSamples_append,
      ackSamples_eq_nil (departures_eq_nil_of_chain hchain)]
    exact List.append_eq_nil_iff.2 ⟨List.append_eq_nil_iff.2
      ⟨filterMap_map_eq_nil (fun _ ↦ rfl) _, filterMap_map_eq_nil (fun _ ↦ rfl) _⟩, rfl⟩

/-! ### Pings -/

/-- Datagrams that are no pings leave the outstanding ping alone. -/
theorem foldl_pingAfter_eq_self {ds : List Octets} (h : ∀ d ∈ ds, Datagram.ping? mtu d = none) :
    ds.foldl (pingAfter mtu now) ping = ping := by
  induction ds with
  | nil => rfl
  | cons d ds ih =>
    rw [List.foldl_cons, pingAfter, h d List.mem_cons_self]
    exact ih fun d' hd' ↦ h d' (List.mem_cons_of_mem d hd')

/-- A ping that can be framed is outstanding. -/
theorem outstandingPing_nextPingDatagram (now : Instant) (c : Circuit) :
    (c.nextPingDatagram now).2.outstandingPing =
      (c.nextPingDatagram now).1.toList.foldl (pingAfter c.config.mtu now) c.outstandingPing := by
  rw [nextPingDatagram]
  split
  · rename_i d hd
    have hping := ping?_of_signal hd
    simp only [pingMessage] at hping
    simp only [Option.toList_some, List.foldl_cons, List.foldl_nil, pingAfter, hping]
  · rfl

theorem untouched_outstandingPing : Untouched outstandingPing :=
  ⟨fun _ _ ↦ rfl, fun _ _ ↦ rfl, fun _ _ ↦ rfl⟩

/-- What a part of a tick puts out tells which ping is outstanding after it. -/
def PingsTold (mtu : Nat) (now : Instant) (t t' : Turn) : Prop :=
  ∃ ds, t'.output.datagrams = t.output.datagrams ++ ds ∧
    t'.circuit.outstandingPing = ds.foldl (pingAfter mtu now) t.circuit.outstandingPing

theorem PingsTold.trans {t'' : Turn} (h : PingsTold mtu now t t') (h' : PingsTold mtu now t' t'') :
    PingsTold mtu now t t'' := by
  obtain ⟨ds, hds, hping⟩ := h
  obtain ⟨ds', hds', hping'⟩ := h'
  exact ⟨ds ++ ds', by rw [hds', hds, List.append_assoc], by rw [hping', hping, List.foldl_append]⟩

/-- What sends no ping leaves the outstanding one alone. -/
theorem PingsTold.silent (ds : List Octets) (hds : t'.output.datagrams = t.output.datagrams ++ ds)
    (hnone : ∀ d ∈ ds, Datagram.ping? mtu d = none)
    (hping : t'.circuit.outstandingPing = t.circuit.outstandingPing) : PingsTold mtu now t t' :=
  ⟨ds, hds, by rw [foldl_pingAfter_eq_self hnone, hping]⟩

/-- The search for datagrams to be sent again sends no ping. -/
theorem pingsTold_checkResends (mtu : Nat) (now : Instant) (c : Circuit) (f : Forest) :
    PingsTold mtu now { circuit := c, forest := f }
      (Turn.checkResends now { circuit := c, forest := f }) := by
  refine .silent [] (silent_checkResends now c f).1 (fun d hd ↦ absurd hd List.not_mem_nil) ?_
  rw [Turn.checkResends]
  dsimp only
  split
  · rfl
  · exact (untouched_outstandingPing.collectExpired now _).trans
      (untouched_outstandingPing.dropOutdated now _)

/-- Acknowledgements that are due are no pings. -/
theorem pingsTold_checkAcks (hmtu : t.circuit.config.mtu = mtu) :
    PingsTold mtu now t (t.checkAcks now) := by
  obtain ⟨acks, hdatagrams, -, hacks⟩ := acks_checkAcks now t
  refine .silent acks hdatagrams (fun d hd ↦ ?_) ?_
  · obtain ⟨s, hs⟩ := hacks d hd
    exact ping?_of_signal (hmtu ▸ hs)
  · unfold Turn.checkAcks
    dsimp only
    split <;> rfl

/-- A ping that is due is told. -/
theorem pingsTold_checkPing (hmtu : t.circuit.config.mtu = mtu) :
    PingsTold mtu now t (t.checkPing now) := by
  rw [Turn.checkPing]
  dsimp only
  split
  · exact ⟨[], (List.append_nil _).symm, rfl⟩
  · refine ⟨_, rfl, ?_⟩
    subst hmtu
    exact outstandingPing_nextPingDatagram now { t.circuit with pingDue := _ }

/-- **A tick** tells which ping is outstanding after it. -/
theorem outstandingPing_of_tick (h : Traced P config l c) (ht : c.tick now f = .ok t) :
    t.circuit.outstandingPing =
      t.output.datagrams.foldl (pingAfter config.mtu now) c.outstandingPing := by
  cases hclosed : c.isClosed with
  | true =>
    rw [tick_of_isClosed ht hclosed]
    rfl
  | false =>
    have hmtu : c.config.mtu = config.mtu := congrArg Config.mtu h.books.config_eq
    have hresends := congrArg (·.2.config.mtu)
      (Turn.keeps_checkResends now { circuit := c, forest := f }).1
    have hacks := congrArg (·.2.config.mtu)
      (Turn.keeps_checkAcks now (Turn.checkResends now { circuit := c, forest := f })).1
    have hprepared : PingsTold config.mtu now { circuit := c, forest := f } (c.prepared now f) :=
      (pingsTold_checkResends config.mtu now c f).trans <|
        (pingsTold_checkAcks (hresends.trans hmtu)).trans <|
          pingsTold_checkPing (hacks.trans (hresends.trans hmtu))
    obtain ⟨ds, hds, hping⟩ := hprepared
    obtain ⟨sent, hdatagrams, hnumbered⟩ := numbered_of_tick h.coursed ht hclosed
    have hnone : ∀ d ∈ sent, Datagram.ping? config.mtu d = none :=
      fun d hd ↦ Datagram.ping?_of_numbered (hnumbered d hd) config.mtu
    obtain ⟨t', rfl, hround⟩ := untouched_outstandingPing.of_tick ht hclosed
    rw [hdatagrams, List.foldl_append, foldl_pingAfter_eq_self hnone, hds]
    exact hround.trans hping

/-! ### Operations -/

/-- What an operation makes of the estimate and of the outstanding ping, given when numbers were sent. -/
structure Gauged (sent : UInt32 → List Instant) (mtu : Nat) (c : Circuit) (o : Operation)
    (k : List Event) (answer : Answer) (c' : Circuit) : Prop where
  roundTrip : c'.tracker.roundTrip = c.tracker.roundTrip.sampleAll
    (ackSamples sent k ++ (pongSample c.outstandingPing o).toList)
  ping : c'.outstandingPing = nextPing? mtu c.outstandingPing o answer

/-- Where nothing leaves the account and no ping is answered, the estimate stays. -/
theorem Gauged.unsampled {o : Operation} {answer : Answer} (hk : departures k = [])
    (hpong : pongSample c.outstandingPing o = none)
    (hround : c'.tracker.roundTrip = c.tracker.roundTrip)
    (hping : c'.outstandingPing = nextPing? mtu c.outstandingPing o answer) :
    Gauged sent mtu c o k answer c' := by
  refine ⟨?_, hping⟩
  rw [ackSamples_eq_nil hk, hpong, hround]
  rfl

/-- Of what arrives at an open circuit, only the acknowledgements matter to the estimate. -/
theorem roundTrip_receive (p : Packet) (length : Nat) (now : Instant) (hopen : c.isClosed = false) :
    (c.receive p length now).2.tracker.roundTrip =
      (c.tracker.acknowledgeAll p.acks now).2.roundTrip := by
  rw [receive, hopen, if_neg Bool.false_ne_true]
  dsimp only
  split
  · rw [receiveReliable]
    split
    · rfl
    · rename_i t ht
      obtain ⟨bytes, -, ht⟩ := bind_eq_ok_iff.1 ht
      obtain rfl := Except.ok.inj ht
      dsimp only
      split <;> rfl
  · rfl

/-- The ping that is outstanding stays so until it is answered. -/
theorem outstandingPing_receive (p : Packet) (length : Nat) (now : Instant) (c : Circuit) :
    (c.receive p length now).2.outstandingPing = c.outstandingPing := by
  rw [receive]
  split
  · rfl
  split
  · rw [receiveReliable]
    split
    · rfl
    · dsimp only
      split <;> rfl
  · rfl

/-- **An arriving datagram** gives the samples that its acknowledgements give. -/
theorem gauged_receive {p : Packet} {length : Nat} {disposition : Disposition}
    (h : (c.receive p length now).1 = .ok disposition)
    (hacks : (c.acknowledge p.acks now).2.tracker.roundTrip = c.tracker.roundTrip.sampleAll
      (ackSamples sent ((c.acknowledge p.acks now).1.map (.acknowledged · now)))) :
    Gauged sent mtu c (.receive p length now) (c.arrivalEvents p length now) (.received disposition)
      (c.receive p length now).2 := by
  refine ⟨?_, outstandingPing_receive p length now c⟩
  have hpong : pongSample c.outstandingPing (.receive p length now) = none := rfl
  rw [hpong, Option.toList_none, List.append_nil]
  cases hclosed : c.isClosed with
  | true =>
    have hreceive : c.receive p length now = (.ok .closed, c) := by
      rw [receive, if_pos hclosed]
    rw [arrivalEvents, hreceive]
    rfl
  | false =>
    have hnone : ackSamples sent [.arrived p disposition] = [] := rfl
    rw [arrivalEvents_of_open hclosed h, ackSamples_append, hnone, List.append_nil,
      roundTrip_receive p length now hclosed]
    exact hacks

/-- **The answer to a ping** gives a sample if the ping is the one that is outstanding, and none else. -/
theorem gauged_takePong (id : UInt8) (now : Instant) (effective : Bool) (c : Circuit) :
    Gauged sent mtu c (.takePong id now) [] (.confirmed effective) (c.takePong id now).2 := by
  rw [takePong]
  split
  · rename_i outstanding since heq
    split
    · rename_i hid
      constructor
      · rw [heq, pongSample_takePong, if_pos hid]
        rfl
      · rw [heq, nextPing?, Option.filter_some, bne_eq_false_iff_eq.2 hid]
        rfl
    · rename_i hid
      refine .unsampled rfl ?_ rfl ?_
      · rw [heq, pongSample_takePong, if_neg hid]
      · rw [heq, nextPing?, Option.filter_some, bne_iff_ne.2 hid]
        rfl
  · rename_i heq
    refine .unsampled rfl ?_ rfl ?_ <;> rw [heq] <;> rfl

/-- **Closing** gives no sample, though all datagrams leave the account, and forgets the ping. -/
theorem gauged_close (c : Circuit) (f : Forest) :
    Gauged sent mtu c .close c.closeEvents (.confirmed (c.close f).1) (c.close f).2.1 := by
  cases hclosed : c.isClosed with
  | true =>
    rw [close_of_closed hclosed]
    refine .unsampled ?_ rfl rfl rfl
    rw [closeEvents, hclosed, if_pos rfl]
    rfl
  | false =>
    rw [close_of_open hclosed]
    refine ⟨?_, rfl⟩
    have hnone : ackSamples sent (c.tracker.unacked.map (.cleared ·.packet)) = [] :=
      filterMap_map_eq_nil (fun _ ↦ rfl) _
    rw [closeEvents, hclosed, if_neg Bool.false_ne_true, hnone]
    rfl

/-- **Every operation** gives the samples that are read off it. -/
theorem gauged_of_apply (sent : UInt32 → List Instant) {o : Operation} {answer : Answer}
    (h : Traced P config l c) (hdates : Dates l c)
    (hsent : ∀ e ∈ c.tracker.unacked, sent e.sequence = times e.sequence l)
    (ho : c.apply o f = .ok (answer, c', f')) :
    Gauged sent config.mtu c o (c.events o f) answer c' := by
  have hmtu : c.config.mtu = config.mtu := congrArg Config.mtu h.books.config_eq
  have hacks (sequences : List UInt32) (now : Instant) :=
    roundTrip_acknowledgeAll sent sequences now hdates.entries hsent
  cases o with
  | send category m reliable notify =>
    cases ho
    have hk := (silent_sendEvents category m reliable notify c).2
    cases hs : c.send category m reliable notify with
    | error e => exact .unsampled hk rfl rfl rfl
    | ok next =>
      obtain ⟨queues, rfl⟩ := exists_queues_of_send hs
      exact .unsampled hk rfl rfl rfl
  | enqueue p =>
    cases ho
    have hk : departures (c.events (.enqueue p) f) = [] := by
      simp only [events]
      split <;> rfl
    generalize c.events (.enqueue p) f = k at hk
    rw [enqueue]
    split
    · exact .unsampled hk rfl rfl rfl
    · split <;> exact .unsampled hk rfl rfl rfl
  | tick now =>
    obtain ⟨t, ht, rfl, rfl, rfl⟩ := eq_of_apply_tick ho
    obtain ⟨hround, hnone⟩ := roundTrip_of_tick ht
    refine ⟨?_, outstandingPing_of_tick h ht⟩
    simp only [events, ht, hnone]
    exact hround
  | receive p length now =>
    obtain ⟨disposition, (hd : (c.receive p length now).1 = .ok disposition), ho⟩ :=
      bind_eq_ok_iff.1 ho
    cases ho
    exact gauged_receive hd (hacks p.acks now)
  | acknowledge sequences now =>
    cases ho
    have hpong : pongSample c.outstandingPing (.acknowledge sequences now) = none := rfl
    refine ⟨?_, rfl⟩
    rw [hpong, Option.toList_none, List.append_nil]
    exact hacks sequences now
  | flushAcks =>
    cases ho
    have hround := (chain_ackDatagrams c).preserves (k := [])
      (motive := fun _ x ↦ x.tracker.roundTrip = c.tracker.roundTrip) rfl
      fun hx hq ↦ hq.sameBooks.roundTrip.trans hx
    exact .unsampled (filterMap_map_eq_nil (fun _ ↦ rfl) _) rfl hround rfl
  | ping now =>
    cases ho
    have hk : departures (c.events (.ping now) f) = [] := filterMap_map_eq_nil (fun _ ↦ rfl) _
    have hround := (quiet_nextPingDatagram c now).sameBooks.roundTrip
    have hping := outstandingPing_nextPingDatagram now c
    rw [hmtu] at hping
    rw [Circuit.ping]
    split <;> rename_i heq <;> rw [heq] at hround hping <;> exact .unsampled hk rfl hround hping
  | answerPing id =>
    have hk : departures (c.events (.answerPing id) f) = [] := by
      simp only [events]
      split <;> rfl
    rw [eq_of_apply_answerPing ho]
    exact .unsampled hk rfl rfl rfl
  | takePong id now =>
    cases ho
    exact gauged_takePong id now _ c
  | renegotiate requested now =>
    obtain ⟨⟨adjustment, forest⟩, -, ho⟩ := bind_eq_ok_iff.1 ho
    cases ho
    exact ⟨rfl, rfl⟩
  | connect | pause | resume =>
    cases ho
    simp only [connect, pause, resume, transition]
    split <;> exact ⟨rfl, rfl⟩
  | close =>
    rw [apply_close] at ho
    obtain ⟨rfl, hrest⟩ := Prod.mk.inj (Except.ok.inj ho)
    obtain ⟨rfl, -⟩ := Prod.mk.inj hrest
    exact gauged_close c f
  | beginQueueEmpty now =>
    cases ho
    unfold beginQueueEmpty
    dsimp only
    split <;> exact ⟨rfl, rfl⟩
  | endQueueEmpty =>
    cases ho
    exact ⟨rfl, rfl⟩

/-! ### Lives -/

/-- **The estimate after a history** comes of its samples, one after the other. -/
theorem roundTrip_of_chronicle {ops : List (Operation × Forest)} {moments : List Moment}
    (past : List ((Operation × Forest) × Moment)) (h : Traced P config l c)
    (hP : ∀ o ∈ ops, Operation.QueuesOnly P (Prod.fst o)) (hops : chronicle ops c = .ok (moments, c'))
    (hbound : (firstTransmissions (l ++ history moments)).length < sequenceCount)
    (hpast : ∀ n ≠ 0, sendings n past = times n l) :
    c'.tracker.roundTrip = c.tracker.roundTrip.sampleAll
      (samples config.mtu past c.outstandingPing (ops.zip moments)) := by
  induction ops generalizing l c moments past with
  | nil =>
    obtain ⟨rfl, rfl⟩ := Prod.mk.inj (Except.ok.inj hops)
    rfl
  | cons o ops ih =>
    obtain ⟨answer, next, forest, moments', ho, hrest, rfl⟩ := chronicle_cons_eq_ok hops
    have hnext := h.apply (hP o List.mem_cons_self) ho
    rw [history_cons, ← List.append_assoc] at hbound
    have hnow := Nat.lt_of_le_of_lt (length_firstTransmissions_le _ (history moments')) hbound
    have hbefore := Nat.lt_of_le_of_lt (length_firstTransmissions_le l (c.events o.1 o.2)) hnow
    have hsent : ∀ e ∈ c.tracker.unacked, sendings e.sequence past = times e.sequence l :=
      fun e he ↦ hpast e.sequence (h.books.entries e he).kept.numbered
    obtain ⟨hround, hping⟩ := gauged_of_apply (sendings · past) h (h.dates hbefore) hsent ho
    -- what the operation sends is known from then on
    have hknown : ∀ n ≠ 0, sendings n (past ++ [(o, ⟨answer, c.events o.1 o.2⟩)]) =
        times n (l ++ c.events o.1 o.2) := by
      intro n hn
      rw [sendings_append, times_append, hpast n hn, sendings_of_apply h ho hn]
    have hlater := ih _ hnext (fun o' ho' ↦ hP o' (List.mem_cons_of_mem _ ho')) hrest hbound hknown
    rw [hlater, hround, hping, List.zip_cons_cons, samples, ← RoundTrip.sampleAll_append]

/-- What a life says about the estimate of the round trip at its end. -/
structure Sampled (config : Config) (ops : List (Operation × Forest)) (l : List Moment) (c : Circuit) :
    Prop where
  /-- The estimate comes of the samples, from the one without any. -/
  folded : ∃ r, RoundTrip.unsampled config.initialTimeout config.minTimeout config.maxTimeout
      config.smoothing = .ok r ∧
    c.tracker.roundTrip = r.sampleAll (samples config.mtu [] none (ops.zip l))
  /-- The timeout is between its bounds. -/
  bounded : config.minTimeout ≤ c.tracker.roundTrip.timeout ∧
    c.tracker.roundTrip.timeout ≤ config.maxTimeout

/-- **The estimate of the round trip comes of the samples that are read off the life,** and of nothing
else, in any life in which sequence numbers are not used again. -/
theorem sampled_of_live {session : Session} {address : Address} {root : BucketId} {start : Instant}
    {f : Forest} {ops : List (Operation × Forest)} {l : List Moment}
    (hops : ∀ o ∈ ops, Operation.QueuesOnly (fun _ ↦ True) (Prod.fst o))
    (hlive : live session address config root start f ops = .ok (l, c))
    (hbound : (firstTransmissions (history l)).length < sequenceCount) : Sampled config ops l c := by
  obtain ⟨c₀, f', hopened, hrun⟩ := live_eq_ok hlive
  have hfresh := fresh_of_opened hopened
  obtain ⟨r, hr, hround, hping⟩ : ∃ r, RoundTrip.unsampled config.initialTimeout config.minTimeout
      config.maxTimeout config.smoothing = .ok r ∧ c₀.tracker.roundTrip = r ∧
        c₀.outstandingPing = none := by
    obtain ⟨allowance, -, hbegun⟩ := opened_eq_ok_iff.1 hopened
    obtain ⟨r, tracker, hr, htracker, rfl⟩ := begun_eq_ok hbegun
    obtain ⟨seen, -, htracker⟩ := bind_eq_ok_iff.1 htracker
    obtain rfl := Except.ok.inj htracker
    exact ⟨r, hr, rfl, rfl⟩
  have hend := roundTrip_of_chronicle [] ⟨c₀, hfresh, Chain.refl⟩ hops hrun hbound
    fun n _ ↦ rfl
  rw [hround, hping] at hend
  obtain ⟨hle, hbounded⟩ := RoundTrip.bounded_of_unsampled hr
  have hbounds := hbounded.sampleAll hle (samples config.mtu [] none (ops.zip l))
  exact ⟨⟨r, hr, hend⟩, hend ▸ hbounds.above, hend ▸ hbounds.below⟩

/-- A life in which two datagrams are acknowledged, one of them after it was sent again, and three pings
are sent: one is answered twice, one is answered in a tick, and one is forgotten in closing. -/
def samplingOperations : List (Operation × Forest) :=
  let full : Forest := ⟨List.replicate 9 (.full [] 0 0 0)⟩
  let send (lane : Lane) : Operation :=
    .send (.throttled lane) { id := .high 5, payload := [1, 2, 3] } true false
  [(send .task, full), (send .texture, full), (.tick (100 * Span.millisecond), full),
    (.acknowledge [1] (150 * Span.millisecond), full), (.acknowledge [1] (160 * Span.millisecond), full),
    (.tick (700 * Span.millisecond), full), (.acknowledge [2] (900 * Span.millisecond), full),
    (.ping (1000 * Span.millisecond), full), (.takePong 7 (1010 * Span.millisecond), full),
    (.takePong 0 (1100 * Span.millisecond), full), (.takePong 0 (1200 * Span.millisecond), full),
    (.tick (9000 * Span.millisecond), full), (.takePong 1 (9040 * Span.millisecond), full),
    (.ping (9100 * Span.millisecond), full), (.close, full),
    (.takePong 2 (9200 * Span.millisecond), full)]

theorem sampled_of_sampling :
    (∀ o ∈ samplingOperations, Operation.QueuesOnly (fun _ ↦ True) (Prod.fst o)) ∧
    ∃ l c, live ⟨.ofNat 7, .ofNat 8, 99, none⟩ (.loopback 5) {} 0 0 {} samplingOperations = .ok (l, c) ∧
      (firstTransmissions (history l)).length < sequenceCount ∧
      samples 1400 [] none (samplingOperations.zip l) =
        [50 * Span.millisecond, 100 * Span.millisecond, 40 * Span.millisecond] ∧
      Sampled {} samplingOperations l c := by
  have hops : ∀ o ∈ samplingOperations, Operation.QueuesOnly (fun _ ↦ True) (Prod.fst o) := by
    simp [samplingOperations, Operation.QueuesOnly]
  obtain ⟨⟨l, c⟩, hlive, htest⟩ := exists_eq_ok_of_any
    (x := live ⟨.ofNat 7, .ofNat 8, 99, none⟩ (.loopback 5) {} 0 0 {} samplingOperations)
    (p := fun r ↦ decide ((firstTransmissions (history r.1)).length < sequenceCount ∧
      samples 1400 [] none (samplingOperations.zip r.1) =
        [50 * Span.millisecond, 100 * Span.millisecond, 40 * Span.millisecond])) (by decide +kernel)
  obtain ⟨hbound, hsamples⟩ := of_decide_eq_true htest
  exact ⟨hops, l, c, hlive, hbound, hsamples, sampled_of_live hops hlive hbound⟩

end Circuit

end DatagramCircuits
