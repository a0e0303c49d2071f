import DatagramCircuits.Proofs.Burden
import DatagramCircuits.Proofs.Limits
/-!
# Servers without a fault

A server is **sheltered** if its settings are valid and in range, and the octets on its hands can be
counted. Then no task meets a fault, unless it does regular work (`RunningServer.fault_of_sheltered`),
and a circuit is set up whenever one can be opened.

A server stays sheltered as long as few enough octets have arrived (`RunningServer.sheltered_of_run`).
-/

namespace DatagramCircuits

/-! ### Tasks -/

/-- Whether an action is the regular work of a circuit. -/
def Action.isServe : Action → Bool
  | serve .. => true
  | _ => false

/-- None of the actions is regular work of a circuit. -/
def Action.Inbound (l : List Action) : Prop :=
  ∀ a ∈ l, a.isServe = false

theorem Action.inbound_nil : Inbound [] :=
  fun _ ha ↦ absurd ha List.not_mem_nil

/-- Sending is no visit of a circuit. -/
theorem Action.inbound_of_isSend {l : List Action} (h : ∀ a ∈ l, a.isSend = true) : Inbound l := by
  intro a ha
  have hsend := h a ha
  cases a <;> first | rfl | cases hsend

theorem Action.Inbound.append {l k : List Action} (hl : Inbound l) (hk : Inbound k) :
    Inbound (l ++ k) :=
  fun a ha ↦ (List.mem_append.1 ha).elim (hl a) (hk a)

/-- What a new circuit has to go through is no visit of a circuit. -/
theorem Action.inbound_setup (id id' : CircuitId) (kept : List Octets) :
    Inbound (.announce id :: kept.map (.replay id' ·)) := by
  intro a ha
  rcases List.mem_cons.1 ha with rfl | ha
  · rfl
  · obtain ⟨d, -, rfl⟩ := List.mem_map.1 ha
    rfl

namespace Server

variable {s s' : Server} {m n : Nat} {id : CircuitId} {c : Circuit} {p : Packet} {now : Instant}
  {a : Action} {l : List Action} {fault : Fault}

/-- The delivery of a packet leaves no visit to be done. -/
theorem inbound_deliver (id : CircuitId) (p : Packet) (now : Instant) (s : Server) :
    Action.Inbound (s.deliver id p now).1.rest := by
  rw [deliver]
  split
  · exact Action.inbound_nil
  · split
    · exact Action.inbound_nil
    · exact Action.inbound_of_isSend fun _ ↦ isSend_of_control
    · exact Action.inbound_nil

/-- Nor does a datagram that a circuit takes in. -/
theorem inbound_receive (id : CircuitId) (p : Packet) (length : Nat) (now : Instant) (s : Server) :
    Action.Inbound (s.receive id p length now).1.rest := by
  rw [receive]
  split
  · exact Action.inbound_nil
  · split
    · exact Action.inbound_nil
    · exact Action.inbound_nil
    · exact Action.inbound_nil
    · exact inbound_deliver _ _ _ _
    · split
      · exact inbound_deliver _ _ _ _
      · refine (Action.inbound_of_isSend fun _ ↦ Action.isSend_of_mem_sendAll).append fun a ha ↦ ?_
        rw [List.mem_singleton.1 ha]
        rfl

theorem inbound_readDatagram {datagram : Octets} {next : Packet → Outcome × Server}
    (h : ∀ p, Action.Inbound (next p).1.rest) :
    Action.Inbound (s.readDatagram datagram next).1.rest := by
  rw [readDatagram]
  split
  · exact h _
  · exact Action.inbound_nil
  · exact Action.inbound_nil

/-- Nothing but regular work leads to regular work, and that leads to sending only. -/
theorem inbound_perform (a : Action) (now : Instant) (s : Server) :
    Action.Inbound (s.perform now a).1.rest := by
  cases a with
  | transmit | countSent | announce => exact Action.inbound_nil
  | deliver id p => exact inbound_deliver _ _ _ _
  | replay id datagram => exact inbound_readDatagram fun p ↦ inbound_receive _ _ _ _ _
  | handle source datagram =>
    refine inbound_readDatagram fun p ↦ ?_
    split
    · exact inbound_receive _ _ _ _ _
    · split <;> exact Action.inbound_nil
  | serve id time => exact Action.inbound_of_isSend fun _ ↦ isSend_of_serve

/-- A task without visits is left without them when it waits. -/
theorem inbound_advance (hl : Action.Inbound l) (now : Instant) (s : Server) :
    Action.Inbound (s.advance now l).1.rest := by
  induction l generalizing s with
  | nil => exact Action.inbound_nil
  | cons a l ih =>
    have htail : Action.Inbound l := fun b hb ↦ hl b (List.mem_cons_of_mem a hb)
    have hfirst := inbound_perform a now s
    rw [advance]
    split <;> rename_i heq <;> rw [heq] at hfirst
    · exact ih htail _
    · exact hfirst.append htail
    · exact Action.inbound_nil

/-! ### No fault -/

/-- The settings are valid and fit, all circuits have them, and all octets there are can be counted,
together with `n` more that a task has. -/
structure Sheltered (n : Nat) (s : Server) : Prop where
  valid : s.config.Valid
  fits : s.config.Fits
  suited : s.Suited
  within : s.burden + n < UInt64.size

/-- A server stays sheltered through whatever it bears, for as many octets as are left. -/
theorem Sheltered.bears (h : Sheltered m s) (hs : Bears s m s' n) : Sheltered n s' where
  valid := hs.config ▸ h.valid
  fits := hs.config ▸ h.fits
  suited := hs.suited h.suited
  within := Nat.lt_of_le_of_lt hs.burden h.within

/-- The octets that a circuit has to acknowledge can be counted, also with those that are yet to
come. -/
theorem Sheltered.ackBytes_lt (h : Sheltered n s) (hid : s.circuit? id = some c) :
    c.tracker.ackBytes + n < UInt64.size := by
  have hmem : c.tracker.ackBytes ∈ s.circuits.map fun c ↦ c.tracker.ackBytes :=
    List.mem_map.2 ⟨c, List.mem_of_getElem? hid, rfl⟩
  have hle := List.le_sum_of_mem hmem
  have hwithin := h.within
  rw [burden] at hwithin
  omega

/-- A message of the protocol meets no fault. -/
theorem Sheltered.control_ne (h : Sheltered n s) (hid : s.circuit? id = some c) (m : Control)
    (now : Instant) : (s.control id c m now).1 ≠ .failed fault := by
  cases m with
  | acks | pong | close | setup => simp [control]
  | ping => rw [control]; split <;> simp
  | throttle rates =>
    obtain ⟨hconfig, hlimit⟩ := h.suited c (List.mem_of_getElem? hid)
    obtain ⟨r, hgranted⟩ := Allowance.exists_renegotiate (a := c.allowance)
      (hlimit ▸ h.valid.floorTotal_le) (hlimit ▸ h.fits.circuitRate) rates now s.forest
    rw [control, Circuit.renegotiate, hconfig, h.fits.warnings, hgranted]
    simp

/-- The delivery of a packet meets no fault. -/
theorem Sheltered.deliver_ne (h : Sheltered n s) (id : CircuitId) (p : Packet) (now : Instant) :
    (s.deliver id p now).1 ≠ .failed fault := by
  rw [deliver]
  split
  · simp
  · split
    · simp
    · exact h.control_ne ‹_› _ now
    · simp

/-- A datagram is taken in without a fault, if there is shelter for its length. -/
theorem Sheltered.receive_ne {length : Nat} (h : Sheltered length s) (id : CircuitId) (p : Packet)
    (now : Instant) : (s.receive id p length now).1 ≠ .failed fault := by
  rw [receive]
  split
  · simp
  · rename_i c hid
    have hconfig := (h.suited c (List.mem_of_getElem? hid)).1
    obtain ⟨d, hd⟩ := Circuit.exists_receive (hconfig ▸ h.fits.threshold) (h.ackBytes_lt hid) p now
    have hgains := c.gains_receive p length now
    split <;> rename_i c' hreceive <;> rw [hreceive] at hd hgains
    · cases hd
    · simp
    · simp
    · exact (h.bears (bears_putCircuit hid hgains)).deliver_ne id p now
    · split <;> rename_i hacks
      · have hflushed := hgains.trans c'.gains_flushAcks
        rw [hacks] at hflushed
        exact (h.bears (bears_putCircuit hid hflushed)).deliver_ne id p now
      · simp

/-- A datagram is read without a fault, or refused. -/
theorem Sheltered.readDatagram_ne (h : Sheltered n s) {datagram : Octets}
    {next : Packet → Outcome × Server} (hnext : ∀ p, (next p).1 ≠ .failed fault) :
    (s.readDatagram datagram next).1 ≠ .failed fault := by
  rw [readDatagram]
  split
  · exact hnext _
  · simp
  · exact absurd ‹_› (Datagram.parse_ne_fault h.fits.mtu _)

/-- **An action of a sheltered server** meets no fault, unless it is regular work. -/
theorem Sheltered.perform_ne (h : Sheltered a.octets s) (ha : a.isServe = false) (now : Instant) :
    (s.perform now a).1 ≠ .failed fault := by
  cases a with
  | transmit | countSent | announce => simp [perform]
  | deliver id p => exact h.deliver_ne id p now
  | replay id datagram => exact h.readDatagram_ne fun p ↦ h.receive_ne id p now
  | handle source datagram =>
    refine h.readDatagram_ne fun p ↦ ?_
    split
    · exact h.receive_ne _ p now
    · split <;> simp
  | serve => cases ha

/-- **A part of a task** that is no regular work meets no fault. -/
theorem Sheltered.advance_ne {mtu : Nat} (hs : Regular mtu s) (h : Sheltered (Action.load l) s)
    (hl : Action.Inbound l) (now : Instant) : (s.advance now l).1 ≠ .failed fault := by
  induction l generalizing s with
  | nil => simp [advance]
  | cons a l ih =>
    have hone : Sheltered a.octets s :=
      ⟨h.valid, h.fits, h.suited, Nat.lt_of_le_of_lt
        (Nat.add_le_add_left (Nat.le_add_right ..) _) h.within⟩
    have hne : (s.perform now a).1 ≠ .failed fault := hone.perform_ne (hl a List.mem_cons_self) now
    have hfirst : Bears s (a.octets + Action.load l) _ _ :=
      (handles_perform hs.waiting.shards a now).frame (Action.load l)
    obtain ⟨k, hwork, -⟩ := accounts_perform now a s
    rw [advance]
    split <;> rename_i heq <;> rw [heq] at hne hfirst hwork
    · simp only [Outcome.rest, Action.load_nil, Nat.zero_add] at hfirst
      exact ih (hs.chain (chain_of_work hwork)) (h.bears hfirst) fun b hb ↦
        hl b (List.mem_cons_of_mem a hb)
    · simp
    · exact hne

/-- **The set-up of a circuit** meets no fault, unless no circuit can be opened. -/
theorem Sheltered.not_opens_of_establish {h : Handshake} (hs : Sheltered h.length s) {session : Session}
    (hfault : (s.establish h session now).1 = .error fault) : ¬s.config.Opens now := by
  intro hopens
  obtain ⟨⟨c, forest⟩, hopened⟩ :=
    (Circuit.exists_opened_iff hs.valid hs.fits.circuitRate session h.address s.root now s.forest).2 hopens
  have hfresh := Circuit.fresh_of_opened hopened
  have hbytes : c.tracker.ackBytes + h.length < UInt64.size := by
    have hwithin := hs.within
    rw [hfresh.ackBytes]
    omega
  obtain ⟨d, hd⟩ := Circuit.exists_receive (hfresh.config_eq ▸ hs.fits.threshold) hbytes h.packet now
  rw [establish_of_opened hopened hd] at hfault
  cases hfault

/-- A new circuit that was set up has no visit ahead of it in this task. -/
theorem inbound_of_establish {h : Handshake} {session : Session} {acks : List Octets}
    (hestablish : (s.establish h session now).1 = .ok (acks, l)) : Action.Inbound l := by
  rw [establish] at hestablish
  split at hestablish
  · cases hestablish
  · dsimp only at hestablish
    split at hestablish
    · cases hestablish
    · cases hestablish
      exact Action.inbound_setup _ _ _

theorem inbound_conclude (h : Handshake) (result : Authorization) (now : Instant) (s : Server) :
    Action.Inbound (s.conclude h result now).1.rest := by
  cases result with
  | denied => exact Action.inbound_nil
  | granted session =>
    rw [conclude]
    split <;> rename_i heq
    · exact Action.inbound_nil
    · exact inbound_advance (inbound_of_establish (congrArg Prod.fst heq)) now _
    · exact (Action.inbound_of_isSend fun _ ↦ Action.isSend_of_mem_sendAll).append
        (inbound_of_establish (congrArg Prod.fst heq))

/-- Shelter for more octets is shelter for fewer. -/
theorem Sheltered.of_le (h : Sheltered m s) (hn : n ≤ m) : Sheltered n s :=
  ⟨h.valid, h.fits, h.suited, Nat.lt_of_le_of_lt (Nat.add_le_add_left hn _) h.within⟩

end Server

namespace RunningServer

open Server

variable {mtu : Nat} {r r₀ : RunningServer} {now : Instant} {e : Step} {l : List Action} {s : Server}
  {fault : Fault} {config : Config} {start : Instant}

/-! ### Running servers without a fault -/

/-- A fault ends a task, or keeps it from going on with a request that was granted. -/
def Faults (now : Instant) (e : Step) (fault : Fault) (r : RunningServer) : Prop :=
  (∃ l s, r.part? now e = some (l, s) ∧ (s.advance now l).1 = .failed fault) ∨
    ∃ position session h, e = .authorize position (.granted session) ∧
      r.server.authorizing[position]? = some h ∧
      ((r.server.decided position).establish h session now).1 = .error fault

/-- Regular work of circuits is done in rounds only. -/
structure Divided (r : RunningServer) : Prop where
  decoding : Action.Inbound r.decoding.rest
  setups : ∀ l ∈ r.setups, Action.Inbound l

theorem Divided.decoded (h : Divided r) {o : Outcome × Server} (ho : Action.Inbound o.1.rest) :
    Divided (r.decoded o) :=
  ⟨(Loop.rest_after o.2.stopping o.1).symm ▸ ho, h.setups⟩

theorem Divided.settled (h : Divided r) {o : Outcome × Server} (ho : Action.Inbound o.1.rest) :
    Divided (r.settled o) := by
  obtain ⟨_ | rest | fault, s⟩ := o
  · exact ⟨h.decoding, h.setups⟩
  · refine ⟨h.decoding, fun l hl ↦ ?_⟩
    rcases List.mem_append.1 hl with hl | hl
    · exact h.setups l hl
    · rw [List.mem_singleton.1 hl]
      exact ho
  · exact ⟨h.decoding, h.setups⟩

/-- Whatever the server does next, its inbound tasks are left without visits. -/
theorem Divided.step (h : Divided r) (now : Instant) (e : Step) : Divided (r.step now e) := by
  have hsame : ∀ {r' : RunningServer}, r'.decoding = r.decoding → r'.setups = r.setups →
      Divided r' := fun hdecoding hsetups ↦
    ⟨hdecoding ▸ h.decoding, hsetups ▸ h.setups⟩
  cases e with
  | decode =>
    rw [RunningServer.step, decode]
    split
    · refine h.decoded (inbound_advance (fun a ha ↦ ?_) now _)
      rw [List.mem_singleton.1 ha]
      rfl
    · exact h
  | resumeDecoding =>
    rw [RunningServer.step, resumeDecoding]
    split
    · rename_i rest hloop
      have hrest := h.decoding
      rw [hloop] at hrest
      exact h.decoded (inbound_advance hrest now _)
    · exact h
  | stopDecoding =>
    rw [RunningServer.step, stopDecoding]
    split
    · exact ⟨Action.inbound_nil, h.setups⟩
    · exact h
  | authorize position result =>
    rw [RunningServer.step, authorize]
    split
    · exact h
    · exact h.settled (inbound_conclude _ _ _ _)
  | resumeSetup position =>
    rw [RunningServer.step, resumeSetup]
    split
    · exact h
    · rename_i rest hsetup
      have hothers : Divided { r with setups := r.setups.eraseIdx position } :=
        ⟨h.decoding, fun l hl ↦ h.setups l (List.mem_of_mem_eraseIdx hl)⟩
      exact hothers.settled (inbound_advance (h.setups rest (List.mem_of_getElem? hsetup)) now _)
  | arrive | beginRound | resumeRound | beginNotice | endNotice | stopWorkers =>
    simp only [RunningServer.step, arrive, beginRound, resumeRound, beginNotice, endNotice, stopWorkers]
    repeat' split
    all_goals exact hsame rfl rfl
  | stopReceiving | closeSilent | send | close | pause | resume | shutdown => exact hsame rfl rfl

/-- A task that goes on with no regular work is sheltered. -/
theorem sheltered_of_part (hr : Regular mtu r.server) (hdivided : Divided r)
    (h : Sheltered (Action.load r.tasks.flatten) r.server)
    (hround : (∀ order, e ≠ .beginRound order) ∧ e ≠ .resumeRound) (hpart : r.part? now e = some (l, s)) :
    Regular mtu s ∧ Sheltered (Action.load l) s ∧ Action.Inbound l := by
  have hnone := h.of_le (Nat.zero_le _)
  cases e with
  | decode =>
    rw [part?] at hpart
    split at hpart
    · rename_i source datagram inbox _ hinbox
      obtain ⟨rfl, rfl⟩ := Prod.mk.inj (Option.some.inj hpart)
      -- the server had the octets on its hands while the datagram waited to be decoded
      refine ⟨regular_taken hr inbox, hnone.bears (bears_taken hinbox), fun a ha ↦ ?_⟩
      rw [List.mem_singleton.1 ha]
      rfl
    · cases hpart
  | resumeDecoding =>
    rw [part?] at hpart
    split at hpart
    · rename_i rest hloop
      obtain ⟨rfl, rfl⟩ := Prod.mk.inj (Option.some.inj hpart)
      have hload := (splits_decoding (congrArg Loop.rest hloop)).load_flatten
      have hrest := hdivided.decoding
      rw [hloop] at hrest
      exact ⟨hr, h.of_le (hload ▸ Nat.le_add_right ..), hrest⟩
    · cases hpart
  | authorize position result =>
    cases result with
    | denied => cases hpart
    | granted session =>
      rw [part?] at hpart
      split at hpart
      · cases hpart
      · rename_i request hposition
        -- what was kept for the request is to be replayed, and weighs as much as before
        have hdecided := bears_decided hposition
        have hestablished := hdecided.trans (bears_establish (s := r.server.decided position)
          hr.distinct hr.waiting.shards request session now)
        obtain ⟨k, hchain, -⟩ := changesQuietly_establish hposition session now
        split at hpart
        · rename_i rest server hestablish
          obtain ⟨rfl, rfl⟩ := Prod.mk.inj (Option.some.inj hpart)
          rw [hestablish] at hestablished hchain
          exact ⟨hr.chain hchain, hnone.bears hestablished,
            inbound_of_establish (congrArg Prod.fst hestablish)⟩
        · cases hpart
  | resumeSetup position =>
    obtain ⟨rest, hsetup, hrest⟩ := Option.map_eq_some_iff.1 hpart
    obtain ⟨rfl, rfl⟩ := Prod.mk.inj hrest
    have hload := (splits_setup hsetup).load_flatten
    exact ⟨hr, h.of_le (hload ▸ Nat.le_add_right ..),
      hdivided.setups rest (List.mem_of_getElem? hsetup)⟩
  | beginRound order => exact absurd rfl (hround.1 order)
  | resumeRound => exact absurd rfl hround.2
  | _ => cases hpart

/-- **No fault ends a task of a sheltered server,** unless it does regular work, or is to set a circuit up
where none can be opened. -/
theorem fault_of_sheltered (hr : Regular mtu r.server) (hdivided : Divided r)
    (h : Sheltered (Action.load r.tasks.flatten) r.server) (hfault : r.Faults now e fault) :
    (∃ order, e = .beginRound order) ∨ e = .resumeRound ∨
      ¬r.server.config.Opens now ∧ ∃ position session, e = .authorize position (.granted session) := by
  rcases hfault with ⟨l, s, hpart, hfailed⟩ | ⟨position, session, request, rfl, hposition, hfailed⟩
  · by_contra hnot
    obtain ⟨hbegin, hresume, -⟩ := not_or.1 hnot |>.imp_right not_or.1
    obtain ⟨hregular, hsheltered, hl⟩ :=
      sheltered_of_part hr hdivided h ⟨not_exists.1 hbegin, hresume⟩ hpart
    exact hsheltered.advance_ne hregular hl now hfailed
  · have hdecided := (h.of_le (Nat.zero_le _)).bears (bears_decided hposition)
    exact .inr (.inr ⟨hdecided.not_opens_of_establish hfailed, position, session, rfl⟩)

/-- A new server has no tasks. -/
theorem divided_of_create (h : create config start = .ok r₀) : Divided r₀ := by
  obtain ⟨burst, pending, notices, -, rfl⟩ := exists_of_create h
  exact ⟨Action.inbound_nil, fun l hl ↦ absurd hl List.not_mem_nil⟩

/-- A server is created under valid settings only. -/
theorem valid_of_create (h : create config start = .ok r₀) : config.Valid := by
  obtain ⟨s, hs, -⟩ := bind_eq_ok_iff.1 h
  obtain ⟨_, hvalid, -⟩ := bind_eq_ok_iff.1 hs
  exact mapError_eq_ok_iff.1 hvalid

/-- After every history in which few enough octets arrived, a server whose settings fit is sheltered. -/
theorem sheltered_of_run (hcreate : create config start = .ok r₀) (hfits : config.Fits)
    {history : List (Instant × Step)} (hreceived : received history < 2 ^ 64) :
    Sheltered (Action.load (r₀.run history).tasks.flatten) (r₀.run history).server := by
  have hbears := bears_run (inOrder_of_create hcreate).regular history
  have hvalid := valid_of_create hcreate
  have hbegin : Sheltered (received history + Action.load r₀.tasks.flatten) r₀.server := by
    obtain ⟨burst, pending, notices, hpending, rfl⟩ := exists_of_create hcreate
    refine ⟨hvalid, hfits, fun c hc ↦ absurd hc List.not_mem_nil, ?_⟩
    have htotal := Sharded.total_of_create (fun l : List Octets ↦ (l.map List.length).sum) hpending
    rw [burden]
    dsimp only [tasks, Loop.rest]
    rw [htotal]
    simpa using hreceived
  exact hbegin.bears hbears

end RunningServer

end DatagramCircuits
