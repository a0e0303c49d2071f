import DatagramCircuits.Proofs.Accounting
import DatagramCircuits.Proofs.Gains
/-!
# The octets that a server has on its hands

The octets that arrived and are not acknowledged are counted by each circuit, in as many bits as a
length has. They can not come to more than what arrived: a datagram waits to be decoded, is kept for a
circuit or belongs to a request, is in the hands of a task, or was taken in by one circuit. The
**burden** of a server is the sum of all that.

**Nothing but an arrival adds to the burden.** Every function of a server passes octets on or lets go of
them (`Server.Bears`), and so does every step (`RunningServer.bears_step`). On the way no circuit changes
the settings that it was opened under.
-/

namespace DatagramCircuits

/-! ### Actions -/

namespace Action

/-- The octets of the datagram that an action still has to give to a circuit. -/
def octets : Action → Nat
  | replay _ datagram | handle _ datagram => datagram.length
  | _ => 0

/-- The octets of the datagrams that actions still have to give to circuits. -/
def load (l : List Action) : Nat :=
  (l.map octets).sum

@[simp] theorem load_nil : load [] = 0 :=
  rfl

@[simp] theorem load_cons (a : Action) (l : List Action) : load (a :: l) = a.octets + load l :=
  rfl

@[simp] theorem load_append (l k : List Action) : load (l ++ k) = load l + load k := by
  rw [load, List.map_append, List.sum_append]
  rfl

/-- Actions without octets are no load. -/
theorem load_eq_zero {l : List Action} (h : ∀ a ∈ l, a.octets = 0) : load l = 0 := by
  refine List.sum_eq_zero fun n hn ↦ ?_
  obtain ⟨a, ha, rfl⟩ := List.mem_map.1 hn
  exact h a ha

/-- What is sent was not received, and is no load. -/
theorem load_of_isSend {l : List Action} (h : ∀ a ∈ l, a.isSend = true) : load l = 0 := by
  refine load_eq_zero fun a ha ↦ ?_
  have hsend := h a ha
  cases a <;> first | rfl | cases hsend

/-- Datagrams that were kept weigh as much when they are seen to. -/
theorem load_replays (id : CircuitId) (l : List Octets) :
    load (l.map (.replay id ·)) = (l.map List.length).sum := by
  rw [load, List.map_map]
  rfl

end Action

namespace Server

variable {s s' s'' : Server} {m m' m'' n : Nat} {id : CircuitId} {c c' : Circuit} {now : Instant}
  {p : Packet}

/-- All circuits have the settings of the server, and the limit that these name. -/
def Suited (s : Server) : Prop :=
  ∀ c ∈ s.circuits, c.config = s.config ∧ c.allowance.limit = s.config.circuitRate

/-- The octets that wait to be decoded, are kept for circuits, belong to requests, or are to be
acknowledged by circuits. -/
def burden (s : Server) : Nat :=
  (s.inbox.map fun x ↦ x.2.length).sum +
    s.pending.total (fun l : List Octets ↦ (l.map List.length).sum) +
    (s.authorizing.map Handshake.length).sum + (s.circuits.map fun c ↦ c.tracker.ackBytes).sum

/-- From one state of the server to another one, the burden does not grow, taken together with the
octets that a task has: `m` of them before and `m'` behind. -/
structure Bears (s : Server) (m : Nat) (s' : Server) (m' : Nat) : Prop where
  config : s'.config = s.config
  suited : s.Suited → s'.Suited
  burden : s'.burden + m' ≤ s.burden + m

theorem Bears.refl (s : Server) (m : Nat) : Bears s m s m :=
  ⟨rfl, id, Nat.le_refl _⟩

/-- What is borne in two parts is borne. -/
theorem Bears.trans (h : Bears s m s' m') (h' : Bears s' m' s'' m'') : Bears s m s'' m'' :=
  ⟨h'.config.trans h.config, h'.suited ∘ h.suited, Nat.le_trans h'.burden h.burden⟩

/-- Other octets are there as well. -/
theorem Bears.frame (h : Bears s m s' m') (n : Nat) : Bears s (m + n) s' (m' + n) where
  config := h.config
  suited := h.suited
  burden := by
    have hburden := h.burden
    omega

/-- What a second part is about may be there before the first one, and what the first part leaves may
stay. -/
theorem Bears.beside {n' : Nat} (h : Bears s m s' m') (h' : Bears s' n s'' n') :
    Bears s (m + n) s'' (m' + n') where
  config := h'.config.trans h.config
  suited := h'.suited ∘ h.suited
  burden := by
    have hfirst := h.burden
    have hthen := h'.burden
    omega

/-- Octets may be let go of. -/
theorem Bears.of_le (h : Bears s m s' m') (hn : m ≤ n) : Bears s n s' m' where
  config := h.config
  suited := h.suited
  burden := Nat.le_trans h.burden (Nat.add_le_add_left hn _)

/-- What has nothing to do with datagrams and circuits. -/
theorem bears_aside (hconfig : s'.config = s.config) (hinbox : s'.inbox = s.inbox)
    (hpending : s'.pending = s.pending) (hauthorizing : s'.authorizing = s.authorizing)
    (hcircuits : s'.circuits = s.circuits) : Bears s 0 s' 0 := by
  refine ⟨hconfig, fun hs ↦ ?_, ?_⟩
  · rw [Suited, hcircuits, hconfig]
    exact hs
  · rw [burden, hinbox, hpending, hauthorizing, hcircuits]
    exact Nat.le_refl _

/-- The record of effects is no burden. -/
theorem bears_record (e : Effect) (s : Server) : Bears s 0 (s.record e) 0 :=
  bears_aside rfl rfl rfl rfl rfl

/-- Nor are the counters. -/
theorem bears_count (change : Counters → Counters) (s : Server) : Bears s 0 (s.count change) 0 :=
  bears_aside rfl rfl rfl rfl rfl

theorem bears_drop (cause : DropCause) (s : Server) : Bears s 0 (s.drop cause) 0 :=
  bears_count ..

/-! ### Circuits of a server -/

/-- A circuit takes octets on. -/
theorem bears_putCircuit (hid : s.circuit? id = some c) (h : c.Gains n c') :
    Bears s n (s.putCircuit id c') 0 := by
  obtain ⟨hlt, rfl⟩ := List.getElem?_eq_some_iff.1 hid
  refine ⟨rfl, fun hs d hd ↦ ?_, ?_⟩
  · rcases List.mem_or_eq_of_mem_set hd with hd | rfl
    · exact hs d hd
    · rw [h.config, h.allowance]
      exact hs _ (List.getElem_mem hlt)
  · have hsum := Sharded.sum_map_set (fun c : Circuit ↦ c.tracker.ackBytes) hlt c'
    have hbytes := h.ackBytes
    rw [burden, burden]
    dsimp only [putCircuit]
    omega

/-- Closing a circuit adds nothing. -/
theorem bears_closeCircuit (id : CircuitId) (reason : CloseReason) (s : Server) :
    Bears s 0 (s.closeCircuit id reason).2 0 := by
  cases hid : s.circuit? id with
  | none =>
    rw [closeCircuit_of_none reason hid]
    exact .refl s 0
  | some c =>
    cases hclosed : c.isClosed with
    | true =>
      rw [closeCircuit_of_closed reason hid hclosed]
      exact .refl s 0
    | false =>
      rw [closeCircuit_of_open reason hid hclosed]
      exact (bears_putCircuit hid c.gains_ended).trans (bears_aside rfl rfl rfl rfl rfl)

/-- Nor does closing several. -/
theorem bears_supersede (ids : List CircuitId) (s : Server) : Bears s 0 (s.supersede ids) 0 := by
  induction ids generalizing s with
  | nil => exact .refl s 0
  | cons id ids ih => exact (bears_closeCircuit id .superseded s).trans (ih _)

/-! ### Messages -/

/-- A message of the protocol adds nothing: the datagram that brought it was counted already. -/
theorem bears_control (hid : s.circuit? id = some c) (m : Control) (now : Instant) :
    Bears s 0 (s.control id c m now).2 0 := by
  cases m with
  | acks sequences => exact bears_putCircuit hid (c.gains_acknowledge sequences now)
  | pong ping => exact bears_putCircuit hid (c.gains_takePong ping now)
  | ping =>
    rw [control]
    split <;> exact .refl s 0
  | throttle rates =>
    rw [control]
    split
    · exact bears_aside rfl rfl rfl rfl rfl
    · exact .refl s 0
  | close => exact bears_closeCircuit ..
  | setup => exact .refl s 0

/-- What is left of an action with some octets, and the server with it. -/
def Handles (s : Server) (m : Nat) (o : Outcome × Server) : Prop :=
  Bears s m o.2 (Action.load o.1.rest)

/-- The delivery of a packet adds nothing, for the same reason. -/
theorem handles_deliver (id : CircuitId) (p : Packet) (now : Instant) (s : Server) :
    Handles s 0 (s.deliver id p now) := by
  rw [deliver]
  split
  · exact .refl s 0
  · rename_i c hid
    split
    · exact bears_drop .malformed s
    · rename_i m rest hread
      rw [Handles, Action.load_of_isSend fun _ ↦ isSend_of_control]
      exact bears_control hid m now
    · exact bears_record _ s

/-! ### Datagrams -/

/-- A datagram weighs on the circuit that takes it in, by no more than its length. -/
theorem handles_receive (id : CircuitId) (p : Packet) (length : Nat) (now : Instant) (s : Server) :
    Handles s length (s.receive id p length now) := by
  rw [receive]
  split
  · exact (Bears.refl s 0).of_le (Nat.zero_le length)
  · rename_i c hid
    have hgains := c.gains_receive p length now
    split <;> rename_i c' hreceive <;> rw [hreceive] at hgains
    · exact bears_putCircuit hid hgains
    · exact (bears_drop .orphaned s).of_le (Nat.zero_le length)
    · exact (bears_putCircuit hid hgains).trans (bears_drop .duplicate _)
    · exact (bears_putCircuit hid hgains).trans (handles_deliver ..)
    · have hflushed := hgains.trans c'.gains_flushAcks
      split <;> rename_i hacks <;> rw [hacks] at hflushed
      · exact (bears_putCircuit hid hflushed).trans (handles_deliver ..)
      · rw [Handles, Outcome.rest, Action.load_append,
          Action.load_of_isSend fun _ ↦ Action.isSend_of_mem_sendAll]
        exact bears_putCircuit hid hflushed

/-- What can not be read is dropped. -/
theorem handles_readDatagram {datagram : Octets} {next : Packet → Outcome × Server}
    (h : ∀ p, Datagram.parse s.config.mtu datagram = .ok p → Handles s m (next p)) :
    Handles s m (s.readDatagram datagram next) := by
  rw [readDatagram]
  split
  · rename_i p hparse
    exact h p hparse
  · exact (bears_drop .malformed s).of_le (Nat.zero_le m)
  · exact (Bears.refl s 0).of_le (Nat.zero_le m)

/-- A datagram that was kept is handled like one that arrives. -/
theorem handles_replay (id : CircuitId) (datagram : Octets) (now : Instant) (s : Server) :
    Handles s datagram.length (s.replay id datagram now) :=
  handles_readDatagram fun p _ ↦ s.handles_receive id p datagram.length now

/-- What is kept for an address weighs as much as its datagrams. -/
theorem share_pending (a : Address) (s : Server) :
    s.pending.share (fun l : List Octets ↦ (l.map List.length).sum) a =
      ((s.keptFor a).map List.length).sum := by
  rw [Sharded.share, keptFor]
  cases s.pending.get? a <;> rfl

/-- What is kept for an address is replaced. -/
theorem burden_insert (hshards : 0 < s.pending.shards.length) (a : Address) (l : List Octets) :
    ({ s with pending := s.pending.insert a l } : Server).burden +
      ((s.keptFor a).map List.length).sum = s.burden + (l.map List.length).sum := by
  have htotal := Sharded.total_insert (fun l : List Octets ↦ (l.map List.length).sum) hshards a l
  rw [share_pending] at htotal
  rw [burden, burden]
  dsimp only
  omega

/-- A datagram that is kept weighs as much as it did before. -/
theorem bears_keep (hshards : 0 < s.pending.shards.length) {source : Address} {l : List Octets}
    (hl : s.pending.get? source = some l) (datagram : Octets) :
    Bears s datagram.length (s.keep source datagram l) 0 := by
  rw [keep]
  split
  · have hkept := burden_insert hshards source (l ++ [datagram])
    rw [keptFor, hl, Option.getD_some, List.map_append, List.sum_append, List.map_singleton,
      List.sum_singleton] at hkept
    exact ⟨rfl, fun hs ↦ hs, by omega⟩
  · exact (bears_drop .orphaned s).of_le (Nat.zero_le _)

/-- So does the datagram of a request. -/
theorem bears_request (hshards : 0 < s.pending.shards.length) {source : Address}
    (hnew : s.pending.get? source = none) (p : Packet) (length : Nat) :
    Bears s length (s.request source p length) 0 := by
  rw [request]
  split
  · exact (bears_drop .orphaned s).of_le (Nat.zero_le _)
  · split
    · exact (bears_drop .malformed s).of_le (Nat.zero_le _)
    · have hkept := burden_insert hshards source []
      rw [keptFor, hnew, Option.getD_none, List.map_nil, List.sum_nil, Nat.add_zero, Nat.add_zero,
        burden] at hkept
      refine ⟨rfl, fun hs ↦ hs, ?_⟩
      rw [← hkept, burden]
      simp only [List.map_append, List.sum_append, List.map_singleton, List.sum_singleton]
      omega

/-- A datagram that is decoded is passed on, or let go of. -/
theorem handles_handle (hshards : 0 < s.pending.shards.length) (source : Address) (datagram : Octets)
    (now : Instant) : Handles s datagram.length (s.handle source datagram now) := by
  refine handles_readDatagram fun p _ ↦ ?_
  split
  · exact s.handles_receive _ p datagram.length now
  · split
    · exact bears_keep hshards ‹_› datagram
    · exact bears_request hshards ‹_› p datagram.length

/-! ### Regular work -/

theorem bears_announce (id : CircuitId) (s : Server) : Bears s 0 (s.announce id) 0 := by
  rw [announce]
  split
  · exact .refl s 0
  · rename_i c hid
    exact (bears_putCircuit hid (c.gains_transition ..)).trans (bears_aside rfl rfl rfl rfl rfl)

theorem bears_notify (id : CircuitId) (lanes : List Lane) (now : Instant) (s : Server) :
    Bears s 0 (s.notify id lanes now) 0 := by
  rw [notify]
  split
  · exact .refl s 0
  · rename_i c hid
    have hgains := c.gains_beginQueueEmpty now
    split
    · exact .refl s 0
    · rename_i c' hbegun
      rw [hbegun] at hgains
      split
      · exact (bears_putCircuit hid hgains).trans (bears_aside rfl rfl rfl rfl rfl)
      · exact (bears_putCircuit hid (hgains.trans c'.gains_endQueueEmpty)).trans (bears_count ..)

theorem bears_unacknowledged (id : CircuitId) (agent : Uuid) (l : List Outgoing) (s : Server) :
    Bears s 0 (l.foldl (fun s p ↦ s.record (.unacknowledged id agent p)) s) 0 := by
  induction l generalizing s with
  | nil => exact .refl s 0
  | cons p l ih => exact (bears_record _ s).trans (ih _)

/-- What a tick put out is taken in at no cost. -/
theorem bears_takeIn {t : Turn} (hid : s.circuit? id = some c) (h : c.Gains 0 t.circuit)
    (now : Instant) : Bears s 0 (s.takeIn id t now) 0 := by
  have hput : Bears s 0 { s.putCircuit id t.circuit with forest := t.forest } 0 :=
    (bears_putCircuit hid h).trans (bears_aside rfl rfl rfl rfl rfl)
  have htold := (hput.trans
    (bears_unacknowledged id t.circuit.agent t.output.unacknowledged _)).trans
    (bears_count (fun c ↦ (c.countResent t.output.resent).countDroppedUnacked t.output.droppedUnacked) _)
  have hstalled : ∀ s₁ : Server, Bears s₁ 0
      (if t.output.stalled then s₁.count Counters.countAckStall else s₁) 0 := by
    intro s₁
    split
    · exact bears_count ..
    · exact .refl s₁ 0
  rw [takeIn]
  dsimp only
  split
  · exact htold.trans (hstalled _)
  · exact (htold.trans (hstalled _)).trans (bears_notify ..)

/-- A visit of a circuit adds nothing, even if a fault ends it. -/
theorem handles_serve (id : CircuitId) (time : Instant) (s : Server) :
    Handles s 0 (s.serve id time) := by
  rw [Handles, Action.load_of_isSend fun _ ↦ isSend_of_serve, serve]
  split
  · exact .refl s 0
  · rename_i c hid
    split
    · exact bears_aside rfl rfl rfl rfl rfl
    · split
      · rename_i htick
        have hput := bears_putCircuit hid (Circuit.gains_tick_error htick)
        exact hput.trans (bears_aside rfl rfl rfl rfl rfl)
      · rename_i t htick
        dsimp only
        split <;> exact bears_takeIn hid (Circuit.gains_tick htick) time

/-! ### Tasks -/

/-- **An action** adds nothing to the burden. -/
theorem handles_perform (hshards : 0 < s.pending.shards.length) (a : Action) (now : Instant) :
    Handles s a.octets (s.perform now a) := by
  cases a with
  | transmit target datagram => exact bears_record _ s
  | countSent n => exact bears_count _ s
  | announce id => exact s.bears_announce id
  | deliver id p => exact s.handles_deliver id p now
  | replay id datagram => exact s.handles_replay id datagram now
  | handle source datagram => exact handles_handle hshards source datagram now
  | serve id time => exact s.handles_serve id time

/-- **A part of a task** adds nothing to the burden. -/
theorem handles_advance {mtu : Nat} (hs : Regular mtu s) (l : List Action) (now : Instant) :
    Handles s (Action.load l) (s.advance now l) := by
  induction l generalizing s with
  | nil => exact .refl s 0
  | cons a l ih =>
    have hfirst : Bears s (a.octets + Action.load l) _ _ :=
      (handles_perform hs.waiting.shards a now).frame (Action.load l)
    obtain ⟨k, hwork, -⟩ := accounts_perform now a s
    rw [advance]
    split <;> rename_i heq <;> rw [heq] at hfirst hwork
    · simp only [Outcome.rest, Action.load_nil, Nat.zero_add] at hfirst
      exact hfirst.trans (ih (hs.chain (chain_of_work hwork)))
    · rw [Handles, Outcome.rest, Action.load_append]
      exact hfirst
    · refine ⟨hfirst.config, hfirst.suited, Nat.le_trans ?_ hfirst.burden⟩
      exact Nat.add_le_add_left (Nat.zero_le _) _

/-! ### Requests -/

/-- What was kept for an address is taken out. -/
theorem burden_remove (hdistinct : s.pending.Distinct) (hshards : 0 < s.pending.shards.length)
    (a : Address) : ({ s with pending := (s.pending.remove a).2 } : Server).burden +
      ((s.keptFor a).map List.length).sum = s.burden := by
  have htotal := hdistinct.total_remove (fun l : List Octets ↦ (l.map List.length).sum) hshards a
  rw [share_pending] at htotal
  rw [burden, burden]
  dsimp only
  omega

/-- The datagram of a request that is decided is free to be taken in. -/
theorem bears_decided {position : Nat} {h : Handshake} (hposition : s.authorizing[position]? = some h) :
    Bears s 0 (s.decided position) h.length := by
  obtain ⟨hlt, rfl⟩ := List.getElem?_eq_some_iff.1 hposition
  have hsum := ((List.getElem_cons_eraseIdx_perm hlt).map Handshake.length).sum_eq
  rw [List.map_cons, List.sum_cons] at hsum
  refine ⟨rfl, fun hs ↦ hs, ?_⟩
  rw [burden, burden, decided]
  dsimp only
  omega

/-- What was kept for a circuit is to be replayed to it. -/
theorem bears_install (hdistinct : s.pending.Distinct) (hshards : 0 < s.pending.shards.length)
    (address : Address) (forest : Forest)
    (hconfig : c.config = s.config) (hlimit : c.allowance.limit = s.config.circuitRate)
    (hbytes : c.tracker.ackBytes = 0) :
    Bears s 0 (s.install address c forest).2 ((s.keptFor address).map List.length).sum := by
  have hentered : Bears s 0 (s.entered address c forest) ((s.keptFor address).map List.length).sum := by
    refine ⟨rfl, fun hsuited d hd ↦ ?_, ?_⟩
    · rcases List.mem_append.1 hd with hd | hd
      · exact hsuited d hd
      · rw [List.mem_singleton.1 hd]
        exact ⟨hconfig, hlimit⟩
    · rw [← burden_remove hdistinct hshards address, burden, burden, entered]
      simp only [List.map_append, List.sum_append, List.map_singleton, List.sum_singleton, hbytes]
      omega
  exact hentered.beside (bears_supersede (s.table.insert address c.agent s.circuits.length).1 _)

/-- What is left to be done for a circuit that was set up. -/
def setupLoad (o : Except Fault (List Octets × List Action)) : Nat :=
  match o with
  | .ok (_, rest) => Action.load rest
  | .error _ => 0

/-- The request of a circuit is taken in as its first datagram. -/
theorem bears_establish (hdistinct : s.pending.Distinct) (hshards : 0 < s.pending.shards.length)
    (h : Handshake) (session : Session) (now : Instant) :
    Bears s h.length (s.establish h session now).2 (setupLoad (s.establish h session now).1) := by
  cases hopened : Circuit.opened session h.address s.config s.root now s.forest with
  | error e =>
    rw [establish, hopened]
    have haside : Bears s 0 { s with forest := e.2 } 0 := bears_aside rfl rfl rfl rfl rfl
    exact haside.of_le (Nat.zero_le _)
  | ok opened =>
    obtain ⟨c, forest⟩ := opened
    obtain ⟨-, -, -, rates, hallowance⟩ := Circuit.exists_of_opened hopened
    have hfresh := Circuit.fresh_of_opened hopened
    have hinstalled := bears_install hdistinct hshards h.address forest hfresh.config_eq
      (Allowance.limit_of_opened hallowance) hfresh.ackBytes
    have hself := circuit?_install_self h.address c forest s
    have hgains := c.gains_receive h.packet h.length now
    cases hreceive : (c.receive h.packet h.length now).1 with
    | error fault =>
      rw [establish_of_fault hopened hreceive]
      have hall := hinstalled.beside (bears_putCircuit hself hgains)
      rw [Nat.zero_add] at hall
      exact ⟨hall.config, hall.suited, Nat.le_trans (Nat.le_add_right ..) hall.burden⟩
    | ok disposition =>
      rw [establish_of_opened hopened hreceive]
      have hflushed := hgains.trans (c.receive h.packet h.length now).2.gains_flushAcks
      have hall := hinstalled.beside (bears_putCircuit hself hflushed)
      rw [Nat.zero_add, ← Action.load_replays s.circuits.length, ← Nat.zero_add (Action.load _)] at hall
      exact hall

/-- A request that is denied lets go of all that was kept for it. -/
theorem bears_deny (hdistinct : s.pending.Distinct) (hshards : 0 < s.pending.shards.length)
    (h : Handshake) : Bears s 0 (s.deny h) 0 := by
  have hremoved := burden_remove hdistinct hshards h.address
  have haside : Bears s 0 { s with pending := (s.pending.remove h.address).2 } 0 :=
    ⟨rfl, fun hs ↦ hs, by omega⟩
  exact haside.trans (bears_count ..)

/-- A request is decided, and its circuit set up if it is granted. -/
theorem handles_conclude {mtu position : Nat} {h : Handshake} (hs : Regular mtu s)
    (hposition : s.authorizing[position]? = some h) (result : Authorization) (now : Instant) :
    Handles s 0 ((s.decided position).conclude h result now) := by
  have hdecided := bears_decided hposition
  cases result with
  | denied =>
    have hdenied := bears_deny (s := s.decided position) hs.distinct hs.waiting.shards h
    exact hdecided.trans (hdenied.of_le (Nat.zero_le _))
  | granted session =>
    have hestablished := hdecided.trans
      (bears_establish (s := s.decided position) hs.distinct hs.waiting.shards h session now)
    obtain ⟨k, hchain, -⟩ := changesQuietly_establish hposition session now
    rw [conclude]
    split <;> rename_i heq <;> rw [heq] at hestablished hchain
    · exact hestablished
    · exact hestablished.trans (handles_advance (hs.chain hchain) _ now)
    · rw [Handles, Outcome.rest, Action.load_append,
        Action.load_of_isSend fun _ ↦ Action.isSend_of_mem_sendAll, Nat.zero_add]
      exact hestablished

/-! ### What the application and the workers do -/

/-- **Only an arrival adds to the burden,** by what of the datagram is read. -/
theorem bears_arrive (source : Address) (datagram : Octets) (s : Server) :
    Bears s (min receiveLimit datagram.length) (s.arrive source datagram) 0 := by
  have hcounted := bears_count Counters.countReceived s
  rw [arrive]
  split
  · refine ⟨rfl, fun hs ↦ hs, ?_⟩
    rw [burden, burden, List.map_append, List.sum_append, List.map_singleton, List.sum_singleton,
      List.length_take]
    dsimp only [count]
    omega
  · exact hcounted.of_le (Nat.zero_le _)

/-- Nothing that is sent is a burden. -/
theorem bears_send (agent : Uuid) (category : Category) (m : Message) (reliable notify : Bool)
    (s : Server) : Bears s 0 ((s.send agent category m reliable notify).toOption.getD s) 0 := by
  rw [send]
  split
  · exact .refl s 0
  · rename_i id c hof
    cases hsend : c.send category m reliable notify with
    | error e => exact .refl s 0
    | ok c' => exact bears_putCircuit (circuit?_of_ofAgent? hof) (Circuit.gains_send hsend)

/-- Closing adds nothing, whoever asks for it. -/
theorem bears_close (agent : Uuid) (reason : CloseReason) (s : Server) :
    Bears s 0 (s.close agent reason).2 0 := by
  rw [close]
  split
  · exact .refl s 0
  · exact bears_closeCircuit ..

/-- Nor does pausing or resuming. -/
theorem bears_changePhase {change : Circuit → Bool × Circuit}
    (h : ∀ c, Circuit.Gains 0 c (change c).2) (agent : Uuid) (s : Server) :
    Bears s 0 (s.changePhase agent change).2 0 := by
  rw [changePhase]
  split
  · exact .refl s 0
  · exact bears_putCircuit (circuit?_of_ofAgent? ‹_›) (h _)

theorem bears_closeSilentAt (position : Nat) (s : Server) : Bears s 0 (s.closeSilentAt position) 0 := by
  rw [closeSilentAt]
  split
  · exact .refl s 0
  · have haside : Bears s 0 { s with closing := s.closing.eraseIdx position } 0 :=
      bears_aside rfl rfl rfl rfl rfl
    exact haside.trans (bears_closeCircuit ..)

theorem bears_endNotice (notice : Notice) (s : Server) : Bears s 0 (s.endNotice notice) 0 := by
  have haside : Bears s 0 { s with notices := s.notices.release } 0 := bears_aside rfl rfl rfl rfl rfl
  rw [endNotice]
  split
  · exact haside
  · rename_i c hid
    exact haside.trans (bears_putCircuit hid c.gains_endQueueEmpty)

theorem bears_beginNotice {notice : Option Notice} (h : s.beginNotice now = some (notice, s')) :
    Bears s 0 s' 0 := by
  rw [beginNotice] at h
  split at h
  · cases h
  · split at h
    · obtain ⟨-, rfl⟩ := Prod.mk.inj (Option.some.inj h)
      exact bears_aside rfl rfl rfl rfl rfl
    · rename_i c hid
      split at h <;> obtain ⟨-, rfl⟩ := Prod.mk.inj (Option.some.inj h)
      · exact (bears_putCircuit hid c.gains_endQueueEmpty).trans (bears_aside rfl rfl rfl rfl rfl)
      · exact bears_aside rfl rfl rfl rfl rfl

end Server

/-- The octets that a step takes from the socket. -/
def Step.octets : Step → Nat
  | .arrive _ datagram => min Server.receiveLimit datagram.length
  | _ => 0

namespace RunningServer

open Server

variable {mtu : Nat} {r : RunningServer} {now : Instant} {e : Step} {l before rest : List Action}
  {others : List (List Action)} {s : Server}

/-! ### Steps -/

/-- A task that is taken from the others takes its load with it. -/
theorem Splits.load_flatten {tasks : List (List Action)} (h : Splits tasks l others) :
    Action.load tasks.flatten = Action.load l + Action.load others.flatten := by
  rw [← Action.load_append]
  exact (h.flatten_perm.map Action.octets).sum_eq

/-- A step adds no more to the burden than what it takes from the socket. -/
def BearsStep (now : Instant) (e : Step) (r : RunningServer) : Prop :=
  Bears r.server (e.octets + Action.load r.tasks.flatten) (r.step now e).server
    (Action.load (r.step now e).tasks.flatten)

/-- Where no task goes on. -/
theorem bearsStep_of_same (h : Bears r.server e.octets (r.step now e).server 0)
    (htasks : (r.step now e).tasks = r.tasks) : r.BearsStep now e := by
  have hall := h.frame (Action.load r.tasks.flatten)
  rw [Nat.zero_add] at hall
  rw [BearsStep, htasks]
  exact hall

/-- Where a task goes on or begins. -/
theorem bearsStep_of_task (he : e.octets = 0) (hbefore : Splits r.tasks before others)
    (hafter : Splits (r.step now e).tasks rest others)
    (h : Bears r.server (Action.load before) (r.step now e).server (Action.load rest)) :
    r.BearsStep now e := by
  rw [BearsStep, hbefore.load_flatten, hafter.load_flatten, he, Nat.zero_add]
  exact h.frame _

/-- The next datagram is taken to be decoded. -/
theorem bears_taken {source : Address} {datagram : Octets} {inbox : List (Address × Octets)}
    (hinbox : s.inbox = (source, datagram) :: inbox) :
    Bears s 0 { s with inbox } datagram.length := by
  refine ⟨rfl, fun hs ↦ hs, ?_⟩
  rw [burden, burden, hinbox, List.map_cons, List.sum_cons]
  dsimp only
  omega

/-- Visits of circuits are no load. -/
theorem load_roundOf (order : List CircuitId) (now : Instant) (s : Server) :
    Action.load (s.roundOf order now) = 0 := by
  refine Action.load_eq_zero fun a ha ↦ ?_
  obtain ⟨id, -, rfl⟩ := List.mem_map.1 ha
  rfl

/-- Where a task goes on. -/
theorem bearsStep_of_goesOn (hr : Regular mtu r.server) (he : goesOn e = true) (now : Instant) :
    r.BearsStep now e := by
  have hoctets : e.octets = 0 := by cases e <;> first | rfl | cases he
  cases conduct_of_goesOn he now r with
  | idle hserver htasks =>
    refine bearsStep_of_same ?_ htasks
    rw [hserver, hoctets]
    exact .refl _ 0
  | go hengaged hpart hserver hbefore hafter =>
    refine bearsStep_of_task hoctets hbefore hafter ?_
    rw [hserver]
    cases hengaged with
    | @decode source datagram inbox hloop hinbox =>
      exact (bears_taken hinbox).trans (handles_advance (regular_taken hr inbox)
        [.handle source datagram] now)
    | round order =>
      have hround := handles_advance hr (r.server.roundOf order now) now
      rw [load_roundOf] at hround
      exact hround
    | resume => exact handles_advance hr _ now

/-- Where a request is decided. -/
theorem bearsStep_authorize (hr : Regular mtu r.server) (position : Nat) (result : Authorization)
    (now : Instant) : r.BearsStep now (.authorize position result) := by
  cases hposition : r.server.authorizing[position]? with
  | none =>
    have hstep := step_authorize_of_none hposition result now
    exact bearsStep_of_same (hstep.symm ▸ .refl _ 0) (congrArg tasks hstep)
  | some h =>
    have hstep := step_authorize_of_some hposition result now
    refine bearsStep_of_task rfl (.inr ⟨rfl, List.Perm.refl _⟩) (hstep ▸ tasks_settled ..) ?_
    rw [hstep, server_settled]
    exact handles_conclude hr hposition result now

/-- A step that is done at once adds the octets of what arrives in it, if anything does. -/
theorem Incident.bears {s' : Server} (h : Incident now s e s') : Bears s e.octets s' 0 := by
  have hnone : Bears s 0 s' 0 → Bears s e.octets s' 0 := fun h ↦ h.of_le (Nat.zero_le _)
  cases h with
  | nothing => exact hnone (.refl s 0)
  | arrive => exact bears_arrive ..
  | closeSilent => exact bears_closeSilentAt ..
  | beginNotice h => exact bears_beginNotice h
  | endNotice => exact bears_endNotice ..
  | send => exact bears_send ..
  | close => exact bears_close ..
  | pause | resume => exact bears_changePhase (Circuit.gains_transition _ _) ..
  | stopWorkers | shutdown => exact bears_aside rfl rfl rfl rfl rfl

/-- Where a step is done at once. -/
theorem bearsStep_of_atOnce (he : atOnce e = true) (now : Instant) (r : RunningServer) :
    r.BearsStep now e := by
  obtain ⟨hincident, htasks, -⟩ := incident_of_atOnce he now r
  exact bearsStep_of_same hincident.bears htasks

/-- **Only what is taken from the socket** adds to the burden. -/
theorem bears_step (hr : Regular mtu r.server) (now : Instant) (e : Step) : r.BearsStep now e := by
  cases e with
  | authorize position result => exact bearsStep_authorize hr position result now
  | decode | resumeDecoding | resumeSetup | beginRound | resumeRound =>
    exact bearsStep_of_goesOn hr rfl now
  | _ => exact bearsStep_of_atOnce rfl now r

/-- The octets that are taken from the socket in a history. -/
def received (history : List (Instant × Step)) : Nat :=
  (history.map fun x ↦ x.2.octets).sum

/-- **A server never has more on its hands** than what it took from the socket. -/
theorem bears_run (hr : Regular mtu r.server) (history : List (Instant × Step)) :
    Bears r.server (received history + Action.load r.tasks.flatten) (r.run history).server
      (Action.load (r.run history).tasks.flatten) := by
  induction history generalizing r with
  | nil =>
    rw [received, List.map_nil, List.sum_nil, Nat.zero_add]
    exact .refl _ _
  | cons e history ih =>
    obtain ⟨now, e⟩ := e
    obtain ⟨k, hchain⟩ := chain_of_step now e r
    have hstep := (bears_step hr now e).frame (received history)
    rw [Nat.add_comm (Action.load _)] at hstep
    have hall := hstep.trans (ih (hr.chain hchain))
    rw [received, List.map_cons, List.sum_cons, Nat.add_right_comm]
    exact hall

end RunningServer

end DatagramCircuits
