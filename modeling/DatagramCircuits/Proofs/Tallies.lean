import DatagramCircuits.Proofs.Accounting
import DatagramCircuits.Proofs.Handouts
import Mathlib.Data.UInt
/-!
# Datagrams sent, as they are counted

Datagrams are counted twice, by the circuits that they come from and by the server that gives them to the
socket, and the two do not come to the same: **answers to pings are counted by the server only.** The
circuits of a server taken together count all other datagrams (`RunningServer.Tallied.circuits`). The
server counts all that it gives to the socket, though not before all of a group is given
(`RunningServer.Tallied.server`).

The invariant is that counters and datagrams grow together. `Server.excess` and `Server.circuitExcess` say
how much more is counted than there is, with what tasks still have to do taken as done; no function of a
server changes either of them (`Server.Tallies`). **A fault ends a task,** and what it still had to do is
lost with it; but a task that can fail has nothing to send or to count any more (`Server.minds_advance`).
-/

namespace DatagramCircuits

namespace Server

variable {s s' s'' : Server} {l l' l'' k : List Action} {ds : List Octets} {id : CircuitId}
  {c c' : Circuit} {now : Instant}

/-- The datagrams that were given to the socket, and those that a task is about to give to it. -/
def dispatched (s : Server) (l : List Action) : List Octets :=
  s.effects.filterMap Effect.datagram? ++ l.filterMap Action.datagram?

/-- How many more datagrams the server counted, or is about to count, than there are. -/
def excess (s : Server) (l : List Action) : UInt64 :=
  s.counters.sent + UInt64.ofNat (Action.owed l) - UInt64.ofNat (s.dispatched l).length

/-- How many more datagrams the circuits counted than there are that answer no ping. -/
def circuitExcess (s : Server) (l : List Action) : UInt64 :=
  (s.circuits.map Circuit.sent).sum -
    UInt64.ofNat ((s.dispatched l).countP (!Datagram.isPong s.config.mtu ·))

/-- All circuits did what circuits do since they were opened. -/
def Lively (s : Server) : Prop :=
  ∀ c ∈ s.circuits, c.Seasoned s.config

/-- From one state of the server to another one, what is counted grows with the datagrams, taken together
with what a task has to do: `l` before and `l'` behind. -/
structure Tallies (s : Server) (l : List Action) (s' : Server) (l' : List Action) : Prop where
  config : s'.config = s.config
  lively : s.Lively → s'.Lively
  server : s'.excess l' = s.excess l
  circuits : s.Lively → s'.circuitExcess l' = s.circuitExcess l

/-- More that is to be done adds its own excess. -/
theorem excess_append (s : Server) (l k : List Action) : s.excess (l ++ k) = s.excess l +
    (UInt64.ofNat (Action.owed k) - UInt64.ofNat (k.filterMap Action.datagram?).length) := by
  simp only [excess, dispatched, Action.owed_append, List.filterMap_append, List.length_append,
    UInt64.ofNat_add]
  grind

/-- More that is to be done adds its own datagrams to those that circuits have to have counted. -/
theorem circuitExcess_append (s : Server) (l k : List Action) : s.circuitExcess (l ++ k) =
    s.circuitExcess l -
      UInt64.ofNat ((k.filterMap Action.datagram?).countP (!Datagram.isPong s.config.mtu ·)) := by
  simp only [circuitExcess, dispatched, List.filterMap_append, List.countP_append, UInt64.ofNat_add]
  grind

/-- The order of what is to be done is of no importance here. -/
theorem excess_perm (h : l.Perm l') (s : Server) : s.excess l = s.excess l' := by
  have howed : Action.owed l = Action.owed l' := (h.map Action.amount).sum_eq
  have hlength : (s.dispatched l).length = (s.dispatched l').length :=
    ((h.filterMap Action.datagram?).append_left _).length_eq
  rw [excess, excess, howed, hlength]

/-- Nor is it to what circuits have counted. -/
theorem circuitExcess_perm (h : l.Perm l') (s : Server) : s.circuitExcess l = s.circuitExcess l' := by
  have hcount := ((h.filterMap Action.datagram?).append_left
    (s.effects.filterMap Effect.datagram?)).countP_eq (!Datagram.isPong s.config.mtu ·)
  rw [circuitExcess, circuitExcess, dispatched, dispatched, hcount]

theorem Tallies.refl (s : Server) (l : List Action) : Tallies s l s l :=
  ⟨rfl, fun h ↦ h, rfl, fun _ ↦ rfl⟩

/-- Counters and datagrams grow together in two parts. -/
theorem Tallies.trans (h : Tallies s l s' l') (h' : Tallies s' l' s'' l'') : Tallies s l s'' l'' where
  config := h'.config.trans h.config
  lively := h'.lively ∘ h.lively
  server := h'.server.trans h.server
  circuits hs := (h'.circuits (h.lively hs)).trans (h.circuits hs)

/-- Something else is to be done as well. -/
theorem Tallies.frame (h : Tallies s l s' l') (k : List Action) : Tallies s (l ++ k) s' (l' ++ k) where
  config := h.config
  lively := h.lively
  server := by rw [excess_append, excess_append, h.server]
  circuits hs := by rw [circuitExcess_append, circuitExcess_append, h.circuits hs, h.config]

/-- What is to be done may be gone through in any order. -/
theorem Tallies.perm {k' : List Action} (h : Tallies s l s' l') (hl : l.Perm k) (hl' : l'.Perm k') :
    Tallies s k s' k' where
  config := h.config
  lively := h.lively
  server := by rw [← excess_perm hl, ← excess_perm hl', h.server]
  circuits hs := by rw [← circuitExcess_perm hl, ← circuitExcess_perm hl', h.circuits hs]

/-- What has nothing to do with datagrams and circuits. -/
theorem tallies_aside (hconfig : s'.config = s.config) (hcircuits : s'.circuits = s.circuits)
    (hsent : s'.counters.sent = s.counters.sent)
    (heffects : s'.effects.filterMap Effect.datagram? = s.effects.filterMap Effect.datagram?) :
    Tallies s l s' l := by
  refine ⟨hconfig, fun hs ↦ ?_, ?_, fun _ ↦ ?_⟩
  · rw [Lively, hcircuits, hconfig]
    exact hs
  · rw [excess, excess, dispatched, dispatched, hsent, heffects]
  · rw [circuitExcess, circuitExcess, dispatched, dispatched, hcircuits, hconfig, heffects]

/-- An effect that gives nothing to the socket leaves the tallies alone. -/
theorem tallies_record {e : Effect} (he : e.datagram? = none) (s : Server) :
    Tallies s l (s.record e) l := by
  refine tallies_aside rfl rfl rfl ?_
  rw [record, List.filterMap_append, List.filterMap_cons_none he]
  exact List.append_nil _

/-- So does any other counter. -/
theorem tallies_count (change : Counters → Counters) (hsent : ∀ c, (change c).sent = c.sent)
    (s : Server) : Tallies s l (s.count change) l :=
  tallies_aside rfl rfl (hsent _) rfl

theorem tallies_drop (cause : DropCause) (s : Server) : Tallies s l (s.drop cause) l :=
  tallies_count (·.countDropped cause) (fun c ↦ by cases cause <;> rfl) s

/-! ### Circuits of a server -/

/-- **What a circuit hands out** is to be given to the socket, and counted. -/
theorem tallies_putCircuit (hid : s.circuit? id = some c) (h : c.Hands ds c')
    (hl : Action.Gives ds l) : Tallies s [] (s.putCircuit id c') l := by
  obtain ⟨hlt, rfl⟩ := List.getElem?_eq_some_iff.1 hid
  have hmem := List.getElem_mem hlt
  refine ⟨rfl, fun hs d hd ↦ ?_, ?_, fun hs ↦ ?_⟩
  · rcases List.mem_or_eq_of_mem_set hd with hd | rfl
    · exact hs d hd
    · exact h.seasoned (hs _ hmem)
  · have hl' := s.excess_append [] l
    rw [List.nil_append, hl.datagrams, hl.owed] at hl'
    have hsame : (s.putCircuit id c').excess l = s.excess l := rfl
    rw [hsame, hl']
    grind
  · have hcount : ds.countP (!Datagram.isPong s.config.mtu ·) = ds.length := by
      refine List.countP_eq_length.2 fun d hd ↦ ?_
      rw [h.silent (hs _ hmem) d hd]
      rfl
    have hsum := Sharded.sum_map_set Circuit.sent hlt c'
    rw [h.sent, add_left_comm, add_comm] at hsum
    have hl' := circuitExcess_append (s.putCircuit id c') [] l
    rw [List.nil_append, hl.datagrams] at hl'
    rw [hl']
    simp only [circuitExcess, dispatched, putCircuit, hcount, add_left_cancel hsum]
    grind

/-- A circuit that hands out nothing is put back. -/
theorem tallies_put (hid : s.circuit? id = some c) (h : c.Hands [] c') :
    Tallies s [] (s.putCircuit id c') [] :=
  tallies_putCircuit hid h Action.gives_nothing

/-- Closing a circuit sends nothing. -/
theorem tallies_closeCircuit (id : CircuitId) (reason : CloseReason) (s : Server) :
    Tallies s [] (s.closeCircuit id reason).2 [] := by
  cases hid : s.circuit? id with
  | none =>
    rw [closeCircuit_of_none reason hid]
    exact .refl s []
  | some c =>
    cases hclosed : c.isClosed with
    | true =>
      rw [closeCircuit_of_closed reason hid hclosed]
      exact .refl s []
    | false =>
      rw [closeCircuit_of_open reason hid hclosed]
      have hput := tallies_put hid (c.hands_ended hclosed)
      have haside : Tallies (s.putCircuit id c.ended) [] ({ s.putCircuit id c.ended with
          forest := c.allowance.detach s.forest
          table := s.table.remove c.address c.agent id }.count Counters.countClosed) [] :=
        tallies_aside rfl rfl rfl rfl
      exact (hput.trans haside).trans (tallies_record rfl _)

/-- Nor does closing several. -/
theorem tallies_supersede (ids : List CircuitId) (s : Server) :
    Tallies s [] (s.supersede ids) [] := by
  induction ids generalizing s with
  | nil => exact .refl s []
  | cons id ids ih => exact (tallies_closeCircuit id .superseded s).trans (ih _)

/-- Operations in which nothing is handed out. -/
theorem tallies_apply {o : Circuit.Operation} {answer : Circuit.Answer} {f f' : Forest}
    (hid : s.circuit? id = some c) (ho : c.apply o f = .ok (answer, c', f'))
    (hP : o.QueuesOnly fun _ ↦ True) (hnone : answer.counted = []) :
    Tallies s [] (s.putCircuit id c') [] :=
  tallies_put hid (hnone ▸ Circuit.hands_of_apply hP ho)

/-! ### Messages -/

/-- **The answer to a ping** is to be given to the socket and counted by the server, and the circuit does
not count it. -/
theorem tallies_answerPing {ping : UInt8} {d : Octets} {target : Address}
    (hid : s.circuit? id = some c) (hd : c.answerPing ping = .ok d) :
    Tallies s [] s (Action.sendAll target [d]) := by
  have hgives := Action.gives_sendAll target [d]
  refine ⟨rfl, fun hs ↦ hs, ?_, fun hs ↦ ?_⟩
  · have hl := s.excess_append [] (Action.sendAll target [d])
    rw [List.nil_append, hgives.datagrams, hgives.owed] at hl
    rw [hl]
    grind
  · obtain ⟨k, hcoursed⟩ := hs c (List.mem_of_getElem? hid)
    have hpong : Datagram.isPong s.config.mtu d = true := by
      have hsignal : Circuit.signal c.config.mtu (.pong ping) = .ok d := hd
      rw [hcoursed.books.config_eq] at hsignal
      exact Circuit.isPong_of_signal hsignal
    have hl := s.circuitExcess_append [] (Action.sendAll target [d])
    rw [List.nil_append, hgives.datagrams, List.countP_cons, hpong] at hl
    rw [hl]
    exact sub_zero _

/-- A message of the protocol sends nothing but the answer to a ping, which the server counts. -/
theorem tallies_control (hid : s.circuit? id = some c) (m : Control) (now : Instant) :
    Tallies s [] (s.control id c m now).2 (s.control id c m now).1.rest := by
  cases m with
  | acks sequences => exact tallies_apply (o := .acknowledge sequences now) (f := {}) hid rfl trivial rfl
  | pong ping => exact tallies_apply (o := .takePong ping now) (f := {}) hid rfl trivial rfl
  | ping ping =>
    rw [control]
    split
    · exact tallies_answerPing hid ‹_›
    · exact .refl s []
  | throttle rates =>
    rw [control]
    split
    · rename_i adjustment forest _
      have haside : Tallies s [] { s with forest } [] := tallies_aside rfl rfl rfl rfl
      exact haside.trans (tallies_record rfl _)
    · exact .refl s []
  | close => exact tallies_closeCircuit ..
  | setup => exact .refl s []

/-- The delivery of a packet sends nothing else. -/
theorem tallies_deliver (id : CircuitId) (p : Packet) (now : Instant) (s : Server) :
    Tallies s [] (s.deliver id p now).2 (s.deliver id p now).1.rest := by
  rw [deliver]
  split
  · exact .refl s []
  · rename_i c hid
    split
    · exact tallies_drop .malformed s
    · rename_i m rest hread
      exact tallies_control hid m now
    · exact tallies_record rfl s

/-! ### Datagrams -/

/-- What is left of an action, and the server with it. -/
structure Minds (s : Server) (l : List Action) (o : Outcome × Server) : Prop where
  tallies : Tallies s l o.2 o.1.rest
  sendsFirst : Action.SendsFirst o.1.rest

/-- What is left after a delivery is sending. -/
theorem isSend_of_deliver {p : Packet} {a : Action} (ha : a ∈ (s.deliver id p now).1.rest) :
    a.isSend = true := by
  rw [deliver] at ha
  split at ha
  · cases ha
  · split at ha
    · cases ha
    · exact isSend_of_control ha
    · cases ha

/-- The delivery of a packet keeps the tallies, and leaves sending first. -/
theorem minds_deliver (id : CircuitId) (p : Packet) (now : Instant) (s : Server) :
    Minds s [] (s.deliver id p now) :=
  ⟨tallies_deliver id p now s, Action.sendsFirst_of_isSend fun _ ↦ isSend_of_deliver⟩

/-- What is done first may change the server. -/
theorem Minds.after {o : Outcome × Server} (h : Tallies s l s' l') (h' : Minds s' l' o) : Minds s l o :=
  ⟨h.trans h'.tallies, h'.sendsFirst⟩

/-- Where nothing is left to be done. -/
theorem minds_done (h : Tallies s l s' []) {o : Outcome} (ho : o.rest = []) : Minds s l (o, s') where
  tallies := by
    rw [ho]
    exact h
  sendsFirst := by
    rw [ho]
    exact List.Pairwise.nil

/-- A datagram that a circuit takes in keeps the tallies in step with the answers. -/
theorem minds_receive (id : CircuitId) (p : Packet) (length : Nat) (now : Instant) (s : Server) :
    Minds s [] (s.receive id p length now) := by
  rw [receive]
  split
  · exact minds_done (.refl s []) rfl
  · rename_i c hid
    have hhands := c.hands_receive p length now
    split <;> rename_i c' hreceive <;> rw [hreceive] at hhands
    · exact minds_done (tallies_put hid hhands) rfl
    · exact minds_done (tallies_drop .orphaned s) rfl
    · exact minds_done ((tallies_put hid hhands).trans (tallies_drop .duplicate _)) rfl
    · exact (minds_deliver ..).after (tallies_put hid hhands)
    · have hflushed := hhands.trans c'.hands_flushAcks
      split <;> rename_i hacks <;> rw [hacks] at hflushed
      · exact (minds_deliver ..).after (tallies_put hid hflushed)
      · have hnone : ∀ a ∈ [Action.deliver id p], a.isSend = false := by
          intro a ha
          rw [List.mem_singleton.1 ha]
          rfl
        exact ⟨tallies_putCircuit hid hflushed ((Action.gives_sendAll ..).append hnone),
          Action.sendsFirst_append (fun _ ↦ Action.isSend_of_mem_sendAll) hnone⟩

/-- What can not be read is dropped. -/
theorem minds_readDatagram {datagram : Octets} {next : Packet → Outcome × Server}
    (h : ∀ p, Minds s [] (next p)) : Minds s [] (s.readDatagram datagram next) := by
  rw [readDatagram]
  split
  · exact h _
  · exact minds_done (tallies_drop .malformed s) rfl
  · exact minds_done (.refl s []) rfl

/-- The replay of a datagram that was kept keeps the tallies in step. -/
theorem minds_replay (id : CircuitId) (datagram : Octets) (now : Instant) (s : Server) :
    Minds s [] (s.replay id datagram now) :=
  minds_readDatagram fun p ↦ s.minds_receive id p datagram.length now

/-- Keeping a datagram sends nothing. -/
theorem tallies_keep (source : Address) (datagram : Octets) (kept : List Octets) (s : Server) :
    Tallies s [] (s.keep source datagram kept) [] := by
  rw [keep]
  split
  · exact tallies_aside rfl rfl rfl rfl
  · exact tallies_drop .orphaned s

/-- A request sends nothing. -/
theorem tallies_request (source : Address) (p : Packet) (length : Nat) (s : Server) :
    Tallies s [] (s.request source p length) [] := by
  rw [request]
  split
  · exact tallies_drop .orphaned s
  · split
    · exact tallies_drop .malformed s
    · exact tallies_aside rfl rfl rfl rfl

/-- The decoding of a datagram keeps the tallies in step, whatever becomes of it. -/
theorem minds_handle (source : Address) (datagram : Octets) (now : Instant) (s : Server) :
    Minds s [] (s.handle source datagram now) := by
  refine minds_readDatagram fun p ↦ ?_
  split
  · exact s.minds_receive _ p datagram.length now
  · split
    · exact minds_done (tallies_keep ..) rfl
    · exact minds_done (tallies_request ..) rfl

/-! ### Regular work -/

/-- The announcement of a circuit sends nothing. -/
theorem tallies_announce (id : CircuitId) (s : Server) : Tallies s [] (s.announce id) [] := by
  rw [announce]
  split
  · exact .refl s []
  · rename_i c hid
    have hput := tallies_apply (o := .connect) (f := {}) hid rfl trivial rfl
    exact (hput.trans (tallies_count Counters.countEstablished (fun _ ↦ rfl) _)).trans
      (tallies_record rfl _)

/-- Nor does the beginning of a notice. -/
theorem tallies_notify (id : CircuitId) (lanes : List Lane) (now : Instant) (s : Server) :
    Tallies s [] (s.notify id lanes now) [] := by
  rw [notify]
  split
  · exact .refl s []
  · rename_i c hid
    have hbegin : c.Hands [] (c.beginQueueEmpty now).2 :=
      Circuit.hands_of_apply (o := .beginQueueEmpty now) (f := {}) trivial rfl
    split
    · exact .refl s []
    · rename_i c' hbegun
      rw [hbegun] at hbegin
      split
      · exact (tallies_put hid hbegin).trans (tallies_aside rfl rfl rfl rfl)
      · have hend : c'.Hands [] c'.endQueueEmpty :=
          Circuit.hands_of_apply (o := .endQueueEmpty) (f := {}) trivial rfl
        exact (tallies_put hid (hbegin.trans hend)).trans
          (tallies_count Counters.countJobRejected (fun _ ↦ rfl) _)

theorem tallies_unacknowledged (id : CircuitId) (agent : Uuid) (ps : List Outgoing) (s : Server) :
    Tallies s l (ps.foldl (fun s p ↦ s.record (.unacknowledged id agent p)) s) l := by
  induction ps generalizing s with
  | nil => exact .refl s l
  | cons p ps ih => exact (tallies_record rfl s).trans (ih _)

/-- **A tick** hands out what its output says. -/
theorem tallies_takeIn {t : Turn} (hid : s.circuit? id = some c)
    (htick : c.tick now s.forest = .ok t) (hl : Action.Gives t.output.datagrams l) :
    Tallies s [] (s.takeIn id t now) l := by
  have happly : c.apply (.tick now) s.forest = .ok (.ticked t.output, t.circuit, t.forest) :=
    bind_eq_ok_iff.2 ⟨t, mapError_eq_ok_iff.2 htick, rfl⟩
  have hput := tallies_putCircuit hid (Circuit.hands_of_apply (o := .tick now) trivial happly) hl
  have hforest : Tallies s [] { s.putCircuit id t.circuit with forest := t.forest } l :=
    hput.trans (tallies_aside rfl rfl rfl rfl)
  have htold := (hforest.trans
    (tallies_unacknowledged id t.circuit.agent t.output.unacknowledged _)).trans
    (tallies_count (fun c ↦ (c.countResent t.output.resent).countDroppedUnacked t.output.droppedUnacked)
      (fun _ ↦ rfl) _)
  have hstalled : ∀ s₁ : Server, Tallies s₁ l
      (if t.output.stalled then s₁.count Counters.countAckStall else s₁) l := by
    intro s₁
    split
    · exact tallies_count Counters.countAckStall (fun _ ↦ rfl) s₁
    · exact .refl s₁ l
  rw [takeIn]
  dsimp only
  split
  · exact htold.trans (hstalled _)
  · exact (htold.trans (hstalled _)).trans ((tallies_notify ..).frame l)

/-- A visit of a circuit puts out what the circuit counts, and nothing if a fault ends it. -/
theorem minds_serve (id : CircuitId) (time : Instant) (s : Server) : Minds s [] (s.serve id time) := by
  refine ⟨?_, Action.sendsFirst_of_isSend fun _ ↦ isSend_of_serve⟩
  rw [serve]
  split
  · exact .refl s []
  · rename_i c hid
    split
    · exact tallies_aside rfl rfl rfl rfl
    · split
      · rename_i htick
        have hput := tallies_put hid (Circuit.hands_of_tick_error htick)
        exact hput.trans (tallies_aside rfl rfl rfl rfl)
      · rename_i t htick
        dsimp only
        split
        · rename_i hempty
          have hnone := List.isEmpty_iff.1 hempty
          exact tallies_takeIn hid htick (hnone ▸ Action.gives_nothing)
        · exact tallies_takeIn hid htick (Action.gives_sendAll ..)

/-! ### Tasks of a server -/

/-- Actions that neither send nor count may come and go. -/
theorem tallies_idle (hl : Action.Gives [] l) (hk : Action.Gives [] k) (s : Server) :
    Tallies s l s k where
  config := rfl
  lively hs := hs
  server := by
    rw [excess, excess, dispatched, dispatched, hl.datagrams, hl.owed, hk.datagrams, hk.owed]
  circuits _ := by rw [circuitExcess, circuitExcess, dispatched, dispatched, hl.datagrams, hk.datagrams]

/-- **A datagram** is given to the socket. -/
theorem tallies_transmit (target : Address) (d : Octets) (s : Server) :
    Tallies s [.transmit target d] (s.record (.sent target d)) [] := by
  have hsame : (s.record (.sent target d)).dispatched [] = s.dispatched [.transmit target d] := by
    rw [dispatched, dispatched, record, List.filterMap_append]
    exact List.append_nil _
  refine ⟨rfl, fun hs ↦ hs, ?_, fun _ ↦ ?_⟩
  · rw [excess, excess, hsame]
    rfl
  · rw [circuitExcess, circuitExcess, hsame]
    rfl

/-- **A group of datagrams** is counted. -/
theorem tallies_countSent (n : Nat) (s : Server) :
    Tallies s [.countSent n] (s.count (·.countSent n)) [] := by
  refine ⟨rfl, fun hs ↦ hs, ?_, fun _ ↦ rfl⟩
  have howed : Action.owed [.countSent n] = n := rfl
  rw [excess, excess, howed]
  exact congrArg (· - _) (UInt64.add_zero _)

/-- **An action.** -/
theorem minds_perform (a : Action) (now : Instant) (s : Server) : Minds s [a] (s.perform now a) := by
  have hidle : ∀ {o : Outcome × Server}, a.isSend = false → Minds s [] o → Minds s [a] o := by
    intro o ha h
    have hnone := Action.gives_nil (List.forall_mem_singleton.2 ha)
    exact h.after (tallies_idle hnone Action.gives_nothing s)
  cases a with
  | transmit target d => exact minds_done (tallies_transmit target d s) rfl
  | countSent n => exact minds_done (tallies_countSent n s) rfl
  | announce id => exact hidle rfl (minds_done (tallies_announce id s) rfl)
  | deliver id p => exact hidle rfl (minds_deliver id p now s)
  | replay id d => exact hidle rfl (minds_replay id d now s)
  | handle source d => exact hidle rfl (minds_handle source d now s)
  | serve id time => exact hidle rfl (minds_serve id time s)

/-- Nothing follows from sending and counting, and neither can fail. -/
theorem rest_of_isSend {a : Action} (ha : a.isSend = true) (now : Instant) (s : Server) :
    (s.perform now a).1.rest = [] ∧ ∀ fault, (s.perform now a).1 ≠ .failed fault := by
  cases a <;> first | exact ⟨rfl, nofun⟩ | cases ha

/-- **A part of a task.** -/
theorem minds_advance (hl : Action.SendsFirst l) (now : Instant) (s : Server) :
    Minds s l (s.advance now l) := by
  induction l generalizing s with
  | nil => exact minds_done (.refl s []) rfl
  | cons a l ih =>
    obtain ⟨hbehind, hl⟩ := List.pairwise_cons.1 hl
    have hfirst := minds_perform a now s
    have htallies : Tallies s (a :: l) _ _ := hfirst.tallies.frame l
    have hsends := hfirst.sendsFirst
    have hrest := fun ha ↦ rest_of_isSend ha now s (a := a)
    rw [advance]
    split <;> rename_i heq <;> rw [heq] at htallies hsends hrest
    · exact (ih hl _).after htallies
    · refine ⟨htallies, ?_⟩
      cases ha : a.isSend with
      | true =>
        have hnone := (hrest ha).1
        dsimp only [Outcome.rest] at hnone
        rw [Outcome.rest, hnone]
        exact hl
      | false =>
        exact List.pairwise_append.2 ⟨hsends,
          Action.sendsFirst_of_not_isSend fun b hb ↦ hbehind b hb ha, fun _ _ b hb _ ↦ hbehind b hb ha⟩
    · have ha : a.isSend = false := Bool.eq_false_iff.2 fun ha ↦ (hrest ha).2 _ rfl
      have hnone := Action.gives_nil fun b hb ↦ hbehind b hb ha
      exact minds_done (htallies.trans (tallies_idle hnone Action.gives_nothing _)) rfl

/-! ### Requests -/

/-- A new circuit has counted nothing. -/
theorem tallies_install {session : Session} {address : Address} {f f' : Forest}
    (hopened : Circuit.opened session address s.config s.root now f = .ok (c, f')) (forest : Forest) :
    Tallies s [] (s.install address c forest).2 [] := by
  have hzero : c.sent = 0 := congrArg Prod.fst (Circuit.counters_of_opened hopened)
  have hentered : Tallies s [] (s.entered address c forest) [] := by
    refine ⟨rfl, fun hs d hd ↦ ?_, rfl, fun _ ↦ ?_⟩
    · rcases List.mem_append.1 hd with hd | hd
      · exact hs d hd
      · rw [List.mem_singleton.1 hd]
        exact ⟨[], c, Circuit.fresh_of_opened hopened, Chain.refl⟩
    · have hsum : ((s.entered address c forest).circuits.map Circuit.sent).sum =
          (s.circuits.map Circuit.sent).sum := by
        rw [entered, List.map_append, List.sum_append, List.map_singleton, List.sum_singleton, hzero]
        exact UInt64.add_zero _
      rw [circuitExcess, circuitExcess, hsum]
      rfl
  exact hentered.trans (tallies_supersede (s.table.insert address c.agent s.circuits.length).1 _)

/-- Behind the acknowledgements nothing is sent or counted. -/
theorem isSend_of_establish {h : Handshake} {session : Session} {acks : List Octets}
    (hestablish : s.establish h session now = (.ok (acks, k), s')) : ∀ a ∈ k, a.isSend = false := by
  rw [establish] at hestablish
  split at hestablish
  · cases hestablish
  · dsimp only at hestablish
    split at hestablish <;> cases hestablish
    refine List.forall_mem_cons.2 ⟨rfl, fun a ha ↦ ?_⟩
    obtain ⟨d, -, rfl⟩ := List.mem_map.1 ha
    rfl

/-- **The set-up of a circuit** hands out the acknowledgements that come first. -/
theorem tallies_establish {h : Handshake} {session : Session} {acks : List Octets}
    (hestablish : s.establish h session now = (.ok (acks, k), s')) (hl : Action.Gives acks l) :
    Tallies s [] s' l := by
  cases hopened : Circuit.opened session h.address s.config s.root now s.forest with
  | error fault =>
    rw [establish, hopened] at hestablish
    cases hestablish
  | ok opened =>
    obtain ⟨c, forest⟩ := opened
    cases hreceive : (c.receive h.packet h.length now).1 with
    | error fault =>
      rw [establish_of_fault hopened hreceive] at hestablish
      cases hestablish
    | ok disposition =>
      rw [establish_of_opened hopened hreceive] at hestablish
      cases hestablish
      have hhands := (c.hands_receive h.packet h.length now).trans
        (c.receive h.packet h.length now).2.hands_flushAcks
      exact (tallies_install hopened forest).trans
        (tallies_putCircuit (circuit?_install_self h.address c forest s) hhands hl)

/-- A circuit that can not be set up counts nothing. -/
theorem tallies_establish_of_fault {h : Handshake} {session : Session} {fault : Fault}
    (hestablish : s.establish h session now = (.error fault, s')) : Tallies s [] s' [] := by
  cases hopened : Circuit.opened session h.address s.config s.root now s.forest with
  | error fault =>
    rw [establish, hopened] at hestablish
    cases hestablish
    exact tallies_aside rfl rfl rfl rfl
  | ok opened =>
    obtain ⟨c, forest⟩ := opened
    cases hreceive : (c.receive h.packet h.length now).1 with
    | error fault =>
      rw [establish_of_fault hopened hreceive] at hestablish
      cases hestablish
      exact (tallies_install hopened forest).trans
        (tallies_put (circuit?_install_self h.address c forest s) (c.hands_receive ..))
    | ok disposition =>
      rw [establish_of_opened hopened hreceive] at hestablish
      cases hestablish

/-- **A request** is decided, and its circuit set up if it is granted. -/
theorem minds_conclude (h : Handshake) (result : Authorization) (now : Instant) (s : Server) :
    Minds s [] (s.conclude h result now) := by
  cases result with
  | denied =>
    have hremoved : Tallies s [] { s with pending := (s.pending.remove h.address).2 } [] :=
      tallies_aside rfl rfl rfl rfl
    exact minds_done (hremoved.trans (tallies_count Counters.countDenied (fun _ ↦ rfl) _)) rfl
  | granted session =>
    rw [conclude]
    split <;> rename_i hestablish
    · exact minds_done (tallies_establish_of_fault hestablish) rfl
    · have hnone := isSend_of_establish hestablish
      exact (minds_advance (Action.sendsFirst_of_not_isSend hnone) now _).after
        (tallies_establish hestablish (Action.gives_nil hnone))
    · have hnone := isSend_of_establish hestablish
      exact ⟨tallies_establish hestablish ((Action.gives_sendAll ..).append hnone),
        Action.sendsFirst_append (fun _ ↦ Action.isSend_of_mem_sendAll) hnone⟩

/-! ### What the application and the workers do -/

theorem tallies_send (agent : Uuid) (category : Category) (m : Message) (reliable notify : Bool)
    (s : Server) : Tallies s [] ((s.send agent category m reliable notify).toOption.getD s) [] := by
  rw [send]
  split
  · exact .refl s []
  · rename_i id c hof
    cases hsend : c.send category m reliable notify with
    | error e => exact .refl s []
    | ok c' =>
      have happly : c.apply (.send category m reliable notify) {} = .ok (.queued, c', {}) := by
        rw [Circuit.apply, hsend]
        rfl
      exact tallies_apply (circuit?_of_ofAgent? hof) happly trivial rfl

/-- Closing a circuit for the application sends nothing. -/
theorem tallies_close (agent : Uuid) (reason : CloseReason) (s : Server) :
    Tallies s [] (s.close agent reason).2 [] := by
  rw [close]
  split
  · exact .refl s []
  · exact tallies_closeCircuit ..

/-- Nor does pausing or resuming. -/
theorem tallies_changePhase {change : Circuit → Bool × Circuit}
    (h : ∀ c, Circuit.Hands [] c (change c).2) (agent : Uuid) (s : Server) :
    Tallies s [] (s.changePhase agent change).2 [] := by
  rw [changePhase]
  split
  · exact .refl s []
  · exact tallies_put (circuit?_of_ofAgent? ‹_›) (h _)

theorem tallies_closeSilentAt (position : Nat) (s : Server) :
    Tallies s [] (s.closeSilentAt position) [] := by
  rw [closeSilentAt]
  split
  · exact .refl s []
  · have haside : Tallies s [] { s with closing := s.closing.eraseIdx position } [] :=
      tallies_aside rfl rfl rfl rfl
    exact haside.trans (tallies_closeCircuit ..)

theorem tallies_endNotice (notice : Notice) (s : Server) : Tallies s [] (s.endNotice notice) [] := by
  have haside : Tallies s [] { s with notices := s.notices.release } [] :=
    tallies_aside rfl rfl rfl rfl
  rw [endNotice]
  split
  · exact haside
  · rename_i c hid
    exact haside.trans (tallies_apply (o := .endQueueEmpty) (f := {}) hid rfl trivial rfl)

theorem tallies_beginNotice {notice : Option Notice} (h : s.beginNotice now = some (notice, s')) :
    Tallies s [] s' [] := by
  rw [beginNotice] at h
  split at h
  · cases h
  · rename_i next notices _
    have haside : Tallies s [] { s with notices } [] := tallies_aside rfl rfl rfl rfl
    split at h
    · obtain ⟨-, rfl⟩ := Prod.mk.inj (Option.some.inj h)
      exact tallies_aside rfl rfl rfl rfl
    · rename_i c hid
      split at h <;> obtain ⟨-, rfl⟩ := Prod.mk.inj (Option.some.inj h)
      · exact (tallies_apply (o := .endQueueEmpty) (f := {}) hid rfl trivial rfl).trans
          (tallies_aside rfl rfl rfl rfl)
      · exact haside.trans (tallies_record rfl _)

end Server

namespace RunningServer

open Server

variable {r : RunningServer} {now : Instant} {e : Step} {l before rest : List Action}
  {others : List (List Action)} {s : Server} {config : Config}

/-! ### Steps -/

/-- A step that is done at once sends nothing. -/
theorem Incident.tallies {s' : Server} (h : Incident now s e s') : Tallies s [] s' [] := by
  cases h with
  | nothing => exact .refl s []
  | arrive =>
    rw [Server.arrive]
    split
    · exact tallies_aside rfl rfl rfl rfl
    · exact tallies_count Counters.countReceived (fun _ ↦ rfl) s
  | closeSilent => exact tallies_closeSilentAt ..
  | beginNotice h => exact tallies_beginNotice h
  | endNotice => exact tallies_endNotice ..
  | send => exact tallies_send ..
  | close => exact tallies_close ..
  | pause =>
    exact tallies_changePhase (fun _ ↦ Circuit.hands_of_apply (o := .pause) (f := {}) trivial rfl) ..
  | resume =>
    exact tallies_changePhase (fun _ ↦ Circuit.hands_of_apply (o := .resume) (f := {}) trivial rfl) ..
  | stopWorkers | shutdown => exact tallies_aside rfl rfl rfl rfl

/-- A step after which tasks still send first. -/
structure Balances (now : Instant) (e : Step) (r : RunningServer) : Prop where
  tallies : Tallies r.server r.tasks.flatten (r.step now e).server (r.step now e).tasks.flatten
  sendsFirst : ∀ l ∈ (r.step now e).tasks, Action.SendsFirst l

/-- Where no task goes on. -/
theorem balances_of_same (hr : ∀ l ∈ r.tasks, Action.SendsFirst l)
    (h : Tallies r.server [] (r.step now e).server []) (htasks : (r.step now e).tasks = r.tasks) :
    Balances now e r := by
  refine ⟨?_, htasks ▸ hr⟩
  rw [htasks]
  exact h.frame r.tasks.flatten

/-- Where a task goes on or begins. -/
theorem balances_of_task {o : Outcome × Server} (hr : ∀ l ∈ r.tasks, Action.SendsFirst l)
    (hserver : (r.step now e).server = o.2) (hbefore : Splits r.tasks before others)
    (hafter : Splits (r.step now e).tasks o.1.rest others) (h : Minds r.server before o) :
    Balances now e r where
  tallies := by
    rw [hserver]
    exact (h.tallies.frame others.flatten).perm hbefore.flatten_perm.symm hafter.flatten_perm.symm
  sendsFirst := (hafter.forall_iff List.Pairwise.nil).2
    ⟨h.sendsFirst, ((hbefore.forall_iff List.Pairwise.nil).1 hr).2⟩

/-- A task that begins with what neither sends nor counts. -/
theorem minds_begin (hl : ∀ a ∈ l, a.isSend = false) (now : Instant) (s : Server) :
    Minds s [] (s.advance now l) :=
  (minds_advance (Action.sendsFirst_of_not_isSend hl) now s).after
    (tallies_idle Action.gives_nothing (Action.gives_nil hl) s)

/-- Where a task goes on. -/
theorem balances_of_goesOn (hr : ∀ l ∈ r.tasks, Action.SendsFirst l) (he : goesOn e = true)
    (now : Instant) : Balances now e r := by
  cases conduct_of_goesOn he now r with
  | idle hserver htasks => exact balances_of_same hr (hserver ▸ .refl _ []) htasks
  | go hengaged hpart hserver hbefore hafter =>
    refine balances_of_task hr hserver hbefore hafter ?_
    cases hengaged with
    | @decode source datagram inbox hloop hinbox =>
      have htaken : Tallies r.server [] { r.server with inbox } [] := tallies_aside rfl rfl rfl rfl
      exact (minds_begin (List.forall_mem_singleton.2 rfl) now _).after htaken
    | round =>
      refine minds_begin (fun a ha ↦ ?_) now _
      obtain ⟨id, -, rfl⟩ := List.mem_map.1 ha
      rfl
    | resume he hl => exact minds_advance (hr _ hl) now _

/-- Where a request is decided. -/
theorem balances_authorize (hr : ∀ l ∈ r.tasks, Action.SendsFirst l) (position : Nat)
    (result : Authorization) (now : Instant) : Balances now (.authorize position result) r := by
  cases hposition : r.server.authorizing[position]? with
  | none =>
    have hstep := step_authorize_of_none hposition result now
    exact balances_of_same hr (hstep.symm ▸ .refl _ []) (congrArg tasks hstep)
  | some h =>
    have hstep := step_authorize_of_some hposition result now
    have hdecided : Tallies r.server [] (r.server.decided position) [] := tallies_aside rfl rfl rfl rfl
    exact balances_of_task hr (hstep ▸ server_settled ..) (.inr ⟨rfl, List.Perm.refl _⟩)
      (hstep ▸ tasks_settled ..) ((minds_conclude h result now _).after hdecided)

/-- Where a step is done at once. -/
theorem balances_of_atOnce (hr : ∀ l ∈ r.tasks, Action.SendsFirst l) (he : atOnce e = true)
    (now : Instant) : Balances now e r := by
  obtain ⟨hincident, htasks, -⟩ := incident_of_atOnce he now r
  exact balances_of_same hr hincident.tallies htasks

/-- **A step** lets counters and datagrams grow together. -/
theorem balances_step (hr : ∀ l ∈ r.tasks, Action.SendsFirst l) (now : Instant) (e : Step) :
    Balances now e r := by
  cases e with
  | authorize position result => exact balances_authorize hr position result now
  | decode | resumeDecoding | resumeSetup | beginRound | resumeRound =>
    exact balances_of_goesOn hr rfl now
  | _ => exact balances_of_atOnce hr rfl now

/-- **A history** lets counters and datagrams grow together. -/
theorem tallies_run (hr : ∀ l ∈ r.tasks, Action.SendsFirst l) (history : List (Instant × Step)) :
    Tallies r.server r.tasks.flatten (r.run history).server (r.run history).tasks.flatten := by
  induction history generalizing r with
  | nil => exact .refl _ _
  | cons e history ih =>
    have hstep := balances_step hr e.1 e.2
    exact hstep.tallies.trans (ih hstep.sendsFirst)

/-- The datagrams that were given to the socket, and those that tasks are about to give to it. -/
def dispatched (r : RunningServer) : List Octets :=
  r.server.dispatched r.tasks.flatten

/-- What the counters of a running server and of its circuits say. -/
structure Tallied (r : RunningServer) : Prop where
  /-- The circuits, taken together, counted the datagrams that answer no ping. -/
  circuits : (r.server.circuits.map Circuit.sent).sum =
    UInt64.ofNat (r.dispatched.countP (!Datagram.isPong r.server.config.mtu ·))
  /-- The server counted all datagrams, but for groups that are not given to the socket as a whole. -/
  server : r.server.counters.sent + UInt64.ofNat (Action.owed r.tasks.flatten) =
    UInt64.ofNat r.dispatched.length
  /-- So the server is ahead of the circuits by the answers to pings. -/
  ahead : r.server.counters.sent + UInt64.ofNat (Action.owed r.tasks.flatten) =
    (r.server.circuits.map Circuit.sent).sum +
      UInt64.ofNat (r.dispatched.countP (Datagram.isPong r.server.config.mtu ·))
  /-- They agree only where no ping was answered, or so many that the counters come round. -/
  agree_iff : r.server.counters.sent + UInt64.ofNat (Action.owed r.tasks.flatten) =
    (r.server.circuits.map Circuit.sent).sum ↔
      2 ^ 64 ∣ r.dispatched.countP (Datagram.isPong r.server.config.mtu ·)

/-- Where there is no excess, the counters tell the datagrams. -/
theorem tallied_of_excess (hserver : r.server.excess r.tasks.flatten = 0)
    (hcircuits : r.server.circuitExcess r.tasks.flatten = 0) : r.Tallied := by
  have hall : r.server.counters.sent + UInt64.ofNat (Action.owed r.tasks.flatten) =
      UInt64.ofNat r.dispatched.length := sub_eq_zero.1 hserver
  have hothers : (r.server.circuits.map Circuit.sent).sum = UInt64.ofNat
      (r.dispatched.countP (!Datagram.isPong r.server.config.mtu ·)) := sub_eq_zero.1 hcircuits
  have hlength := r.dispatched.length_eq_countP_add_countP (!Datagram.isPong r.server.config.mtu ·)
  simp only [Bool.not_eq_true', Bool.not_eq_false, Bool.decide_eq_true] at hlength
  have hahead : r.server.counters.sent + UInt64.ofNat (Action.owed r.tasks.flatten) =
      (r.server.circuits.map Circuit.sent).sum +
        UInt64.ofNat (r.dispatched.countP (Datagram.isPong r.server.config.mtu ·)) := by
    rw [hall, hothers, hlength, UInt64.ofNat_add]
  refine ⟨hothers, hall, hahead, ?_⟩
  rw [hahead, eq_comm]
  exact eq_add_ofNat_iff ..

/-- **The counters tell the datagrams** after any history. -/
theorem tallied_of_run (hcreate : create config now = .ok r) (history : List (Instant × Step)) :
    (r.run history).Tallied := by
  obtain ⟨burst, pending, notices, -, hr⟩ := exists_of_create hcreate
  have htasks : r.tasks = [[], []] := by
    rw [hr]
    rfl
  have hidle : ∀ l ∈ r.tasks, Action.SendsFirst l := by
    rw [htasks]
    exact List.forall_mem_cons.2 ⟨.nil, List.forall_mem_singleton.2 .nil⟩
  have hlively : r.server.Lively := by
    rw [hr]
    exact List.forall_mem_nil _
  have hrun := tallies_run hidle history
  refine tallied_of_excess (hrun.server.trans ?_) ((hrun.circuits hlively).trans ?_) <;>
  · rw [htasks, hr]
    exact sub_self (0 : UInt64)

/-- **Circuits count the datagrams that they put out, but for the answers to pings.** The server that
gives these to the socket counts all of them. -/
theorem counted_of_live_and_run (config : Config) :
    (∀ {session : Session} {address : Address} {root : BucketId} {start : Instant} {f : Forest}
      {ops : List (Circuit.Operation × Forest)} {moments : List Circuit.Moment} {c : Circuit},
      Circuit.live session address config root start f ops = .ok (moments, c) →
        Circuit.Counted moments c) ∧
    ∀ {now : Instant} {r₀ : RunningServer}, create config now = .ok r₀ →
      ∀ history, (r₀.run history).Tallied :=
  ⟨Circuit.counted_of_live, tallied_of_run⟩

/-- A circuit acknowledges a request, sends a message and a ping, and answers a ping. -/
def answering : List (Circuit.Operation × Forest) :=
  let full : Forest := ⟨List.replicate 9 (.full [] 0 0 0)⟩
  let request := (Client.setup ⟨99, .ofNat 8, .ofNat 7⟩ 1).toOption.bind fun d ↦
    (Datagram.parse 1400 d).toOption
  request.toList.map (fun p ↦ (.receive p 52 0, full)) ++ [(.flushAcks, full),
    (.send (.throttled .task) { id := .high 5, payload := [1, 2, 3] } true false, full),
    (.tick (100 * Span.millisecond), full), (.ping (200 * Span.millisecond), full),
    (.answerPing 17, full)]

/-- A circuit is set up, and then its peer sends a ping. -/
def pinging : List (Instant × Step) :=
  settingUp 2 (.ofNat 7) ++ (List.range 3).map resuming ++
    hearing 2 ((Client.control (.ping 17 0) 2 {}).toOption.getD []) ++
    List.replicate 3 (0, .resumeDecoding)

/-- Four datagrams of a circuit make three, and two of a server make one for its circuit. -/
theorem counted_of_pinging :
    ∃ moments c r₀,
      Circuit.live ⟨.ofNat 7, .ofNat 8, 99, none⟩ (.loopback 5) {} 0 0 {} answering = .ok (moments, c) ∧
      ((moments.map Circuit.Moment.answer).flatMap Circuit.Answer.datagrams).length = 4 ∧
      c.sent = 3 ∧ Circuit.Counted moments c ∧
      create {} 0 = .ok r₀ ∧ (r₀.run pinging).dispatched.length = 2 ∧ (r₀.run pinging).Tallied := by
  obtain ⟨⟨moments, c⟩, hlive, htest⟩ := exists_eq_ok_of_any
    (x := Circuit.live ⟨.ofNat 7, .ofNat 8, 99, none⟩ (.loopback 5) {} 0 0 {} answering)
    (p := fun r ↦ decide (((r.1.map Circuit.Moment.answer).flatMap
      Circuit.Answer.datagrams).length = 4 ∧ r.2.sent = 3)) (by decide +kernel)
  obtain ⟨hlength, hsent⟩ := of_decide_eq_true htest
  obtain ⟨r₀, hcreate, hdispatched⟩ := exists_eq_ok_of_any (x := create {} 0)
    (p := fun r₀ ↦ decide ((r₀.run pinging).dispatched.length = 2)) (by decide +kernel)
  exact ⟨moments, c, r₀, hlive, hlength, hsent, (counted_of_live_and_run {}).1 hlive, hcreate,
    of_decide_eq_true hdispatched, (counted_of_live_and_run {}).2 hcreate pinging⟩

/-- A circuit that answers a ping puts out a datagram, and has counted none. On a server the circuits
come to less than the server then, also when all is done. -/
theorem uncounted_of_pinging :
    (∃ moments c,
      Circuit.live ⟨.ofNat 7, .ofNat 8, 99, none⟩ (.loopback 5) {} 0 0 {} [(.answerPing 17, {})] =
        .ok (moments, c) ∧
      ((moments.map Circuit.Moment.answer).flatMap Circuit.Answer.datagrams).length = 1 ∧ c.sent = 0) ∧
    ∃ r₀, create {} 0 = .ok r₀ ∧ (r₀.run pinging).tasks.flatten = [] ∧
      (r₀.run pinging).server.counters.sent = 2 ∧
      ((r₀.run pinging).server.circuits.map Circuit.sent).sum = 1 := by
  constructor
  · obtain ⟨⟨moments, c⟩, hlive, htest⟩ := exists_eq_ok_of_any
      (x := Circuit.live ⟨.ofNat 7, .ofNat 8, 99, none⟩ (.loopback 5) {} 0 0 {} [(.answerPing 17, {})])
      (p := fun r ↦ decide (((r.1.map Circuit.Moment.answer).flatMap
        Circuit.Answer.datagrams).length = 1 ∧ r.2.sent = 0)) (by decide +kernel)
    exact ⟨moments, c, hlive, of_decide_eq_true htest⟩
  · obtain ⟨r₀, hcreate, htest⟩ := exists_eq_ok_of_any (x := create {} 0)
      (p := fun r₀ ↦ decide ((r₀.run pinging).tasks.flatten = [] ∧
        (r₀.run pinging).server.counters.sent = 2 ∧
        ((r₀.run pinging).server.circuits.map Circuit.sent).sum = 1)) (by decide +kernel)
    exact ⟨r₀, hcreate, of_decide_eq_true htest⟩

end RunningServer

end DatagramCircuits
