import DatagramCircuits.Proofs.Collections
import DatagramCircuits.Proofs.Replays
import Mathlib.Data.Multiset.Filter
import Mathlib.Tactic.Abel
/-!
# What becomes of datagrams

A datagram that was taken to be decoded is on its way until it comes to an end. It may be kept for a
circuit that is being set up, and wait in a task when a circuit has accepted it. How it can end is a
`Fate`, and which fates suit it depends on what reading it gives (`Suits`).

**Nothing gets out of the books.** `Server.Settles` goes with a part of a task, or of a history, and
says what has become of the datagrams meanwhile: what was on its way has come to an end, or still is;
the counters have counted the drops among the ends, and the effects tell of the deliveries. Parts that
follow each other are settled by what ended in both (`Server.Settles.comp`).

Datagrams are told apart by what reading them gives only. A datagram that was kept is read a second
time, and what is known of it by then is the packet.
-/

namespace DatagramCircuits

/-- What reading a datagram gives. -/
abbrev Reading := Except (Failure Datagram.Error) Packet

/-- The end of a datagram. -/
inductive Fate where
  /-- No circuit accepted it. -/
  | dropped (cause : DropCause)
  /-- A circuit accepted it, and it says no proper message of the protocol. -/
  | garbled (circuit : CircuitId)
  /-- A circuit accepted it, and its message of the protocol was seen to. -/
  | controlled (circuit : CircuitId) (m : Control)
  /-- A circuit accepted it, and its message was delivered. -/
  | delivered (circuit : CircuitId) (message : ReceivedMessage)
  /-- It is a request for a circuit, and was handed over to be authorized. -/
  | requested (h : Handshake)
  /-- It was kept for a circuit that was denied. -/
  | forgotten
  /-- A fault ended the task that had it, perhaps after a circuit accepted it. -/
  | lost (circuit : Option CircuitId) (fault : Fault)
deriving DecidableEq, Repr

namespace Fate

/-- What the end is counted as, if it is counted as a drop. -/
def cause? : Fate → Option DropCause
  | dropped cause => some cause
  | garbled _ => some .malformed
  | _ => none

/-- The circuit that accepted the datagram. -/
def circuit? : Fate → Option CircuitId
  | garbled id => some id
  | controlled id _ => some id
  | delivered id _ => some id
  | lost id _ => id
  | _ => none

/-- The message that was delivered, and the circuit that it came on. -/
def delivery? : Fate → Option (CircuitId × ReceivedMessage)
  | delivered id m => some (id, m)
  | _ => none

/-- The request that was handed over. -/
def handshake? : Fate → Option Handshake
  | requested h => some h
  | _ => none

/-- The fault that brought the end. -/
def fault? : Fate → Option Fault
  | lost _ fault => some fault
  | _ => none

end Fate

/-- The message of a packet, as the application is given it. -/
def Packet.message (p : Packet) : ReceivedMessage :=
  ⟨p.id, p.payload, p.header.sequence, p.isReliable⟩

/-- The message of a packet, unless it is one of the protocol. -/
def Packet.message? (p : Packet) : Option ReceivedMessage :=
  match Control.read p.id p.payload with
  | .ok (none, _) => some p.message
  | _ => none

/-- The fate suits what reading the datagram gives. -/
inductive Suits : Reading → Fate → Prop
  /-- What can not be read is malformed. -/
  | unreadable (e : Datagram.Error) : Suits (.error (.refused e)) (.dropped .malformed)
  /-- A request that can not be read is malformed. -/
  | unreadableRequest {p : Packet} {e : Octets.Underrun} (hid : p.id = .setup)
      (h : SetupRequest.read p.payload = .error e) : Suits (.ok p) (.dropped .malformed)
  /-- Anything may come without a circuit. -/
  | orphaned (p : Packet) : Suits (.ok p) (.dropped .orphaned)
  /-- What is to be acknowledged may come twice. -/
  | duplicate {p : Packet} (h : p.isReliable = true) : Suits (.ok p) (.dropped .duplicate)
  /-- A message of the protocol that can not be read is malformed. -/
  | garbled {p : Packet} {e : Control.Error} (id : CircuitId)
      (h : Control.read p.id p.payload = .error e) : Suits (.ok p) (.garbled id)
  /-- A message of the protocol is seen to. -/
  | controlled {p : Packet} {m : Control} {rest : Octets} (id : CircuitId)
      (h : Control.read p.id p.payload = .ok (some m, rest)) : Suits (.ok p) (.controlled id m)
  /-- All other messages are delivered. -/
  | delivered {p : Packet} {m : ReceivedMessage} (id : CircuitId) (h : p.message? = some m) :
    Suits (.ok p) (.delivered id m)
  /-- A request is handed over with its packet. -/
  | requested {p : Packet} {request : SetupRequest} {rest : Octets} (address : Address) (length : Nat)
      (hid : p.id = .setup) (h : SetupRequest.read p.payload = .ok (request, rest)) :
    Suits (.ok p) (.requested { address, request, packet := p, length })
  /-- What is kept could be read. -/
  | forgotten (p : Packet) : Suits (.ok p) .forgotten
  /-- A fault may come before a circuit has accepted the datagram. -/
  | lost (x : Reading) (fault : Fault) : Suits x (.lost none fault)
  /-- Seeing to a message of the protocol may be at fault. -/
  | lostInControl {p : Packet} {m : Control} {rest : Octets} (id : CircuitId) (fault : Fault)
      (h : Control.read p.id p.payload = .ok (some m, rest)) : Suits (.ok p) (.lost (some id) fault)

/-- Datagrams with their ends. -/
abbrev Endings := List (Reading × Fate)

namespace Endings

/-- How many ends are counted as drops for a cause. -/
def drops (cause : DropCause) (k : Endings) : Nat :=
  (k.filterMap fun x ↦ x.2.cause?).count cause

/-- The messages that were delivered, in order. -/
def deliveries (k : Endings) : List (CircuitId × ReceivedMessage) :=
  k.filterMap fun x ↦ x.2.delivery?

/-- The packets that circuits have accepted. -/
def accepted (k : Endings) : List (CircuitId × Packet) :=
  k.filterMap fun x ↦ x.1.toOption.bind fun p ↦ x.2.circuit?.map (·, p)

/-- The requests that were handed over, in order. -/
def requests (k : Endings) : List Handshake :=
  k.filterMap fun x ↦ x.2.handshake?

/-- The datagrams that were forgotten. -/
def forgotten (k : Endings) : List Reading :=
  (k.filter fun x ↦ x.2 = .forgotten).map Prod.fst

/-- The datagrams that were lost, each with the fault that it was lost by. -/
def lost (k : Endings) : List (Reading × Fault) :=
  k.filterMap fun x ↦ x.2.fault?.map (x.1, ·)

/-- The drops of two parts add up. -/
theorem drops_append (cause : DropCause) (k k' : Endings) :
    drops cause (k ++ k') = k.drops cause + drops cause k' := by
  rw [drops, List.filterMap_append, List.count_append]
  rfl

/-- The deliveries of two parts follow each other. -/
theorem deliveries_append (k k' : Endings) : deliveries (k ++ k') = k.deliveries ++ deliveries k' :=
  List.filterMap_append

theorem accepted_append (k k' : Endings) : accepted (k ++ k') = k.accepted ++ accepted k' :=
  List.filterMap_append

theorem requests_append (k k' : Endings) : requests (k ++ k') = k.requests ++ requests k' :=
  List.filterMap_append

theorem forgotten_append (k k' : Endings) : forgotten (k ++ k') = k.forgotten ++ forgotten k' := by
  rw [forgotten, List.filter_append, List.map_append]
  rfl

/-- The losses of two parts follow each other. -/
theorem lost_append (k k' : Endings) : lost (k ++ k') = k.lost ++ lost k' :=
  List.filterMap_append

end Endings

/-- What is lost of the datagrams of something when it ends: all of them at a fault, and none else. -/
def Outcome.lost (l : List Reading) : Outcome → List (Reading × Fault)
  | failed fault => l.map (·, fault)
  | finished | waiting _ => []

/-- Nothing is lost of nothing. -/
@[simp] theorem Outcome.lost_nil (o : Outcome) : o.lost [] = [] := by
  cases o <;> rfl

/-- The message that an effect delivers. -/
def Effect.delivery? : Effect → Option (CircuitId × ReceivedMessage)
  | delivered id _ m => some (id, m)
  | _ => none

/-- The messages that effects deliver, in order. -/
def Effect.deliveries (l : List Effect) : List (CircuitId × ReceivedMessage) :=
  l.filterMap delivery?

/-- The counter for a cause. -/
def Counters.dropped (c : Counters) : DropCause → UInt64
  | .malformed => c.malformed
  | .orphaned => c.orphaned
  | .duplicate => c.duplicate

/-- A drop is counted under its own cause only. -/
theorem Counters.dropped_countDropped (c : Counters) (cause cause' : DropCause) :
    (c.countDropped cause).dropped cause' =
      c.dropped cause' + if cause = cause' then 1 else 0 := by
  cases cause <;> cases cause' <;> simp [countDropped, dropped]

namespace Action

/-- What reading the datagrams gives that an action is about. -/
def mail (mtu : Nat) : Action → List Reading
  | handle _ datagram => [Datagram.parse mtu datagram]
  | replay _ datagram => [Datagram.parse mtu datagram]
  | deliver _ p => [.ok p]
  | _ => []

/-- The packet that an action is about, if a circuit has accepted it. -/
def accepted? : Action → Option (CircuitId × Packet)
  | deliver id p => some (id, p)
  | _ => none

/-- The packets among actions that circuits have accepted. -/
def accepted (l : List Action) : List (CircuitId × Packet) :=
  l.filterMap accepted?

variable {mtu : Nat} {l : List Action}

theorem accepted_append (l l' : List Action) : accepted (l ++ l') = accepted l ++ accepted l' :=
  List.filterMap_append

/-- Sending is about no datagram that arrived. -/
theorem flatMap_mail_of_isSend (h : ∀ a ∈ l, a.isSend = true) : l.flatMap (mail mtu) = [] := by
  refine List.flatMap_eq_nil_iff.2 fun a ha ↦ ?_
  have hsend := h a ha
  cases a with
  | transmit | countSent => rfl
  | announce | deliver | replay | handle | serve => cases hsend

/-- Actions that report nothing to the application are about no accepted packet. -/
theorem accepted_of_reports (h : l.filterMap report? = []) : accepted l = [] := by
  refine List.filterMap_eq_nil_iff.2 fun a ha ↦ ?_
  have hreport := List.filterMap_eq_nil_iff.1 h a ha
  cases a with
  | deliver => cases hreport
  | transmit | countSent | announce | replay | handle | serve => rfl

/-- Sending is about no accepted packet. -/
theorem accepted_of_isSend (h : ∀ a ∈ l, a.isSend = true) : accepted l = [] := by
  refine accepted_of_reports (List.filterMap_eq_nil_iff.2 fun a ha ↦ ?_)
  have hsend := h a ha
  cases a with
  | transmit | countSent => rfl
  | announce | deliver | replay | handle | serve => cases hsend

end Action

namespace Server

variable {mtu : Nat} {s s' s'' : Server} {id : CircuitId} {c : Circuit} {now : Instant} {a : Action}
  {l l' m rest : List Action} {q q' : List (CircuitId × Packet)} {d d' : List Handshake}
  {f f' : List Reading} {k k' : Endings} {p : Packet}

/-- What reading the datagrams gives that are kept for circuits that are being set up. -/
def kept (mtu : Nat) (s : Server) : Multiset Reading :=
  s.pending.total fun l ↦ (l.map (Datagram.parse mtu) : List Reading)

/-! ### What is not about datagrams -/

/-- Nothing that has to do with arriving datagrams differs between the servers. -/
structure SameMail (s s' : Server) : Prop where
  pending : s'.pending = s.pending
  authorizing : s'.authorizing = s.authorizing
  dropped : ∀ cause, s'.counters.dropped cause = s.counters.dropped cause
  deliveries : Effect.deliveries s'.effects = Effect.deliveries s.effects

theorem SameMail.refl (s : Server) : SameMail s s :=
  ⟨rfl, rfl, fun _ ↦ rfl, rfl⟩

theorem SameMail.trans (h : SameMail s s') (h' : SameMail s' s'') : SameMail s s'' where
  pending := h'.pending.trans h.pending
  authorizing := h'.authorizing.trans h.authorizing
  dropped cause := (h'.dropped cause).trans (h.dropped cause)
  deliveries := h'.deliveries.trans h.deliveries

/-- Counting anything but drops has nothing to do with arriving datagrams. -/
theorem sameMail_count {change : Counters → Counters}
    (h : ∀ c cause, (change c).dropped cause = c.dropped cause) (s : Server) :
    SameMail s (s.count change) :=
  ⟨rfl, rfl, h s.counters, rfl⟩

/-- Nor has an effect that delivers nothing. -/
theorem sameMail_record {e : Effect} (h : e.delivery? = none) (s : Server) :
    SameMail s (s.record e) := by
  refine ⟨rfl, rfl, fun _ ↦ rfl, ?_⟩
  rw [record, Effect.deliveries, List.filterMap_append, List.filterMap_cons_none h]
  exact List.append_nil _

/-- Nor has a change of a circuit that is in the table. -/
theorem sameMail_putCircuit (id : CircuitId) (c : Circuit) (s : Server) :
    SameMail s (s.putCircuit id c) :=
  ⟨rfl, rfl, fun _ ↦ rfl, rfl⟩

/-- Nor has the close of a circuit, whether it is found open or not. -/
theorem sameMail_closeCircuit (id : CircuitId) (reason : CloseReason) (s : Server) :
    SameMail s (s.closeCircuit id reason).2 := by
  cases hid : s.circuit? id with
  | none =>
    rw [closeCircuit_of_none reason hid]
    exact .refl s
  | some c =>
    cases hclosed : c.isClosed with
    | true =>
      rw [closeCircuit_of_closed reason hid hclosed]
      exact .refl s
    | false =>
      rw [closeCircuit_of_open reason hid hclosed]
      refine SameMail.trans ?_ (sameMail_record rfl _)
      exact ⟨rfl, rfl, fun cause ↦ by cases cause <;> rfl, rfl⟩

/-- Nor has the close of all circuits that a new one takes the place of. -/
theorem sameMail_supersede (ids : List CircuitId) (s : Server) : SameMail s (s.supersede ids) := by
  induction ids generalizing s with
  | nil => exact .refl s
  | cons id ids ih => exact (sameMail_closeCircuit id .superseded s).trans (ih _)

/-- A message of the protocol changes its circuit and what the application is told of it, not what
becomes of other datagrams. -/
theorem sameMail_control (id : CircuitId) (c : Circuit) (m : Control) (now : Instant) (s : Server) :
    SameMail s (s.control id c m now).2 := by
  cases m with
  | acks | pong => exact sameMail_putCircuit ..
  | ping =>
    rw [control]
    split <;> exact .refl s
  | throttle rates =>
    rw [control]
    split
    · rename_i adjustment forest _
      have hforest : SameMail s { s with forest } := ⟨rfl, rfl, fun _ ↦ rfl, rfl⟩
      exact hforest.trans (sameMail_record rfl _)
    · exact .refl s
  | close => exact sameMail_closeCircuit ..
  | setup => exact .refl s

/-- The announcement of a circuit, after which it is connected, leaves the mail as it is. -/
theorem sameMail_announce (id : CircuitId) (s : Server) : SameMail s (s.announce id) := by
  rw [announce]
  split
  · exact .refl s
  · rename_i c hid
    exact ((sameMail_putCircuit id c.connect.2 s).trans
      (sameMail_count (fun _ cause ↦ by cases cause <;> rfl) _)).trans (sameMail_record rfl _)

/-- So does the beginning of a notice of empty queues. -/
theorem sameMail_notify (id : CircuitId) (lanes : List Lane) (now : Instant) (s : Server) :
    SameMail s (s.notify id lanes now) := by
  rw [notify]
  split
  · exact .refl s
  · split
    · exact .refl s
    · split
      · exact ⟨rfl, rfl, fun _ ↦ rfl, rfl⟩
      · exact (sameMail_putCircuit ..).trans (sameMail_count (fun _ cause ↦ by cases cause <;> rfl) _)

theorem sameMail_unacknowledged (id : CircuitId) (agent : Uuid) (l : List Outgoing) (s : Server) :
    SameMail s (l.foldl (fun s p ↦ s.record (.unacknowledged id agent p)) s) := by
  induction l generalizing s with
  | nil => exact .refl s
  | cons p l ih => exact (sameMail_record rfl s).trans (ih _)

/-- What a tick put out is told and counted, and none of that is about arriving datagrams. -/
theorem sameMail_takeIn (id : CircuitId) (t : Turn) (now : Instant) (s : Server) :
    SameMail s (s.takeIn id t now) := by
  have hput : SameMail s { s.putCircuit id t.circuit with forest := t.forest } :=
    ⟨rfl, rfl, fun _ ↦ rfl, rfl⟩
  have htold := hput.trans
    (sameMail_unacknowledged id t.circuit.agent t.output.unacknowledged _)
  have hcounted (s₁ : Server) : SameMail s₁ (s₁.count fun c ↦
      (c.countResent t.output.resent).countDroppedUnacked t.output.droppedUnacked) :=
    sameMail_count (fun _ cause ↦ by cases cause <;> rfl) s₁
  have hstalled : ∀ s₁ : Server, SameMail s₁
      (if t.output.stalled then s₁.count Counters.countAckStall else s₁) := by
    intro s₁
    split
    · exact sameMail_count (fun _ cause ↦ by cases cause <;> rfl) _
    · exact .refl s₁
  rw [takeIn]
  dsimp only
  split
  · exact (htold.trans (hcounted _)).trans (hstalled _)
  · exact ((htold.trans (hcounted _)).trans (hstalled _)).trans (sameMail_notify ..)

/-- A visit of a circuit has nothing to do with arriving datagrams, even if a fault ends it. -/
theorem sameMail_serve (id : CircuitId) (now : Instant) (s : Server) :
    SameMail s (s.serve id now).2 := by
  rw [serve]
  split
  · exact .refl s
  · split
    · exact ⟨rfl, rfl, fun _ ↦ rfl, rfl⟩
    · split
      · exact ⟨rfl, rfl, fun _ ↦ rfl, rfl⟩
      · dsimp only
        split <;> exact sameMail_takeIn ..

/-! ### Books -/

/-- What becomes of datagrams while a server goes from one state to another, and from some actions to
others. Circuits accept the packets `q` meanwhile, the requests `d` are decided, and the datagrams `f`
are refused with them. Then `k` are the ends. -/
structure Settles (mtu : Nat) (s : Server) (l : List Action) (q : List (CircuitId × Packet))
    (d : List Handshake) (f : List Reading) (k : Endings) (rest : List Action) (s' : Server) :
    Prop where
  /-- What was on its way has come to its end, or still is on its way. -/
  balance : ↑(l.flatMap (Action.mail mtu)) + s.kept mtu =
    ↑(k.map Prod.fst) + ↑(rest.flatMap (Action.mail mtu)) + s'.kept mtu
  /-- The ends suit what the datagrams are. -/
  suits : ∀ x ∈ k, Suits x.1 x.2
  /-- The drops are counted. -/
  dropped : ∀ cause, s'.counters.dropped cause =
    s.counters.dropped cause + UInt64.ofNat (k.drops cause)
  /-- The messages are delivered. -/
  delivered : Effect.deliveries s'.effects = Effect.deliveries s.effects ++ k.deliveries
  /-- What circuits accept has come to its end, or still is on its way. -/
  accepted : (↑q + ↑(Action.accepted l) : Multiset (CircuitId × Packet)) =
    ↑k.accepted + ↑(Action.accepted rest)
  /-- The requests are being authorized, or decided. -/
  requested : (↑s.authorizing + ↑k.requests : Multiset Handshake) = ↑s'.authorizing + ↑d
  /-- What was refused is forgotten. -/
  forgotten : k.forgotten = f

/-- Where nothing has to do with datagrams. -/
theorem SameMail.settles (h : SameMail s s')
    (hmail : rest.flatMap (Action.mail mtu) = l.flatMap (Action.mail mtu))
    (haccepted : Action.accepted rest = Action.accepted l) :
    Settles mtu s l [] [] [] [] rest s' where
  balance := by
    rw [hmail, kept, kept, h.pending]
    simp
  suits _ hx := absurd hx List.not_mem_nil
  dropped cause := (h.dropped cause).trans (UInt64.add_zero _).symm
  delivered := h.deliveries.trans (List.append_nil _).symm
  accepted := by
    rw [haccepted]
    rfl
  requested := by
    rw [h.authorizing]
    rfl
  forgotten := rfl

/-- Where nothing happens, nothing is to be settled. -/
theorem settles_refl (mtu : Nat) (l : List Action) (s : Server) :
    Settles mtu s l [] [] [] [] l s :=
  (SameMail.refl s).settles rfl rfl

/-- **One part after another.** -/
theorem Settles.comp (h : Settles mtu s l q d f k m s') (h' : Settles mtu s' m q' d' f' k' rest s'') :
    Settles mtu s l (q ++ q') (d ++ d') (f ++ f') (k ++ k') rest s'' where
  balance := by
    have hfirst := h.balance
    have hthen := h'.balance
    rw [List.map_append, ← Multiset.coe_add, hfirst, add_assoc, hthen]
    abel
  suits x hx := (List.mem_append.1 hx).elim (h.suits x) (h'.suits x)
  dropped cause := by
    rw [h'.dropped, h.dropped, Endings.drops_append, UInt64.ofNat_add, UInt64.add_assoc]
  delivered := by
    rw [h'.delivered, h.delivered, Endings.deliveries_append, List.append_assoc]
  accepted := by
    have hfirst := h.accepted
    have hthen := h'.accepted
    rw [Endings.accepted_append, ← Multiset.coe_add, ← Multiset.coe_add, add_right_comm, hfirst,
      add_right_comm, add_assoc, hthen, add_assoc]
  requested := by
    have hfirst := h.requested
    have hthen := h'.requested
    rw [Endings.requests_append, ← Multiset.coe_add, ← Multiset.coe_add, ← add_assoc, hfirst,
      add_right_comm, hthen]
    abel
  forgotten := by
    rw [Endings.forgotten_append, h.forgotten, h'.forgotten]

/-- Other actions may be there, and wait. -/
theorem Settles.frame (h : Settles mtu s l q d f k rest s') (m : List Action) :
    Settles mtu s (l ++ m) q d f k (rest ++ m) s' where
  balance := by
    have hbalance := h.balance
    rw [List.flatMap_append, List.flatMap_append, ← Multiset.coe_add, ← Multiset.coe_add,
      add_right_comm, hbalance]
    abel
  suits := h.suits
  dropped := h.dropped
  delivered := h.delivered
  accepted := by
    have haccepted := h.accepted
    rw [Action.accepted_append, Action.accepted_append, ← Multiset.coe_add, ← Multiset.coe_add,
      ← add_assoc, haccepted, add_assoc]
  requested := h.requested
  forgotten := h.forgotten

/-- The order of actions is of no importance here. -/
theorem Settles.perm (h : Settles mtu s l q d f k rest s') (hl : l'.Perm l) (hrest : rest.Perm m) :
    Settles mtu s l' q d f k m s' where
  balance := by
    rw [Multiset.coe_eq_coe.2 (hl.flatMap_right _), ← Multiset.coe_eq_coe.2 (hrest.flatMap_right _)]
    exact h.balance
  suits := h.suits
  dropped := h.dropped
  delivered := h.delivered
  accepted := by
    have haccepted : (Action.accepted l').Perm (Action.accepted l) := hl.filterMap _
    have hleft : (Action.accepted rest).Perm (Action.accepted m) := hrest.filterMap _
    rw [Multiset.coe_eq_coe.2 haccepted, ← Multiset.coe_eq_coe.2 hleft]
    exact h.accepted
  requested := h.requested
  forgotten := h.forgotten

end Server

end DatagramCircuits
