import DatagramCircuits.Proofs.Handshakes
import DatagramCircuits.Proofs.Mail
/-!
# The ways of datagrams

A datagram is read and routed by one action. It comes to its end there, or it is kept for a circuit
that is being set up, or it is accepted by a circuit and waits until acknowledgements are sent. Each
function on the way settles the datagram that it is about (`Server.Settles`), with one end at most.

A fault ends a task. Then the datagram is lost that the task was at, and with it whatever else the task
had (`Server.stranded`), and nothing is lost otherwise (`Server.settles_advance`). A datagram that a
circuit has accepted is not among the rest, since nothing but sending comes before it.
-/

namespace DatagramCircuits

namespace Server

variable {mtu : Nat} {s s' : Server} {id : CircuitId} {c : Circuit} {now : Instant} {a : Action}
  {l rest : List Action} {q : List (CircuitId × Packet)} {k : Endings} {p : Packet}

/-! ### Messages and datagrams -/

theorem flatMap_mail_sendAll (target : Address) (l : List Octets) :
    (Action.sendAll target l).flatMap (Action.mail mtu) = [] :=
  Action.flatMap_mail_of_isSend fun _ ↦ Action.isSend_of_mem_sendAll

theorem accepted_sendAll (target : Address) (l : List Octets) :
    Action.accepted (Action.sendAll target l) = [] :=
  Action.accepted_of_isSend fun _ ↦ Action.isSend_of_mem_sendAll

/-- Acknowledgements may have to be sent before anything else. -/
theorem Settles.sends {d : List Handshake} {f : List Reading} (h : Settles mtu s l q d f k rest s')
    (target : Address) (datagrams : List Octets) :
    Settles mtu s l q d f k (Action.sendAll target datagrams ++ rest) s' := by
  have hsame : Settles mtu s' rest [] [] [] [] (Action.sendAll target datagrams ++ rest) s' := by
    refine (SameMail.refl s').settles ?_ ?_
    · rw [List.flatMap_append, flatMap_mail_sendAll, List.nil_append]
    · rw [Action.accepted_append, accepted_sendAll, List.nil_append]
  simpa only [List.append_nil] using h.comp hsame

/-- What is left after a message of the protocol has to do with the socket only. -/
theorem isSend_of_control {m : Control} (ha : a ∈ (s.control id c m now).1.rest) :
    a.isSend = true := by
  cases m with
  | ping ping oldest =>
    rw [control] at ha
    split at ha
    · exact Action.isSend_of_mem_sendAll ha
    · cases ha
  | throttle rates =>
    rw [control] at ha
    split at ha <;> cases ha
  | acks | pong | close | setup => cases ha

/-- The server has taken note of an end. -/
structure Notes (mtu : Nat) (s : Server) (fate : Fate) (s' : Server) : Prop where
  kept : s'.kept mtu = s.kept mtu
  authorizing : s'.authorizing = s.authorizing ++ fate.handshake?.toList
  dropped : ∀ cause, s'.counters.dropped cause =
    s.counters.dropped cause + if fate.cause? = some cause then 1 else 0
  deliveries : Effect.deliveries s'.effects = Effect.deliveries s.effects ++ fate.delivery?.toList

/-- A drop is noted under its cause. -/
theorem notes_drop {fate : Fate} {cause : DropCause} (hcause : fate.cause? = some cause)
    (hrequest : fate.handshake? = none) (hdelivery : fate.delivery? = none) (s : Server) :
    Notes mtu s fate (s.drop cause) where
  kept := rfl
  authorizing := by
    rw [hrequest]
    exact (List.append_nil _).symm
  dropped cause' := by
    rw [hcause, drop, count, Counters.dropped_countDropped]
    simp only [Option.some.injEq]
  deliveries := by
    rw [hdelivery]
    exact (List.append_nil _).symm

/-- An end that neither counts nor delivers, nor asks for anything. -/
theorem SameMail.notes {fate : Fate} (h : SameMail s s') (hcause : fate.cause? = none)
    (hrequest : fate.handshake? = none) (hdelivery : fate.delivery? = none) : Notes mtu s fate s' where
  kept := by rw [Server.kept, h.pending, Server.kept]
  authorizing := by
    rw [h.authorizing, hrequest]
    exact (List.append_nil _).symm
  dropped cause := by simp [h.dropped, hcause]
  deliveries := by
    rw [h.deliveries, hdelivery]
    exact (List.append_nil _).symm

/-- What has nothing to do with datagrams may come before. -/
theorem Notes.after {fate : Fate} (h : SameMail s s') (h' : Notes mtu s' fate s'') :
    Notes mtu s fate s'' where
  kept := by rw [h'.kept, Server.kept, h.pending, Server.kept]
  authorizing := by rw [h'.authorizing, h.authorizing]
  dropped cause := by rw [h'.dropped, h.dropped]
  deliveries := by rw [h'.deliveries, h.deliveries]

/-- **An action that is about one datagram,** which comes to an end that the server takes note of. -/
theorem Notes.settles {x : Reading} {fate : Fate} (h : Notes mtu s fate s')
    (hmail : a.mail mtu = [x]) (hsuits : Suits x fate) (hfate : fate ≠ .forgotten)
    (haccepted : q ++ Action.accepted [a] = Endings.accepted [(x, fate)] ++ Action.accepted rest)
    (hrest : rest.flatMap (Action.mail mtu) = []) :
    Settles mtu s [a] q [] [] [(x, fate)] rest s' where
  balance := by
    rw [hrest, List.flatMap_singleton, hmail, h.kept]
    simp
  suits y hy := by
    rw [List.mem_singleton.1 hy]
    exact hsuits
  dropped cause := by
    rw [h.dropped, Endings.drops]
    cases hcause : fate.cause? with
    | none => simp [hcause]
    | some cause' => by_cases heq : cause' = cause <;> simp [hcause, heq]
  delivered := by
    rw [h.deliveries, Endings.deliveries]
    cases hdelivery : fate.delivery? <;> simp [hdelivery]
  accepted := by rw [Multiset.coe_add, Multiset.coe_add, haccepted]
  requested := by
    rw [h.authorizing, ← Multiset.coe_add, Endings.requests]
    cases hrequest : fate.handshake? <;> simp [hrequest]
  forgotten := by simp [Endings.forgotten, hfate]

/-- A message that a circuit accepted is seen to. -/
theorem settles_deliver (mtu : Nat) (hid : s.circuit? id = some c) (p : Packet) (now : Instant) :
    ∃ k, Settles mtu s [.deliver id p] [] [] [] k (s.deliver id p now).1.rest
        (s.deliver id p now).2 ∧ k.lost = (s.deliver id p now).1.lost [.ok p] := by
  rw [deliver, hid]
  dsimp only
  split
  · rename_i e hread
    refine ⟨[(.ok p, .garbled id)], ?_, rfl⟩
    exact (notes_drop rfl rfl rfl s).settles rfl (.garbled id hread) (by simp) rfl rfl
  · rename_i m rest hread
    have hsame := sameMail_control id c m now s
    have hmail : (s.control id c m now).1.rest.flatMap (Action.mail mtu) = [] :=
      Action.flatMap_mail_of_isSend fun _ ↦ isSend_of_control
    have haccepted : Action.accepted (s.control id c m now).1.rest = [] :=
      Action.accepted_of_isSend fun _ ↦ isSend_of_control
    cases ho : (s.control id c m now).1 with
    | failed fault =>
      refine ⟨[(.ok p, .lost (some id) fault)], ?_, rfl⟩
      exact (hsame.notes rfl rfl rfl).settles rfl (.lostInControl id fault hread) (by simp) rfl rfl
    | finished | waiting =>
      rw [ho] at hmail haccepted
      refine ⟨[(.ok p, .controlled id m)], ?_, rfl⟩
      refine (hsame.notes rfl rfl rfl).settles rfl (.controlled id hread) (by simp) ?_ hmail
      rw [haccepted]
      rfl
  · rename_i rest hread
    refine ⟨[(.ok p, .delivered id p.message)], ?_, rfl⟩
    have hmessage : p.message? = some p.message := by rw [Packet.message?, hread]
    refine Notes.settles ⟨rfl, (List.append_nil _).symm, fun cause ↦ (UInt64.add_zero _).symm, ?_⟩ rfl
      (.delivered id hmessage) (by simp) rfl rfl
    exact List.filterMap_append

/-- A circuit accepts the packet. -/
def Accepts (p : Packet) (length : Nat) (now : Instant) (c : Circuit) : Prop :=
  ∃ flushAcks, (c.receive p length now).1 = .ok (.accept flushAcks)

instance (p : Packet) (length : Nat) (now : Instant) (c : Circuit) :
    Decidable (Accepts p length now c) :=
  decidable_of_iff ((c.receive p length now).1 = .ok (.accept false) ∨
    (c.receive p length now).1 = .ok (.accept true)) (by simp [Accepts])

/-- The packet that a circuit is given, if the circuit accepts it. -/
def acceptedBy (id : CircuitId) (p : Packet) (length : Nat) (now : Instant) (s : Server) :
    List (CircuitId × Packet) :=
  if (s.circuit? id).any fun c ↦ decide (Accepts p length now c) then [(id, p)] else []

/-- What a circuit accepts is known from its answer. -/
theorem acceptedBy_of_accept {length : Nat} {flush : Bool} {c' : Circuit}
    (hid : s.circuit? id = some c) (h : c.receive p length now = (.ok (.accept flush), c')) :
    s.acceptedBy id p length now = [(id, p)] := by
  rw [acceptedBy, hid, if_pos]
  exact decide_eq_true ⟨flush, by rw [h]⟩

/-- Any other answer accepts nothing. -/
theorem acceptedBy_of_ne {length : Nat} {o : Except Fault Disposition} {c' : Circuit}
    (hid : s.circuit? id = some c) (h : c.receive p length now = (o, c'))
    (ho : ∀ flush, o ≠ .ok (.accept flush)) : s.acceptedBy id p length now = [] := by
  rw [acceptedBy, hid, if_neg]
  rintro haccepts
  obtain ⟨flush, hflush⟩ := of_decide_eq_true haccepts
  rw [h] at hflush
  exact ho flush hflush

/-- Only what is to be acknowledged is told to come twice. -/
theorem isReliable_of_duplicate {length : Nat} {resent : Bool}
    (h : (c.receive p length now).1 = .ok (.duplicate resent)) : p.isReliable = true := by
  rw [Circuit.receive] at h
  split at h
  · cases h
  · split at h
    · assumption
    · cases h

/-- A datagram is given to a circuit. -/
theorem settles_receive {length : Nat} (hmail : a.mail mtu = [.ok p])
    (ha : Action.accepted [a] = []) (hid : s.circuit? id = some c) :
    ∃ k, Settles mtu s [a] (s.acceptedBy id p length now) [] [] k
        (s.receive id p length now).1.rest (s.receive id p length now).2 ∧
      k.lost = (s.receive id p length now).1.lost [.ok p] := by
  rw [receive, hid]
  dsimp only
  split
  · rename_i fault c' hreceive
    refine ⟨[(.ok p, .lost none fault)], ?_, rfl⟩
    rw [acceptedBy_of_ne hid hreceive (by simp)]
    refine ((sameMail_putCircuit id c' s).notes rfl rfl rfl).settles hmail (.lost _ fault) (by simp) ?_
      rfl
    rw [ha]
    rfl
  · rename_i c' hreceive
    refine ⟨[(.ok p, .dropped .orphaned)], ?_, rfl⟩
    rw [acceptedBy_of_ne hid hreceive (by simp)]
    refine (notes_drop rfl rfl rfl s).settles hmail (.orphaned p) (by simp) ?_ rfl
    rw [ha]
    rfl
  · rename_i resent c' hreceive
    refine ⟨[(.ok p, .dropped .duplicate)], ?_, rfl⟩
    have hreliable := isReliable_of_duplicate (congrArg Prod.fst hreceive)
    rw [acceptedBy_of_ne hid hreceive (by simp)]
    refine (Notes.after (sameMail_putCircuit id c' s) (notes_drop rfl rfl rfl _)).settles hmail
      (.duplicate hreliable) (by simp) ?_ rfl
    rw [ha]
    rfl
  all_goals
    rename_i c' hreceive
    rw [acceptedBy_of_accept hid hreceive]
    -- the message waits to be seen to
    have hwaits : ∀ c'', Settles mtu s [a] [(id, p)] [] [] [] [.deliver id p]
        (s.putCircuit id c'') := by
      intro c''
      have hsame := sameMail_putCircuit id c'' s
      refine ⟨?_, fun _ hx ↦ absurd hx List.not_mem_nil, fun cause ↦ (UInt64.add_zero _).symm,
        (List.append_nil _).symm, ?_, rfl, rfl⟩
      · rw [List.flatMap_singleton, hmail, kept, kept]
        simp [Action.mail, putCircuit]
      · rw [ha]
        rfl
    have hput : ∀ c'', (s.putCircuit id c'').circuit? id = some c'' := fun c'' ↦
      (circuit?_set hid c'' id).trans (if_pos rfl)
  · obtain ⟨k, hk, hlost⟩ := settles_deliver mtu (hput c') p now
    exact ⟨k, (hwaits c').comp hk, hlost⟩
  · split
    · rename_i c'' hacks
      obtain ⟨k, hk, hlost⟩ := settles_deliver mtu (hput c'') p now
      exact ⟨k, (hwaits c'').comp hk, hlost⟩
    · rename_i acks c'' hne hacks
      exact ⟨[], (hwaits c'').sends c''.address acks, rfl⟩

/-- The packet that a circuit accepts when an action begins. -/
def acceptedAt (now : Instant) (a : Action) (s : Server) : List (CircuitId × Packet) :=
  match a with
  | .replay id datagram =>
    match Datagram.parse s.config.mtu datagram with
    | .ok p => s.acceptedBy id p datagram.length now
    | .error _ => []
  | .handle source datagram =>
    match Datagram.parse s.config.mtu datagram, s.table.byAddress.get? source with
    | .ok p, some id => s.acceptedBy id p datagram.length now
    | _, _ => []
  | _ => []

/-- A datagram that can not be read comes to its end. -/
theorem settles_unreadable {datagram : Octets} {e : Failure Datagram.Error}
    {next : Packet → Outcome × Server} (hmail : a.mail mtu = [Datagram.parse mtu datagram])
    (ha : Action.accepted [a] = []) (hmtu : s.config.mtu = mtu)
    (hparse : Datagram.parse mtu datagram = .error e) :
    ∃ k, Settles mtu s [a] [] [] [] k (s.readDatagram datagram next).1.rest
        (s.readDatagram datagram next).2 ∧
      k.lost = (s.readDatagram datagram next).1.lost [.error e] := by
  rw [hparse] at hmail
  rw [readDatagram, hmtu, hparse]
  cases e with
  | refused e =>
    refine ⟨[(.error (.refused e), .dropped .malformed)], ?_, rfl⟩
    refine (notes_drop rfl rfl rfl s).settles hmail (.unreadable e) (by simp) ?_ rfl
    rw [ha]
    rfl
  | fault fault =>
    refine ⟨[(.error (.fault fault), .lost none fault)], ?_, rfl⟩
    refine ((SameMail.refl s).notes rfl rfl rfl).settles hmail (.lost _ fault) (by simp) ?_ rfl
    rw [ha]
    rfl

/-- A datagram that was kept comes to its end, or goes on as an accepted packet, or is lost at a
fault. -/
theorem settles_replay (hmtu : s.config.mtu = mtu) (hid : s.circuit? id = some c)
    (datagram : Octets) (now : Instant) :
    ∃ k, Settles mtu s [.replay id datagram] (s.acceptedAt now (.replay id datagram)) [] [] k
        (s.replay id datagram now).1.rest (s.replay id datagram now).2 ∧
      k.lost = (s.replay id datagram now).1.lost [Datagram.parse mtu datagram] := by
  rw [acceptedAt, hmtu]
  cases hparse : Datagram.parse mtu datagram with
  | error e => exact settles_unreadable rfl rfl hmtu hparse
  | ok p =>
    have hreplay : s.replay id datagram now = s.receive id p datagram.length now := by
      simp only [replay, readDatagram, hmtu, hparse]
    rw [hreplay]
    exact settles_receive (congrArg (fun x ↦ [x]) hparse) rfl hid

/-- A datagram from an address whose circuit is being set up. -/
theorem settles_keep {source : Address} {datagram : Octets} {l : List Octets}
    (hparse : Datagram.parse mtu datagram = .ok p) (hshards : 0 < s.pending.shards.length)
    (hl : s.pending.get? source = some l) :
    ∃ k, Settles mtu s [.handle source datagram] [] [] [] k [] (s.keep source datagram l) ∧
      k.lost = [] := by
  have hmail : Action.mail mtu (.handle source datagram) = [.ok p] := congrArg (fun x ↦ [x]) hparse
  rw [keep]
  split
  · refine ⟨[], ⟨?_, fun _ hx ↦ absurd hx List.not_mem_nil, fun cause ↦ (UInt64.add_zero _).symm,
      (List.append_nil _).symm, rfl, rfl, rfl⟩, rfl⟩
    have htotal := Sharded.total_insert (s := s.pending)
      (fun l ↦ (l.map (Datagram.parse mtu) : Multiset Reading)) hshards source (l ++ [datagram])
    rw [Sharded.share, hl, Option.map_some, Option.getD_some, List.map_append, ← Multiset.coe_add,
      ← add_assoc, add_right_comm, List.map_singleton, hparse] at htotal
    rw [List.flatMap_singleton, hmail, add_comm]
    simpa [kept] using (add_right_cancel htotal).symm
  · refine ⟨[(.ok p, .dropped .orphaned)], ?_, rfl⟩
    exact (notes_drop rfl rfl rfl s).settles hmail (.orphaned p) (by simp) rfl rfl

/-- A datagram from an address without a circuit. -/
theorem settles_request {source : Address} {datagram : Octets}
    (hparse : Datagram.parse mtu datagram = .ok p) (hshards : 0 < s.pending.shards.length)
    (hnew : s.pending.get? source = none) (length : Nat) :
    ∃ k, Settles mtu s [.handle source datagram] [] [] [] k [] (s.request source p length) ∧
      k.lost = [] := by
  have hmail : Action.mail mtu (.handle source datagram) = [.ok p] := congrArg (fun x ↦ [x]) hparse
  rw [request]
  split
  · refine ⟨[(.ok p, .dropped .orphaned)], ?_, rfl⟩
    exact (notes_drop rfl rfl rfl s).settles hmail (.orphaned p) (by simp) rfl rfl
  · rename_i hsetup
    have hsetup := not_not.1 hsetup
    split
    · rename_i e hread
      refine ⟨[(.ok p, .dropped .malformed)], ?_, rfl⟩
      exact (notes_drop rfl rfl rfl s).settles hmail (.unreadableRequest hsetup hread) (by simp) rfl
        rfl
    · rename_i request rest hread
      refine ⟨[(.ok p, .requested { address := source, request, packet := p, length })], ?_, rfl⟩
      refine Notes.settles ⟨?_, rfl, fun cause ↦ (UInt64.add_zero _).symm, (List.append_nil _).symm⟩
        hmail (.requested source length hsetup hread) (by simp) rfl rfl
      have htotal := Sharded.total_insert (s := s.pending)
        (fun l ↦ (l.map (Datagram.parse mtu) : Multiset Reading)) hshards source []
      rw [Sharded.share, hnew, Option.map_none, Option.getD_none, List.map_nil, Multiset.coe_nil,
        add_zero, add_zero] at htotal
      exact htotal

/-- An arriving datagram comes to its end, or is kept, or goes on as an accepted packet, or is lost
at a fault. -/
theorem settles_handle (hmtu : s.config.mtu = mtu) (hshards : 0 < s.pending.shards.length)
    {source : Address} (htable : ∀ id, s.table.byAddress.get? source = some id →
      ∃ c, s.circuit? id = some c) (datagram : Octets) (now : Instant) :
    ∃ k, Settles mtu s [.handle source datagram] (s.acceptedAt now (.handle source datagram)) [] [] k
        (s.handle source datagram now).1.rest (s.handle source datagram now).2 ∧
      k.lost = (s.handle source datagram now).1.lost [Datagram.parse mtu datagram] := by
  rw [acceptedAt, hmtu]
  cases hparse : Datagram.parse mtu datagram with
  | error e => exact settles_unreadable rfl rfl hmtu hparse
  | ok p =>
    have hread : Datagram.parse s.config.mtu datagram = .ok p := hmtu ▸ hparse
    cases hid : s.table.byAddress.get? source with
    | some id =>
      obtain ⟨c, hc⟩ := htable id hid
      have hhandle : s.handle source datagram now = s.receive id p datagram.length now := by
        simp only [handle, readDatagram, hread, hid]
      rw [hhandle]
      exact settles_receive (congrArg (fun x ↦ [x]) hparse) rfl hc
    | none =>
      cases hl : s.pending.get? source with
      | some l =>
        have hhandle : s.handle source datagram now = (.finished, s.keep source datagram l) := by
          simp only [handle, readDatagram, hread, hid, hl]
        rw [hhandle]
        exact settles_keep hparse hshards hl
      | none =>
        have hhandle : s.handle source datagram now =
            (.finished, s.request source p datagram.length) := by
          simp only [handle, readDatagram, hread, hid, hl]
        rw [hhandle]
        exact settles_request hparse hshards hl datagram.length

/-! ### Actions -/

/-- What the ways of datagrams rest on. -/
structure Regular (mtu : Nat) (s : Server) : Prop where
  config : s.config.mtu = mtu
  waiting : s.Waiting
  orderly : Orderly s
  distinct : s.pending.Distinct

/-- No change keeps datagrams twice for one address. -/
theorem Change.distinct {k : List Effect} (h : Change s k s') (hs : s.pending.Distinct) :
    s'.pending.Distinct := by
  cases h with
  | aside hsame => exact hsame.pending ▸ hs
  | adjust | abandon => exact hs
  | close reason => exact (sameMail_closeCircuit _ reason s).pending ▸ hs
  | keep | request => exact hs.insert _ _
  | grant =>
    rw [(requests_install ..).1]
    exact Sharded.Distinct.remove hs _
  | deny => exact Sharded.Distinct.remove hs _

/-- A server stays regular through changes. -/
theorem Regular.chain {k : List Effect} (hs : Regular mtu s) (h : Chain Change s k s') :
    Regular mtu s' :=
  h.preserves (motive := fun _ s' ↦ Regular mtu s') (k := []) hs fun hbefore hstep ↦
    ⟨(congrArg Config.mtu hstep.config).trans hbefore.config, hbefore.waiting.change hstep,
      hbefore.orderly.change hstep, hstep.distinct hbefore.distinct⟩

theorem isSend_of_serve {time : Instant} (ha : a ∈ (s.serve id time).1.rest) : a.isSend = true := by
  rw [serve] at ha
  split at ha
  · cases ha
  · split at ha
    · cases ha
    · split at ha
      · cases ha
      · dsimp only at ha
        split at ha
        · cases ha
        · exact Action.isSend_of_mem_sendAll ha

/-- **An action settles what it is about.** -/
theorem settles_perform (hs : Regular mtu s)
    (hduty : ∀ id, a.duty? = some id → id < s.circuits.length) (now : Instant) :
    ∃ k, Settles mtu s [a] (s.acceptedAt now a) [] [] k (s.perform now a).1.rest
        (s.perform now a).2 ∧ k.lost = (s.perform now a).1.lost (a.mail mtu) := by
  cases a with
  | transmit target datagram =>
    exact ⟨[], (sameMail_record rfl s).settles rfl rfl, rfl⟩
  | countSent n =>
    exact ⟨[], (sameMail_count (fun _ cause ↦ by cases cause <;> rfl) s).settles rfl rfl, rfl⟩
  | announce id =>
    exact ⟨[], (sameMail_announce id s).settles rfl rfl, rfl⟩
  | deliver id p =>
    obtain ⟨c, hc⟩ := exists_circuit_of_lt (hduty id rfl)
    exact settles_deliver mtu hc p now
  | replay id datagram =>
    obtain ⟨c, hc⟩ := exists_circuit_of_lt (hduty id rfl)
    exact settles_replay hs.config hc datagram now
  | handle source datagram =>
    refine settles_handle hs.config hs.waiting.shards (fun id hid ↦ ?_) datagram now
    obtain ⟨c, hc, -⟩ := (hs.orderly.consistent.byAddress ..).1 hid
    exact ⟨c, hc⟩
  | serve id time =>
    refine ⟨[], (sameMail_serve id time s).settles ?_ ?_, (Outcome.lost_nil _).symm⟩
    · exact Action.flatMap_mail_of_isSend fun _ ↦ isSend_of_serve
    · exact Action.accepted_of_isSend fun _ ↦ isSend_of_serve

/-- The packets that circuits accept while actions are done, until the task waits. -/
def acceptances (now : Instant) : List Action → Server → List (CircuitId × Packet)
  | [], _ => []
  | a :: rest, s =>
    match s.perform now a with
    | (.finished, s') => s.acceptedAt now a ++ acceptances now rest s'
    | _ => s.acceptedAt now a

/-- All that actions are about comes to an end of the same kind, which is neither counted nor
delivered. -/
theorem settles_all (fate : Fate) (hsuits : ∀ x ∈ l.flatMap (Action.mail mtu), Suits x fate)
    (haccepted : Action.accepted l = []) (hcause : fate.cause? = none) (hcircuit : fate.circuit? = none)
    (hrequest : fate.handshake? = none) (hdelivery : fate.delivery? = none) (s : Server) :
    Settles mtu s l [] [] (if fate = .forgotten then l.flatMap (Action.mail mtu) else [])
      ((l.flatMap (Action.mail mtu)).map (·, fate)) [] s := by
  have hnone : ∀ {α : Type} {f : Reading × Fate → Option α}, (∀ x, f (x, fate) = none) →
      ((l.flatMap (Action.mail mtu)).map (·, fate)).filterMap f = [] := by
    intro α f hf
    rw [List.filterMap_map]
    exact List.filterMap_eq_nil_iff.2 fun x _ ↦ hf x
  refine ⟨?_, fun x hx ↦ ?_, fun cause ↦ ?_, ?_, ?_, ?_, ?_⟩
  · rw [List.map_map, List.flatMap_nil, Multiset.coe_nil, add_zero]
    exact congrArg (fun m : List Reading ↦ (m : Multiset Reading) + s.kept mtu) (List.map_id _).symm
  · obtain ⟨y, hy, rfl⟩ := List.mem_map.1 hx
    exact hsuits y hy
  · rw [Endings.drops, hnone fun _ ↦ hcause]
    exact (UInt64.add_zero _).symm
  · rw [Endings.deliveries, hnone fun _ ↦ hdelivery, List.append_nil]
  · rw [haccepted, Endings.accepted, hnone fun x ↦ by cases x.toOption <;> simp [hcircuit]]
    rfl
  · rw [Endings.requests, hnone fun _ ↦ hrequest]
  · rw [Endings.forgotten]
    split
    · subst_vars
      rw [List.filter_map, List.map_map, List.filter_eq_self.2 (by simp)]
      exact List.map_id _
    · rw [List.map_eq_nil_iff, List.filter_eq_nil_iff]
      intro x hx
      obtain ⟨y, -, rfl⟩ := List.mem_map.1 hx
      simpa using ‹¬fate = .forgotten›

/-- What a fault makes a task forget is lost. -/
theorem settles_lost (haccepted : Action.accepted l = []) (fault : Fault) (s : Server) :
    Settles mtu s l [] [] [] ((l.flatMap (Action.mail mtu)).map (·, .lost none fault)) [] s :=
  settles_all (.lost none fault) (fun x _ ↦ .lost x fault) haccepted rfl rfl rfl rfl s

/-- Where a fault loses datagrams, these are the losses. -/
theorem lost_map (l : List Reading) (id : Option CircuitId) (fault : Fault) :
    Endings.lost (l.map (·, .lost id fault)) = l.map (·, fault) := by
  rw [Endings.lost, List.filterMap_map, ← List.filterMap_eq_map]
  rfl

/-- What a part of a task has left when a fault ends it: the action at fault, and those that were to come
after it. -/
def stranded (now : Instant) : List Action → Server → List Action
  | [], _ => []
  | a :: rest, s =>
    match s.perform now a with
    | (.finished, s') => stranded now rest s'
    | (.waiting _, _) => []
    | (.failed _, _) => a :: rest

/-- **A part of a task settles** what the task has, and loses what a fault leaves. -/
theorem settles_advance (hs : Regular mtu s) (htimely : Action.Timely l)
    (hduty : ∀ a ∈ l, ∀ id, a.duty? = some id → id < s.circuits.length) (now : Instant) :
    ∃ k, Settles mtu s l (s.acceptances now l) [] [] k (s.advance now l).1.rest
        (s.advance now l).2 ∧
      k.lost = (s.advance now l).1.lost ((s.stranded now l).flatMap (Action.mail mtu)) := by
  induction l generalizing s with
  | nil => exact ⟨[], settles_refl mtu [] s, rfl⟩
  | cons a l ih =>
    obtain ⟨k, hk, hlost⟩ := settles_perform hs (hduty a List.mem_cons_self) now
    obtain ⟨k', hwork, -⟩ := accounts_perform now a s
    have hfirst := hk.frame l
    rcases heq : s.perform now a with ⟨_ | first | fault, s₁⟩ <;>
      rw [heq] at hfirst hlost hwork <;> simp only [advance, acceptances, stranded, heq]
    · have hregular := hs.chain (chain_of_work hwork)
      obtain ⟨k₁, hk₁, hlost₁⟩ := ih hregular htimely.tail fun b hb id hid ↦ by
        rw [length_of_work hwork]
        exact hduty b (List.mem_cons_of_mem a hb) id hid
      refine ⟨k ++ k₁, hfirst.comp hk₁, ?_⟩
      rw [Endings.lost_append, hlost]
      exact hlost₁
    · exact ⟨k, hfirst, hlost⟩
    · have haccepted := Action.accepted_of_reports (reports_eq_nil_of_failed htimely heq)
      have hall := hfirst.comp (settles_lost haccepted fault s₁)
      rw [List.append_nil] at hall
      refine ⟨_, hall, ?_⟩
      rw [Endings.lost_append, hlost, lost_map, List.flatMap_cons]
      exact (List.map_append ..).symm

end Server

end DatagramCircuits
