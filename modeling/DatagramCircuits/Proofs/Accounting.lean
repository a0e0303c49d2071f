import DatagramCircuits.Proofs.Ways
/-!
# Every datagram is accounted for

Whatever happens to a running server, each datagram that was taken to be decoded has come to one end,
or is kept for a circuit that is being set up, or waits in a task to be seen to. The counters, the
effects, and the requests tell of the ends (`RunningServer.Accounted`).

**One step is settled** by what its task does, and by what a decision does to what was kept
(`RunningServer.settles_step`); a history is settled by its steps, one after another.

A fault ends a task. Then the datagrams that the task had are lost, and nothing tells of them. Which ones
those are is read off the step at whose fault the task ended (`RunningServer.losses`), and they are all
that is ever lost.
-/

namespace DatagramCircuits

namespace Server

variable {mtu : Nat} {s s' : Server} {position : Nat} {h : Handshake} {c : Circuit} {now : Instant}
  {rest : List Action}

/-! ### What has nothing to do with datagrams -/

/-- A datagram that arrives is not yet taken to be decoded. -/
theorem sameMail_arrive (source : Address) (datagram : Octets) (s : Server) :
    SameMail s (s.arrive source datagram) := by
  have hcount : SameMail s (s.count Counters.countReceived) :=
    sameMail_count (fun _ cause ↦ by cases cause <;> rfl) s
  rw [arrive]
  split
  · exact ⟨hcount.pending, hcount.authorizing, hcount.dropped, hcount.deliveries⟩
  · exact hcount

/-- Sending has nothing to do with arriving datagrams. -/
theorem sameMail_send (agent : Uuid) (category : Category) (m : Message) (reliable notify : Bool)
    (s : Server) : SameMail s ((s.send agent category m reliable notify).toOption.getD s) := by
  rw [send]
  split
  · exact .refl s
  · rename_i id c _
    cases c.send category m reliable notify with
    | error e => exact .refl s
    | ok c' => exact sameMail_putCircuit id c' s

/-- Nor has closing a circuit for the application. -/
theorem sameMail_close (agent : Uuid) (reason : CloseReason) (s : Server) :
    SameMail s (s.close agent reason).2 := by
  rw [close]
  split
  · exact .refl s
  · exact sameMail_closeCircuit ..

/-- Nor has pausing or resuming. -/
theorem sameMail_changePhase (agent : Uuid) (change : Circuit → Bool × Circuit) (s : Server) :
    SameMail s (s.changePhase agent change).2 := by
  rw [changePhase]
  split
  · exact .refl s
  · exact sameMail_putCircuit ..

/-- Nor has the close of a silent circuit. -/
theorem sameMail_closeSilentAt (position : Nat) (s : Server) :
    SameMail s (s.closeSilentAt position) := by
  rw [closeSilentAt]
  split
  · exact .refl s
  · have haside : SameMail s { s with closing := s.closing.eraseIdx position } :=
      ⟨rfl, rfl, fun _ ↦ rfl, rfl⟩
    exact haside.trans (sameMail_closeCircuit ..)

/-- Nor has the end of a notice. -/
theorem sameMail_endNotice (notice : Notice) (s : Server) : SameMail s (s.endNotice notice) := by
  rw [endNotice]
  split <;> exact ⟨rfl, rfl, fun _ ↦ rfl, rfl⟩

/-- Nor has the beginning of one. -/
theorem sameMail_beginNotice {notice : Option Notice}
    (hnotice : s.beginNotice now = some (notice, s')) : SameMail s s' := by
  rw [beginNotice] at hnotice
  split at hnotice
  · cases hnotice
  · rename_i taken notices _
    have haside : SameMail s { s with notices } := ⟨rfl, rfl, fun _ ↦ rfl, rfl⟩
    split at hnotice
    · obtain ⟨-, rfl⟩ := Prod.mk.inj (Option.some.inj hnotice)
      exact ⟨rfl, rfl, fun _ ↦ rfl, rfl⟩
    · split at hnotice <;> obtain ⟨-, rfl⟩ := Prod.mk.inj (Option.some.inj hnotice)
      · exact ⟨rfl, rfl, fun _ ↦ rfl, rfl⟩
      · exact haside.trans (sameMail_record rfl _)

/-! ### Decisions -/

/-- The datagrams that are kept for an address. -/
def keptFor (a : Address) (s : Server) : List Octets :=
  (s.pending.get? a).getD []

/-- What is kept for an address is taken out. -/
theorem kept_remove (hs : Regular mtu s) (a : Address)
    (hpending : s'.pending = (s.pending.remove a).2) :
    s.kept mtu = ((s.keptFor a).map (Datagram.parse mtu) : List Reading) + s'.kept mtu := by
  have htotal := hs.distinct.total_remove
    (fun l : List Octets ↦ (l.map (Datagram.parse mtu) : Multiset Reading)) hs.waiting.shards a
  rw [kept, kept, hpending, ← htotal, add_comm, keptFor, Sharded.share]
  cases s.pending.get? a <;> rfl

/-- A request is decided, and what was kept for it is taken out. -/
theorem settles_decided (hs : Regular mtu s) (hposition : s.authorizing[position]? = some h)
    (hauthorizing : s'.authorizing = s.authorizing.eraseIdx position)
    (hdropped : ∀ cause, s'.counters.dropped cause = s.counters.dropped cause)
    (hdeliveries : Effect.deliveries s'.effects = Effect.deliveries s.effects)
    (hpending : s'.pending = (s.pending.remove h.address).2)
    (hrest : rest.flatMap (Action.mail mtu) = (s.keptFor h.address).map (Datagram.parse mtu))
    (haccepted : Action.accepted rest = []) : Settles mtu s [] [] [h] [] [] rest s' where
  balance := by
    rw [kept_remove hs h.address hpending, hrest, add_assoc]
    rfl
  suits x hx := absurd hx List.not_mem_nil
  dropped cause := (hdropped cause).trans (UInt64.add_zero _).symm
  delivered := hdeliveries.trans (List.append_nil _).symm
  accepted := by
    rw [haccepted]
    rfl
  requested := by
    obtain ⟨hlt, rfl⟩ := List.getElem?_eq_some_iff.1 hposition
    have hsplit := List.getElem_cons_eraseIdx_perm hlt
    rw [hauthorizing, ← Multiset.coe_eq_coe.2 hsplit, ← Multiset.cons_coe]
    exact (add_zero _).trans ((Multiset.singleton_add ..).symm.trans (add_comm ..))
  forgotten := rfl

/-- Once a circuit is entered, what is left of its installation is to close others. -/
theorem sameMail_install (address : Address) (c : Circuit) (forest : Forest) (s : Server) :
    SameMail (s.entered address c forest) (s.install address c forest).2 :=
  sameMail_supersede ..

/-- Datagrams that were kept are read as they were before. -/
theorem flatMap_mail_replays (mtu : Nat) (id : CircuitId) (l : List Octets) :
    (l.map (Action.replay id ·)).flatMap (Action.mail mtu) = l.map (Datagram.parse mtu) := by
  rw [List.flatMap_map]
  exact (List.map_eq_flatMap ..).symm

theorem accepted_replays (id : CircuitId) (l : List Octets) :
    Action.accepted (l.map (.replay id ·)) = [] := by
  refine List.filterMap_eq_nil_iff.2 fun a ha ↦ ?_
  obtain ⟨d, -, rfl⟩ := List.mem_map.1 ha
  rfl

/-- What was kept for a request that was granted, where a fault keeps the new circuit from taking the
request in, with that fault. When no circuit could be opened, what was kept stays where it is. -/
def forsaken (h : Handshake) (session : Session) (now : Instant) (s : Server) : List (Octets × Fault) :=
  match Circuit.opened session h.address s.config s.root now s.forest with
  | .error _ => []
  | .ok (c, _) =>
    match (c.receive h.packet h.length now).1 with
    | .error fault => (s.keptFor h.address).map (·, fault)
    | .ok _ => []

/-- A request is decided, and nothing else happens. -/
theorem settles_opening_of_fault (hposition : s.authorizing[position]? = some h) (forest : Forest) :
    Settles mtu s [] [] [h] [] [] [] { s.decided position with forest } := by
  refine ⟨rfl, fun x hx ↦ absurd hx List.not_mem_nil, fun cause ↦ (UInt64.add_zero _).symm,
    (List.append_nil _).symm, rfl, ?_, rfl⟩
  obtain ⟨hlt, rfl⟩ := List.getElem?_eq_some_iff.1 hposition
  rw [← Multiset.coe_eq_coe.2 (List.getElem_cons_eraseIdx_perm hlt), ← Multiset.cons_coe]
  exact (add_zero _).trans ((Multiset.singleton_add ..).symm.trans (add_comm ..))

/-- The books when the set-up of a circuit begins, or a fault keeps it from that. -/
theorem settles_establish (hs : Regular mtu s) (hposition : s.authorizing[position]? = some h)
    (session : Session) (now : Instant) :
    (∃ k fault, ((s.decided position).establish h session now).1 = .error fault ∧
      Settles mtu s [] [] [h] [] k [] ((s.decided position).establish h session now).2 ∧
      k.lost = ((s.decided position).forsaken h session now).map
        (Prod.map (Datagram.parse mtu) id)) ∨
    ∃ acks rest, ((s.decided position).establish h session now).1 = .ok (acks, rest) ∧
      Settles mtu s [] [] [h] [] [] rest ((s.decided position).establish h session now).2 := by
  cases hopened : Circuit.opened session h.address (s.decided position).config
    (s.decided position).root now (s.decided position).forest with
  | error e =>
    obtain ⟨fault, forest⟩ := e
    have hestablish : (s.decided position).establish h session now =
        (.error fault, { s.decided position with forest }) := by
      rw [establish, hopened]
    refine .inl ⟨[], fault, by rw [hestablish], ?_, by simp only [forsaken, hopened]; rfl⟩
    rw [hestablish]
    exact settles_opening_of_fault hposition forest
  | ok opened =>
    obtain ⟨c, forest⟩ := opened
    have hsame := (s.decided position).sameMail_install h.address c forest
    -- the circuit is installed in either case, with all that was kept for it ahead
    have hput : ∀ c', Settles mtu s [] [] [h] [] [] (.announce s.circuits.length ::
        (s.keptFor h.address).map (.replay s.circuits.length ·))
        (((s.decided position).install h.address c forest).2.putCircuit s.circuits.length c') :=
      fun c' ↦ settles_decided hs hposition hsame.authorizing hsame.dropped hsame.deliveries
        hsame.pending (flatMap_mail_replays ..) (accepted_replays s.circuits.length _)
    cases hreceive : (c.receive h.packet h.length now).1 with
    | error fault =>
      have hestablish := establish_of_fault (s := s.decided position) hopened hreceive
      have haccepted : Action.accepted (.announce s.circuits.length ::
          (s.keptFor h.address).map (.replay s.circuits.length ·)) = [] := accepted_replays ..
      have hall := (hput (c.receive h.packet h.length now).2).comp (settles_lost haccepted fault _)
      refine .inl ⟨_, fault, by rw [hestablish], by rw [hestablish]; exact hall, ?_⟩
      have hmail : (Action.announce s.circuits.length ::
          (s.keptFor h.address).map (.replay s.circuits.length ·)).flatMap (Action.mail mtu) =
          (s.keptFor h.address).map (Datagram.parse mtu) := flatMap_mail_replays ..
      simp only [forsaken, hopened, hreceive]
      rw [List.nil_append, lost_map, hmail, List.map_map, List.map_map]
      rfl
    | ok disposition =>
      have hestablish := establish_of_opened (s := s.decided position) hopened hreceive
      refine .inr ⟨_, _, by rw [hestablish], ?_⟩
      rw [hestablish]
      exact hput _

/-- Where the set-up of a circuit begins, nothing is lost. -/
theorem forsaken_of_establish {session : Session} {acks : List Octets}
    (hestablish : (s.establish h session now).1 = .ok (acks, rest)) :
    s.forsaken h session now = [] := by
  cases hopened : Circuit.opened session h.address s.config s.root now s.forest with
  | error e => simp only [forsaken, hopened]
  | ok opened =>
    obtain ⟨c, forest⟩ := opened
    cases hreceive : (c.receive h.packet h.length now).1 with
    | error fault =>
      rw [establish_of_fault hopened hreceive] at hestablish
      cases hestablish
    | ok disposition => simp only [forsaken, hopened, hreceive]

/-- What was kept for a request that is denied is forgotten. -/
theorem settles_deny (hs : Regular mtu s) (hposition : s.authorizing[position]? = some h) :
    ∃ k, Settles mtu s [] [] [h] ((s.keptFor h.address).map (Datagram.parse mtu)) k []
      ((s.decided position).deny h) ∧ k.lost = [] := by
  have hmail := flatMap_mail_replays mtu 0 (s.keptFor h.address)
  have haccepted := accepted_replays 0 (s.keptFor h.address)
  have hfirst : Settles mtu s [] [] [h] [] [] ((s.keptFor h.address).map (.replay 0 ·))
      ((s.decided position).deny h) :=
    settles_decided hs hposition rfl (fun cause ↦ by cases cause <;> rfl) rfl rfl hmail haccepted
  have hforgotten : Settles mtu ((s.decided position).deny h) _ [] [] _ _ [] _ :=
    settles_all .forgotten (fun x hx ↦ ?_) haccepted rfl rfl rfl rfl _
  · rw [if_pos rfl, hmail] at hforgotten
    refine ⟨_, hfirst.comp hforgotten, List.filterMap_eq_nil_iff.2 fun x hx ↦ ?_⟩
    obtain ⟨y, -, rfl⟩ := List.mem_map.1 hx
    rfl
  · -- what is kept could be read
    rw [hmail] at hx
    obtain ⟨d, hd, rfl⟩ := List.mem_map.1 hx
    rw [keptFor] at hd
    cases hkept : s.pending.get? h.address with
    | none =>
      rw [hkept] at hd
      cases hd
    | some kept =>
      rw [hkept] at hd
      obtain ⟨p, hp⟩ := (hs.waiting.keepable _ kept hkept).2 d hd
      rw [hs.config] at hp
      rw [hp]
      exact .forgotten p

end Server

namespace RunningServer

open Server

variable {mtu : Nat} {r r' r₀ : RunningServer} {now : Instant} {e : Step} {l before : List Action}
  {others : List (List Action)} {s : Server} {history : List (Instant × Step)} {fault : Fault}

/-! ### What happens in a history -/

/-- The datagram that a step takes to be decoded. -/
def taken? (e : Step) (r : RunningServer) : Option (Address × Octets) :=
  match e, r.decoding with
  | .decode, .idle => r.server.inbox.head?
  | _, _ => none

/-- The request that a step decides. -/
def decided? (e : Step) (r : RunningServer) : Option Handshake :=
  match e with
  | .authorize position _ => r.server.authorizing[position]?
  | _ => none

/-- The datagrams that are kept for a request that a step denies. -/
def refused (e : Step) (r : RunningServer) : List Octets :=
  match e with
  | .authorize position .denied =>
    (r.server.authorizing[position]?).elim [] fun h ↦ r.server.keptFor h.address
  | _ => []

/-- The packets that circuits accept in a step. -/
def accepts (now : Instant) (e : Step) (r : RunningServer) : List (CircuitId × Packet) :=
  match r.part? now e with
  | none => []
  | some (l, s) => s.acceptances now l

/-- The datagrams that are lost in a step, each with the fault that it is lost by. Where a fault ends a
task, they are those of the action at fault and of the actions that were to come after it. Where a fault
keeps a circuit from being set up, they are those that were kept for it. -/
def losses (mtu : Nat) (now : Instant) (e : Step) (r : RunningServer) : List (Reading × Fault) :=
  match r.part? now e with
  | some (l, s) => (s.advance now l).1.lost ((s.stranded now l).flatMap (Action.mail mtu))
  | none =>
    match e with
    | .authorize position (.granted session) =>
      (r.server.authorizing[position]?).elim [] fun h ↦
        ((r.server.decided position).forsaken h session now).map (Prod.map (Datagram.parse mtu) id)
    | _ => []

/-- What happens in a history, put together from what happens in its steps. -/
def collect {α : Type} (f : Instant → Step → RunningServer → List α) :
    List (Instant × Step) → RunningServer → List α
  | [], _ => []
  | (now, e) :: history, r => f now e r ++ collect f history (r.step now e)

/-- The datagrams that are taken to be decoded in a history. -/
def takings (history : List (Instant × Step)) (r : RunningServer) : List (Address × Octets) :=
  collect (fun _ e r ↦ (r.taken? e).toList) history r

/-- The actions that decode datagrams. -/
def decodings (l : List (Address × Octets)) : List Action :=
  l.map fun x ↦ .handle x.1 x.2

/-! ### Steps -/

/-- What the accounting of datagrams rests on. -/
structure InOrder (mtu : Nat) (r : RunningServer) : Prop where
  regular : Regular mtu r.server
  entrusted : Entrusted r
  sound : Sound r

theorem InOrder.step (h : InOrder mtu r) (now : Instant) (e : Step) : InOrder mtu (r.step now e) := by
  obtain ⟨k, hchain⟩ := chain_of_step now e r
  obtain ⟨k', hadvances⟩ := advances_of_step h.sound now e
  exact ⟨h.regular.chain hchain, entrusted_of_step h.entrusted now e, hadvances.sound⟩

/-- A step is settled, and loses what the step at fault is to lose. -/
def SettlesStep (mtu : Nat) (now : Instant) (e : Step) (r : RunningServer) : Prop :=
  ∃ k, Settles mtu r.server (decodings (r.taken? e).toList ++ r.tasks.flatten) (r.accepts now e)
      (r.decided? e).toList ((r.refused e).map (Datagram.parse mtu)) k (r.step now e).tasks.flatten
      (r.step now e).server ∧ k.lost = r.losses mtu now e

/-- A step of a task loses what the task had when a fault ended it. -/
theorem losses_of_part (hpart : r.part? now e = some (l, s)) :
    r.losses mtu now e =
      (s.advance now l).1.lost ((s.stranded now l).flatMap (Action.mail mtu)) := by
  unfold losses
  rw [hpart]

/-- A step that is done at once loses nothing. -/
theorem losses_of_undecided (hpart : r.part? now e = none) (hdecided : r.decided? e = none) :
    r.losses mtu now e = [] := by
  unfold losses
  rw [hpart]
  cases e with
  | authorize position result =>
    cases result with
    | granted session =>
      rw [decided?] at hdecided
      simp only [hdecided, Option.elim_none]
    | denied => rfl
  | _ => rfl

/-- Where no task goes on and nothing is decided. -/
theorem settlesStep_of_same (hsame : SameMail r.server (r.step now e).server)
    (htasks : (r.step now e).tasks = r.tasks) (htaken : r.taken? e = none)
    (hpart : r.part? now e = none) (hdecided : r.decided? e = none) (hrefused : r.refused e = []) :
    r.SettlesStep mtu now e := by
  refine ⟨[], ?_, (losses_of_undecided hpart hdecided).symm⟩
  rw [htaken, accepts, hpart, hdecided, hrefused, htasks]
  exact hsame.settles rfl rfl

/-- A task and the others are all tasks, in another order. -/
theorem Splits.flatten_perm {tasks : List (List Action)} (h : Splits tasks l others) :
    tasks.flatten.Perm (l ++ others.flatten) := by
  rcases h with h | ⟨rfl, h⟩
  · exact h.flatten
  · exact h.flatten

/-- Where a task goes through actions, after the server was made ready for them. -/
theorem settlesStep_of_part (hs : Regular mtu s)
    (hpart : r.part? now e = some (l, s)) (htimely : Action.Timely l)
    (hduty : ∀ a ∈ l, ∀ id, a.duty? = some id → id < s.circuits.length)
    (hready : Settles mtu r.server (decodings (r.taken? e).toList ++ before) [] (r.decided? e).toList
      ((r.refused e).map (Datagram.parse mtu)) [] l s)
    (hserver : (r.step now e).server = (s.advance now l).2) (hbefore : Splits r.tasks before others)
    (hafter : Splits (r.step now e).tasks (s.advance now l).1.rest others) :
    r.SettlesStep mtu now e := by
  obtain ⟨k, hk, hlost⟩ := settles_advance hs htimely hduty now
  have hall := (hready.comp hk).frame others.flatten
  rw [List.append_nil, List.append_nil, List.nil_append] at hall
  refine ⟨k, ?_, hlost.trans (losses_of_part hpart).symm⟩
  rw [accepts, hpart, hserver]
  refine hall.perm ?_ hafter.flatten_perm.symm
  rw [List.append_assoc]
  exact hbefore.flatten_perm.append_left _

/-- Only decoding takes a datagram. -/
theorem taken?_of_ne (h : e ≠ .decode) : r.taken? e = none := by
  cases e with
  | decode => exact absurd rfl h
  | _ => rfl

/-- It takes one only when it is idle and something has arrived. -/
theorem taken?_of_idle (h : e = .decode → r.decoding = .idle → r.server.inbox = []) :
    r.taken? e = none := by
  cases e with
  | decode =>
    cases hloop : r.decoding with
    | idle => simp only [taken?, hloop, h rfl hloop, List.head?_nil]
    | busy rest | ended => simp only [taken?, hloop]
  | _ => rfl

theorem regular_taken (hs : Regular mtu s) (inbox : List (Address × Octets)) :
    Regular mtu { s with inbox } :=
  hs.chain (chain_of_work (work_of_calm (calm_aside ⟨rfl, rfl, rfl, rfl, rfl, rfl, rfl, rfl⟩ rfl)))

/-- What a task begins with is owed to circuits that are there. -/
theorem Begins.duty?_lt (h : Begins e r s l) {a : Action} (ha : a ∈ l) {id : CircuitId}
    (hid : a.duty? = some id) : id < s.circuits.length := by
  cases h with
  | arrival =>
    rw [List.mem_singleton.1 ha] at hid
    cases hid
  | round =>
    obtain ⟨j, -, rfl⟩ := List.mem_map.1 ha
    cases hid
  | setup kept hsends hlength =>
    rw [hlength]
    rcases List.mem_append.1 ha with ha | ha
    · rw [Action.duty?_of_isSend (hsends a ha)] at hid
      cases hid
    · rcases List.mem_cons.1 ha with rfl | ha
      · rw [← Option.some.inj hid]
        exact Nat.lt_succ_self _
      · obtain ⟨d, -, rfl⟩ := List.mem_map.1 ha
        rw [← Option.some.inj hid]
        exact Nat.lt_succ_self _

/-- Where a task goes on. -/
theorem settlesStep_of_goesOn (h : InOrder mtu r) (he : goesOn e = true) (now : Instant) :
    r.SettlesStep mtu now e := by
  have hdecided : r.decided? e = none := by cases e <;> first | rfl | cases he
  have hrefused : r.refused e = [] := by cases e <;> first | rfl | cases he
  cases conduct_of_goesOn he now r with
  | idle hserver htasks hpart hidle =>
    exact settlesStep_of_same (hserver ▸ .refl _) htasks (taken?_of_idle hidle) hpart hdecided hrefused
  | go hengaged hpart hserver hbefore hafter =>
    cases hengaged with
    | @decode source datagram inbox hloop hinbox =>
      have haside : SameMail r.server { r.server with inbox } := ⟨rfl, rfl, fun _ ↦ rfl, rfl⟩
      have hbegins : Begins .decode r { r.server with inbox } [.handle source datagram] :=
        .arrival rfl rfl
      refine settlesStep_of_part (regular_taken h.regular inbox) hpart hbegins.timely
        (fun a ha id hid ↦ hbegins.duty?_lt ha hid) ?_ hserver hbefore hafter
      simp only [taken?, hloop, hinbox, List.head?_cons, hdecided, hrefused]
      exact haside.settles rfl rfl
    | @round order =>
      have hbegins : Begins (.beginRound order) r r.server (r.server.roundOf order now) :=
        .round rfl rfl
      refine settlesStep_of_part h.regular hpart hbegins.timely
        (fun a ha id hid ↦ hbegins.duty?_lt ha hid) ?_ hserver hbefore hafter
      refine (SameMail.refl _).settles (List.flatMap_eq_nil_iff.2 fun a ha ↦ ?_)
        (List.filterMap_eq_nil_iff.2 fun a ha ↦ ?_)
      · obtain ⟨j, -, rfl⟩ := List.mem_map.1 ha
        rfl
      · obtain ⟨j, -, rfl⟩ := List.mem_map.1 ha
        rfl
    | resume hne hl =>
      refine settlesStep_of_part h.regular hpart (h.sound.timely _ hl)
        (fun a ha id hid ↦ duty?_lt_of_mem h.entrusted h.sound hl ha hid) ?_ hserver hbefore hafter
      rw [taken?_of_ne hne, hdecided, hrefused]
      exact settles_refl mtu _ r.server

/-- The denial of a request is settled by what it forgets. -/
theorem settlesStep_deny (h : InOrder mtu r) (position : Nat) (now : Instant) :
    r.SettlesStep mtu now (.authorize position .denied) := by
  cases hposition : r.server.authorizing[position]? with
  | none =>
    have hstep := step_authorize_of_none hposition .denied now
    refine settlesStep_of_same (hstep.symm ▸ .refl _) (congrArg tasks hstep) rfl rfl ?_ ?_ <;>
      simp only [decided?, refused, hposition, Option.elim_none]
  | some request =>
    obtain ⟨k, hk, hlost⟩ := settles_deny h.regular hposition
    have hstep : r.step now (.authorize position .denied) =
        { r with server := (r.server.decided position).deny request } :=
      step_authorize_of_some hposition .denied now
    refine ⟨k, ?_, hlost⟩
    rw [hstep, decided?, refused, hposition]
    exact hk.frame r.tasks.flatten

/-- The grant of a request is settled by what the new circuit takes in, or by what a fault makes it
lose. -/
theorem settlesStep_grant (h : InOrder mtu r) (position : Nat) (session : Session) (now : Instant) :
    r.SettlesStep mtu now (.authorize position (.granted session)) := by
  cases hposition : r.server.authorizing[position]? with
  | none =>
    have hstep := step_authorize_of_none hposition (.granted session) now
    refine settlesStep_of_same (hstep.symm ▸ .refl _) (congrArg tasks hstep) rfl ?_ ?_ rfl <;>
      simp only [part?, decided?, hposition]
  | some request =>
    obtain ⟨k', hchain, -⟩ := changesQuietly_establish hposition session now
    have hstep := step_authorize_of_some hposition (.granted session) now
    rcases hestablish : (r.server.decided position).establish request session now with ⟨o, s⟩
    have hsettles := settles_establish h.regular hposition session now
    rw [hestablish] at hsettles hchain
    -- the request itself is settled; what is left of its task depends on whether there is anything to send
    rcases hsettles with ⟨k, fault, rfl, hk, hlost⟩ | ⟨acks, rest, rfl, hk⟩
    · have hpart : r.part? now (.authorize position (.granted session)) = none := by
        simp only [part?, hposition, hestablish]
      refine ⟨k, ?_, ?_⟩
      · rw [accepts, hpart, hstep, decided?, hposition, conclude, hestablish]
        exact hk.frame r.tasks.flatten
      · simp only [losses, hpart, hposition, hlost, Option.elim_some]
    · obtain ⟨hlength, kept, rfl⟩ := eq_of_establish hestablish
      cases acks with
      | nil =>
        have hpart : r.part? now (.authorize position (.granted session)) =
            some (.announce r.server.circuits.length ::
              kept.map (.replay r.server.circuits.length ·), s) := by
          simp only [part?, hposition, hestablish]
        have hbegins : Begins (.authorize position (.granted session)) r s
            ([] ++ .announce r.server.circuits.length ::
              kept.map (.replay r.server.circuits.length ·)) :=
          .setup kept (fun a ha ↦ absurd ha List.not_mem_nil) hlength
        refine settlesStep_of_part (h.regular.chain hchain) hpart hbegins.timely
          (fun a ha id hid ↦ hbegins.duty?_lt ha hid) ?_ ?_ (.inr ⟨rfl, List.Perm.refl _⟩) ?_
        · rw [decided?, hposition]
          exact hk
        · rw [hstep, server_settled, conclude, hestablish]
        · rw [hstep, conclude, hestablish]
          exact tasks_settled ..
      | cons d acks =>
        have hpart : r.part? now (.authorize position (.granted session)) = none := by
          simp only [part?, hposition, hestablish]
        have hnone : (r.server.decided position).forsaken request session now = [] :=
          forsaken_of_establish (congrArg Prod.fst hestablish)
        refine ⟨[], ?_, by simp only [losses, hpart, hposition, hnone, Option.elim_some]; rfl⟩
        rw [accepts, hpart, hstep, decided?, hposition, server_settled, conclude, hestablish]
        exact ((hk.sends request.address (d :: acks)).frame r.tasks.flatten).perm (List.Perm.refl _)
          (tasks_settled r (.waiting _, s)).flatten_perm.symm

/-- A step that is done at once has nothing to do with datagrams that were taken. -/
theorem Incident.sameMail {s' : Server} (h : Incident now s e s') : SameMail s s' := by
  cases h with
  | nothing => exact .refl s
  | arrive => exact sameMail_arrive ..
  | closeSilent => exact sameMail_closeSilentAt ..
  | beginNotice h => exact sameMail_beginNotice h
  | endNotice => exact sameMail_endNotice ..
  | send => exact sameMail_send ..
  | close => exact sameMail_close ..
  | pause | resume => exact sameMail_changePhase ..
  | stopWorkers | shutdown => exact ⟨rfl, rfl, fun _ ↦ rfl, rfl⟩

/-- Where a step is done at once. -/
theorem settlesStep_of_atOnce (he : atOnce e = true) (now : Instant) (r : RunningServer) :
    r.SettlesStep mtu now e := by
  obtain ⟨hincident, htasks, hpart⟩ := incident_of_atOnce he now r
  have htaken : r.taken? e = none := taken?_of_ne (by rintro rfl; cases he)
  refine settlesStep_of_same hincident.sameMail htasks htaken hpart ?_ ?_ <;>
    cases e <;> first | rfl | cases he

/-- **Every step is settled.** -/
theorem settles_step (h : InOrder mtu r) (now : Instant) (e : Step) : r.SettlesStep mtu now e := by
  cases e with
  | authorize position result =>
    cases result with
    | granted session => exact settlesStep_grant h position session now
    | denied => exact settlesStep_deny h position now
  | decode | resumeDecoding | resumeSetup | beginRound | resumeRound =>
    exact settlesStep_of_goesOn h rfl now
  | _ => exact settlesStep_of_atOnce rfl now r

/-! ### Histories -/

/-- **A history is settled,** and loses what its steps lose. -/
theorem settles_run (h : InOrder mtu r) (history : List (Instant × Step)) :
    ∃ k, Settles mtu r.server (decodings (takings history r) ++ r.tasks.flatten)
      (collect accepts history r) (collect (fun _ e r ↦ (r.decided? e).toList) history r)
      ((collect (fun _ e r ↦ r.refused e) history r).map (Datagram.parse mtu)) k
      (r.run history).tasks.flatten (r.run history).server ∧ k.lost = collect (losses mtu) history r := by
  induction history generalizing r with
  | nil => exact ⟨[], settles_refl .., rfl⟩
  | cons e history ih =>
    obtain ⟨now, e⟩ := e
    obtain ⟨k, hk, hlost⟩ := settles_step h now e
    obtain ⟨k', hk', hlost'⟩ := ih (h.step now e)
    have hstep := (hk.frame (decodings (takings history (r.step now e)))).perm
      (List.Perm.refl _) List.perm_append_comm
    refine ⟨k ++ k', ?_, ?_⟩
    · have hall := hstep.comp hk'
      rw [← List.map_append] at hall
      refine hall.perm ?_ (List.Perm.refl _)
      rw [takings, collect, decodings, List.map_append, List.append_assoc, List.append_assoc]
      exact List.perm_append_comm.append_left _
    · rw [Endings.lost_append, hlost, hlost', collect]

/-- The message of a packet that a circuit accepted, if the application is to have it. -/
def deliverable? (x : CircuitId × Packet) : Option (CircuitId × ReceivedMessage) :=
  x.2.message?.map (x.1, ·)

/-- Of all ends that suit what a circuit accepted, only a delivery is one of a message for the
application. -/
theorem filterMap_deliverable? {k : Endings} (h : ∀ x ∈ k, Suits x.1 x.2) :
    k.accepted.filterMap deliverable? = k.deliveries := by
  rw [Endings.accepted, List.filterMap_filterMap, Endings.deliveries]
  refine List.filterMap_congr fun x hx ↦ ?_
  obtain ⟨reading, fate⟩ := x
  have hcontrol : ∀ {p : Packet} {m : Control} {rest : Octets},
      Control.read p.id p.payload = .ok (some m, rest) → p.message? = none := fun hread ↦ by
    rw [Packet.message?, hread]
  cases h _ hx with
  | unreadable | unreadableRequest | orphaned | duplicate | requested | forgotten => rfl
  | lost => cases reading.toOption <;> rfl
  | @garbled p e id hread =>
    have hmessage : p.message? = none := by rw [Packet.message?, hread]
    exact congrArg (Option.map (id, ·)) hmessage
  | controlled id hread => exact congrArg (Option.map (id, ·)) (hcontrol hread)
  | lostInControl id fault hread => exact congrArg (Option.map (id, ·)) (hcontrol hread)
  | delivered id hmessage => exact congrArg (Option.map (id, ·)) hmessage

/-- **What is known of all datagrams** after a history, where `k` are the ends that they have come to.
-/
structure Accounted (mtu : Nat) (history : List (Instant × Step)) (r₀ : RunningServer) (k : Endings) :
    Prop where
  /-- Each datagram that was taken to be decoded has come to one end, or a task still has it, or it is
  kept for a circuit that is being set up. -/
  complete : ((takings history r₀).map fun x ↦ Datagram.parse mtu x.2 : Multiset Reading) =
    ↑(k.map Prod.fst) + ↑((r₀.run history).tasks.flatten.flatMap (Action.mail mtu)) +
      (r₀.run history).server.kept mtu
  /-- The end suits what the datagram is. -/
  suits : ∀ x ∈ k, Suits x.1 x.2
  /-- The counters count each drop once. -/
  dropped : ∀ cause, (r₀.run history).server.counters.dropped cause = UInt64.ofNat (k.drops cause)
  /-- What circuits have accepted was seen to, or a task still has it. -/
  accepted : (collect accepts history r₀).Perm
    (k.accepted ++ Action.accepted (r₀.run history).tasks.flatten)
  /-- The application was given the messages of packets that circuits have accepted, each one once,
  unless a task still has it. -/
  delivered : ((collect accepts history r₀).filterMap deliverable?).Perm
    (Effect.deliveries (r₀.run history).server.effects ++
      (Action.accepted (r₀.run history).tasks.flatten).filterMap deliverable?)
  /-- The requests are being authorized, or decided. -/
  requested : k.requests.Perm ((r₀.run history).server.authorizing ++
    collect (fun _ e r ↦ (r.decided? e).toList) history r₀)
  /-- What was kept for requests that were denied is forgotten. -/
  forgotten : k.forgotten =
    (collect (fun _ e r ↦ r.refused e) history r₀).map (Datagram.parse mtu)
  /-- What is lost was lost in the steps at whose fault its task ended, and there by that fault. -/
  lost : k.lost = collect (losses mtu) history r₀
  /-- A datagram that can not be read leaves no trace but in a counter. -/
  rejected : ∀ now source datagram inbox e, (r₀.run history).decoding = .idle →
    (r₀.run history).server.inbox = (source, datagram) :: inbox →
    Datagram.parse mtu datagram = .error (.refused e) →
    (r₀.run history).step now .decode = (r₀.run history).decoded
      (.finished, { (r₀.run history).server with inbox }.drop .malformed)

variable {config : Config} {start : Instant}

/-- A new server is in order. -/
theorem inOrder_of_create (h : create config start = .ok r) : InOrder config.mtu r := by
  refine ⟨⟨?_, waiting_of_create h, (sound_of_create h).orderly, ?_⟩, entrusted_of_create h,
    sound_of_create h⟩ <;> obtain ⟨burst, pending, notices, hpending, rfl⟩ := exists_of_create h
  · rfl
  · exact Sharded.distinct_of_create hpending

/-- **Every datagram is accounted for,** in whatever order things happen. -/
theorem accounted_of_run (hcreate : create config start = .ok r₀)
    (history : List (Instant × Step)) : ∃ k, Accounted config.mtu history r₀ k := by
  have horder := inOrder_of_create hcreate
  obtain ⟨k, hk, hlost⟩ := settles_run horder history
  have hconfig : (r₀.run history).server.config.mtu = config.mtu := by
    rw [config_of_run, horder.regular.config]
  have hempty : r₀.tasks.flatten = [] ∧ r₀.server.kept config.mtu = 0 ∧
      (∀ cause, r₀.server.counters.dropped cause = 0) ∧ r₀.server.effects = [] ∧
      r₀.server.authorizing = [] := by
    obtain ⟨burst, pending, notices, hpending, rfl⟩ := exists_of_create hcreate
    exact ⟨rfl, Sharded.total_of_create _ hpending, fun cause ↦ by cases cause <;> rfl, rfl, rfl⟩
  obtain ⟨htasks, hkept, hdropped, heffects, hauthorizing⟩ := hempty
  have hdecodings : Action.accepted (decodings (takings history r₀)) = [] := by
    rw [Action.accepted, decodings, List.filterMap_map]
    exact List.filterMap_eq_nil_iff.2 fun _ _ ↦ rfl
  have haccepted : (collect accepts history r₀).Perm
      (k.accepted ++ Action.accepted (r₀.run history).tasks.flatten) := by
    have hbalance := hk.accepted
    rw [htasks, List.append_nil, hdecodings, Multiset.coe_nil, add_zero, Multiset.coe_add] at hbalance
    exact Multiset.coe_eq_coe.1 hbalance
  refine ⟨k, ?_, hk.suits, fun cause ↦ ?_, haccepted, ?_, ?_, hk.forgotten, hlost,
    fun now source datagram inbox e hloop hinbox hparse ↦ ?_⟩
  · have hbalance := hk.balance
    rw [htasks, hkept, add_zero, List.append_nil, decodings, List.flatMap_map] at hbalance
    rw [← hbalance, List.map_eq_flatMap]
    rfl
  · rw [hk.dropped, hdropped, UInt64.zero_add]
  · have hdelivered := haccepted.filterMap deliverable?
    rw [List.filterMap_append, filterMap_deliverable? hk.suits] at hdelivered
    rw [hk.delivered, heffects]
    exact hdelivered
  · have hbalance := hk.requested
    rw [hauthorizing, Multiset.coe_nil, zero_add, Multiset.coe_add] at hbalance
    exact Multiset.coe_eq_coe.1 hbalance
  · have hhandle : { (r₀.run history).server with inbox }.handle source datagram now =
        (.finished, { (r₀.run history).server with inbox }.drop .malformed) := by
      simp only [handle, readDatagram, hconfig, hparse]
    simp only [step, decode, hloop, hinbox, advance, perform, hhandle]

/-- An agent asks for a circuit and goes on sending, first what can be read and then what can not. The
request is granted, and setting the circuit up goes on once. -/
def mixedArrivals : List (Instant × Step) :=
  asking ++ hearing 2 [1] ++ [granting, resuming 0, resuming 1]

/-- Of five datagrams one is the request, one finds no room to be kept, one can not be read, one is
delivered, and the set-up still has one. -/
theorem accounted_of_mixedArrivals :
    ∃ r₀ k, create { maxBuffered := 2 } 0 = .ok r₀ ∧ (takings mixedArrivals r₀).length = 5 ∧
      (r₀.run mixedArrivals).server.counters.malformed = 1 ∧
      (r₀.run mixedArrivals).server.counters.orphaned = 1 ∧
      Effect.deliveries (r₀.run mixedArrivals).server.effects = [(0, ⟨.high 5, [1], 5, false⟩)] ∧
      (r₀.run mixedArrivals).tasks.flatten = [.replay 0 (word 4)] ∧
      Accounted 1400 mixedArrivals r₀ k := by
  obtain ⟨r₀, hcreate, htest⟩ := exists_eq_ok_of_any (x := create { maxBuffered := 2 } 0)
    (p := fun r₀ ↦ decide ((takings mixedArrivals r₀).length = 5 ∧
      (r₀.run mixedArrivals).server.counters.malformed = 1 ∧
      (r₀.run mixedArrivals).server.counters.orphaned = 1 ∧
      Effect.deliveries (r₀.run mixedArrivals).server.effects = [(0, ⟨.high 5, [1], 5, false⟩)] ∧
      (r₀.run mixedArrivals).tasks.flatten = [.replay 0 (word 4)])) (by decide +kernel)
  obtain ⟨htaken, hmalformed, horphaned, hdelivered, htasks⟩ := of_decide_eq_true htest
  obtain ⟨k, hk⟩ := accounted_of_run hcreate mixedArrivals
  exact ⟨r₀, k, hcreate, htaken, hmalformed, horphaned, hdelivered, htasks, hk⟩

/-- A datagram whose body is zero-coded. -/
def zeroCodedWord : Octets :=
  [4, 0, 0, 0, 5, 0, 5, 1]

/-- Under an MTU of which a multiple leaves 64 bits, a datagram with a zero-coded body is taken to be
decoded, and then there is nothing that tells of it. -/
theorem unaccounted_of_excessiveMtu :
    ∃ r₀, create { mtu := 2 ^ 61 } 0 = .ok r₀ ∧
      takings (hearing 3 zeroCodedWord) r₀ = [(.loopback 3, zeroCodedWord)] ∧
      (∀ cause, (r₀.run (hearing 3 zeroCodedWord)).server.counters.dropped cause = 0) ∧
      (r₀.run (hearing 3 zeroCodedWord)).server.effects = [] ∧
      (r₀.run (hearing 3 zeroCodedWord)).server.circuits.length = 0 ∧
      (r₀.run (hearing 3 zeroCodedWord)).server.authorizing = [] ∧
      (r₀.run (hearing 3 zeroCodedWord)).server.pending.isEmpty = true ∧
      (r₀.run (hearing 3 zeroCodedWord)).tasks.flatten = [] := by
  obtain ⟨r₀, hcreate, htest⟩ := exists_eq_ok_of_any (x := create { mtu := 2 ^ 61 } 0)
    (p := fun r₀ ↦ decide (takings (hearing 3 zeroCodedWord) r₀ = [(.loopback 3, zeroCodedWord)] ∧
      ([.malformed, .orphaned, .duplicate].all fun cause ↦
        (r₀.run (hearing 3 zeroCodedWord)).server.counters.dropped cause == 0) = true ∧
      (r₀.run (hearing 3 zeroCodedWord)).server.effects = [] ∧
      (r₀.run (hearing 3 zeroCodedWord)).server.circuits.length = 0 ∧
      (r₀.run (hearing 3 zeroCodedWord)).server.authorizing = [] ∧
      (r₀.run (hearing 3 zeroCodedWord)).server.pending.isEmpty = true ∧
      (r₀.run (hearing 3 zeroCodedWord)).tasks.flatten = [])) (by decide +kernel)
  obtain ⟨htaken, hdropped, hrest⟩ := of_decide_eq_true htest
  refine ⟨r₀, hcreate, htaken, fun cause ↦ ?_, hrest⟩
  have hcause := List.all_eq_true.1 hdropped cause (by cases cause <;> decide)
  exact eq_of_beq hcause

end RunningServer

end DatagramCircuits
