import DatagramCircuits.Proofs.Handshakes
/-!
# The watch over circuits

Regular work watches over two things: whether a circuit is silent for too long, and whether its queues
have run empty. What a server knows about that is its `Watch`. No other action shows in it
(`Server.apart_perform`).

What regular work does to the watch is said once, by `Server.Served`: nothing; or it finds the circuit
silent; or it goes to begin a notice of empty queues, which the workers accept or not (`Server.attempt?`).
-/

namespace DatagramCircuits

/-- Whether an effect tells that a circuit was closed for its silence, or that queues have run empty. -/
def Effect.isAlarm : Effect → Bool
  | closed _ _ _ .timeout => true
  | queueEmpty .. => true
  | _ => false

/-- What a server knows about silence and empty queues. -/
structure Watch where
  /-- The settings. -/
  config : Config
  /-- The circuits that were found silent for too long. -/
  closing : List CircuitId
  /-- The notices of empty queues that wait for a worker. -/
  notices : Pool Notice
  /-- How many notices there was no room for. -/
  rejected : UInt64
  /-- What was done about silence, and told about empty queues. -/
  alarms : List Effect
  /-- What each circuit knows about its notices. -/
  alerts : List Circuit.Alert

/-- A notice of empty queues that regular work went to begin. -/
structure Attempt where
  /-- The circuit. -/
  circuit : CircuitId
  /-- The instant of the tick. -/
  time : Instant
  /-- Whether there was room for the notice. -/
  accepted : Bool
deriving DecidableEq

/-- The instant of the round of regular work that an action is a part of. -/
def Action.round? : Action → Option Instant
  | serve _ time => some time
  | _ => none

/-- Sending is no regular work. -/
theorem Action.round?_of_isSend {a : Action} (h : a.isSend = true) : a.round? = none := by
  cases a <;> first | rfl | cases h

namespace Circuit

variable {now : Instant} {c c' : Circuit} {f f' : Forest}

/-- Another notice may begin: none is under way, and the last one was begun long enough ago. -/
def Alert.Ready (now : Instant) (a : Alert) : Prop :=
  a.busy = false ∧ ∀ last, a.last = some last → a.config.queueEmptyInterval ≤ now - last

/-- No notice is under way any more. -/
def Alert.quit (a : Alert) : Alert :=
  { a with busy := false }

/-! ### Circuits -/

/-- Queueing a message tells nothing about notices. -/
theorem alert_send {category : Category} {m : Message} {reliable notify : Bool}
    (h : c.send category m reliable notify = .ok c') : c'.alert = c.alert := by
  obtain ⟨queues, rfl⟩ := exists_queues_of_send h
  rfl

/-- Nor does a datagram that is taken in. -/
theorem alert_receive (p : Packet) (length : Nat) (now : Instant) (c : Circuit) :
    (c.receive p length now).2.alert = c.alert := by
  rw [receive]
  split
  · rfl
  split
  · rw [receiveReliable]
    split
    · rfl
    · dsimp only
      split <;> rfl
  · rfl

theorem alert_takePong (id : UInt8) (now : Instant) (c : Circuit) :
    (c.takePong id now).2.alert = c.alert := by
  rw [takePong]
  split
  · split <;> rfl
  · rfl

/-- A change of phase leaves the alert as it is. -/
theorem alert_transition (source target : Phase) (c : Circuit) :
    (c.transition source target).2.alert = c.alert := by
  rw [transition]
  split <;> rfl

/-- A new circuit was never told of, and no notice is under way. -/
theorem alert_of_opened {session : Session} {address : Address} {config : Config} {root : BucketId}
    (h : opened session address config root now f = .ok (c, f')) :
    c.alert = ⟨config, false, none⟩ := by
  obtain ⟨allowance, -, hbegun⟩ := opened_eq_ok_iff.1 h
  obtain ⟨roundTrip, tracker, -, -, rfl⟩ := begun_eq_ok hbegun
  rfl

/-- A notice begins if it may, and only then. -/
theorem beginQueueEmpty_cases (now : Instant) (c : Circuit) :
    c.beginQueueEmpty now = (false, c) ∨ c.alert.Ready now ∧
      c.beginQueueEmpty now = (true, { c with queueEmptyBusy := true, lastQueueEmpty := some now }) := by
  unfold beginQueueEmpty
  dsimp only
  split
  · exact .inl rfl
  · rename_i hmay
    rw [Bool.or_eq_true, not_or, Bool.not_eq_true, Bool.not_eq_true] at hmay
    refine .inr ⟨⟨hmay.2, fun last hlast ↦ ?_⟩, rfl⟩
    have hlate := hmay.1
    rw [show c.lastQueueEmpty = some last from hlast, Option.any_some, decide_eq_false_iff_not] at hlate
    exact Nat.not_lt.1 hlate

end Circuit

namespace Server

variable {s s' : Server} {now : Instant} {id : CircuitId} {c c' : Circuit} {a : Action}
  {l : List Action}

/-- What the server knows about silence and empty queues. -/
def watch (s : Server) : Watch where
  config := s.config
  closing := s.closing
  notices := s.notices
  rejected := s.counters.jobsRejected
  alarms := s.effects.filter Effect.isAlarm
  alerts := s.circuits.map Circuit.alert

/-- The watch knows what the circuit knows about its notices. -/
theorem getElem?_alerts (hid : s.circuit? id = some c) : s.watch.alerts[id]? = some c.alert := by
  rw [watch, List.getElem?_map, show s.circuits[id]? = some c from hid]
  rfl

/-! ### What does not show -/

/-- An effect that is no alarm does not show. -/
theorem watch_record {e : Effect} (h : e.isAlarm = false) (s : Server) :
    (s.record e).watch = s.watch := by
  simp [watch, record, h]

/-- Of the counters, only the count of rejected jobs shows. -/
theorem watch_count {change : Counters → Counters}
    (h : ∀ c, (change c).jobsRejected = c.jobsRejected) (s : Server) :
    (s.count change).watch = s.watch := by
  simp [watch, count, h]

theorem watch_drop (cause : DropCause) (s : Server) : (s.drop cause).watch = s.watch :=
  watch_count (fun _ ↦ by cases cause <;> rfl) s

/-- Of a circuit that is put back, what it knows about its notices shows. -/
theorem alerts_putCircuit (id : CircuitId) (c : Circuit) (s : Server) :
    (s.putCircuit id c).watch = { s.watch with alerts := s.watch.alerts.set id c.alert } := by
  rw [watch, putCircuit, List.map_set]
  rfl

/-- So nothing shows where this is the same as before. -/
theorem watch_putCircuit (hid : s.circuit? id = some c) (h : c'.alert = c.alert) :
    (s.putCircuit id c').watch = s.watch := by
  obtain ⟨hlt, heq⟩ := List.getElem?_eq_some_iff.1 (getElem?_alerts hid)
  rw [alerts_putCircuit, h, ← heq, List.set_getElem_self]

/-- Closing a circuit shows where it is closed for its silence. -/
theorem exists_closeCircuit (id : CircuitId) (reason : CloseReason) (s : Server) :
    ∃ k, (s.closeCircuit id reason).2.watch = { s.watch with alarms := s.watch.alarms ++ k } ∧
      ∀ x ∈ k, reason = .timeout ∧ ∃ c, s.circuit? id = some c ∧ c.isClosed = false ∧
        x = .closed id c.agent c.address reason := by
  have hsame : s.watch = { s.watch with alarms := s.watch.alarms ++ [] } := by rw [List.append_nil]
  cases hid : s.circuit? id with
  | none => exact ⟨[], by rw [closeCircuit_of_none reason hid]; exact hsame, nofun⟩
  | some c =>
    cases hclosed : c.isClosed with
    | true => exact ⟨[], by rw [closeCircuit_of_closed reason hid hclosed]; exact hsame, nofun⟩
    | false =>
      have hput : (s.putCircuit id c.ended).watch = s.watch := watch_putCircuit hid rfl
      refine ⟨[.closed id c.agent c.address reason].filter Effect.isAlarm, ?_, fun x hx ↦ ?_⟩
      · rw [closeCircuit_of_open reason hid hclosed, ← hput]
        simp only [watch, record, count, putCircuit, List.filter_append]
        rfl
      · obtain ⟨hx, halarm⟩ := List.mem_filter.1 hx
        obtain rfl := List.mem_singleton.1 hx
        refine ⟨?_, c, rfl, hclosed, rfl⟩
        cases reason <;> first | rfl | cases halarm

/-- The close of a circuit shows only if its reason is silence. -/
theorem watch_closeCircuit {reason : CloseReason} (hreason : reason ≠ .timeout) (id : CircuitId)
    (s : Server) : (s.closeCircuit id reason).2.watch = s.watch := by
  obtain ⟨k, hk, htimeout⟩ := s.exists_closeCircuit id reason
  obtain rfl : k = [] := List.eq_nil_iff_forall_not_mem.2 fun x hx ↦ hreason (htimeout x hx).1
  rw [hk, List.append_nil]

/-- Circuits that are closed for another one are closed for another reason. -/
theorem watch_supersede (ids : List CircuitId) (s : Server) : (s.supersede ids).watch = s.watch := by
  induction ids generalizing s with
  | nil => rfl
  | cons id ids ih => exact (ih _).trans (watch_closeCircuit (by decide) id s)

/-- A part of a task that has nothing to do with the watch, and leaves nothing to be done that has. -/
def Apart (s : Server) (o : Outcome × Server) : Prop :=
  o.2.watch = s.watch ∧ ∀ a ∈ o.1.rest, a.round? = none

/-- What does not show in the watch, and leaves nothing to be done, is apart. -/
theorem apart_of_watch {o : Outcome} (h : s'.watch = s.watch) (ho : o.rest = []) :
    Apart s (o, s') :=
  ⟨h, fun _ ha ↦ absurd (ho ▸ ha) List.not_mem_nil⟩

/-- Something else that does not show may come first. -/
theorem Apart.after {o : Outcome × Server} (h : Apart s' o) (hs : s'.watch = s.watch) : Apart s o :=
  ⟨h.1.trans hs, h.2⟩

/-- Messages of the protocol do not show. -/
theorem apart_control (hid : s.circuit? id = some c) (m : Control) (now : Instant) :
    Apart s (s.control id c m now) := by
  cases m with
  | acks sequences => exact apart_of_watch (watch_putCircuit hid rfl) rfl
  | ping ping oldest =>
    rw [control]
    split
    · exact ⟨rfl, fun _ ha ↦ Action.round?_of_isSend (Action.isSend_of_mem_sendAll ha)⟩
    · exact apart_of_watch rfl rfl
  | pong ping => exact apart_of_watch (watch_putCircuit hid (c.alert_takePong ping now)) rfl
  | throttle rates =>
    rw [control]
    split
    · exact apart_of_watch (watch_record rfl _) rfl
    · exact apart_of_watch rfl rfl
  | close => exact apart_of_watch (watch_closeCircuit (by decide) id s) rfl
  | setup request => exact apart_of_watch rfl rfl

/-- Nor does the delivery of a packet. -/
theorem apart_deliver (id : CircuitId) (p : Packet) (now : Instant) (s : Server) :
    Apart s (s.deliver id p now) := by
  rw [deliver]
  split
  · exact apart_of_watch rfl rfl
  · rename_i c hid
    split
    · exact apart_of_watch (watch_drop .malformed s) rfl
    · exact apart_control hid ..
    · exact apart_of_watch (watch_record rfl s) rfl

/-- Nor does a datagram that a circuit takes in, whatever the answer to it. -/
theorem apart_receive (id : CircuitId) (p : Packet) (length : Nat) (now : Instant) (s : Server) :
    Apart s (s.receive id p length now) := by
  rw [receive]
  split
  · exact apart_of_watch rfl rfl
  · rename_i c hid
    have halert := c.alert_receive p length now
    split <;> rename_i c' hreceive <;> rw [hreceive] at halert
    · exact apart_of_watch (watch_putCircuit hid halert) rfl
    · exact apart_of_watch (watch_drop .orphaned s) rfl
    · exact apart_of_watch ((watch_drop .duplicate _).trans (watch_putCircuit hid halert)) rfl
    · exact (apart_deliver ..).after (watch_putCircuit hid halert)
    · have hflush : c'.flushAcks.2.alert = c.alert := halert
      split <;> rename_i hacks <;> rw [hacks] at hflush
      · exact (apart_deliver ..).after (watch_putCircuit hid hflush)
      · refine ⟨watch_putCircuit hid hflush, fun a ha ↦ ?_⟩
        obtain hsend | hdeliver := List.mem_append.1 ha
        · exact Action.round?_of_isSend (Action.isSend_of_mem_sendAll hsend)
        · rw [List.mem_singleton.1 hdeliver]
          rfl

theorem apart_readDatagram {datagram : Octets} {next : Packet → Outcome × Server}
    (h : ∀ p, Apart s (next p)) : Apart s (s.readDatagram datagram next) := by
  rw [readDatagram]
  split
  · exact h _
  · exact apart_of_watch (watch_drop .malformed s) rfl
  · exact apart_of_watch rfl rfl

/-- The decoding of a datagram has nothing to do with the watch. -/
theorem apart_handle (source : Address) (datagram : Octets) (now : Instant) (s : Server) :
    Apart s (s.handle source datagram now) := by
  refine apart_readDatagram fun p ↦ ?_
  split
  · exact apart_receive ..
  split
  · rw [keep]
    split
    · exact apart_of_watch rfl rfl
    · exact apart_of_watch (watch_drop .orphaned s) rfl
  · rw [request]
    split
    · exact apart_of_watch (watch_drop .orphaned s) rfl
    split
    · exact apart_of_watch (watch_drop .malformed s) rfl
    · exact apart_of_watch rfl rfl

/-- Nor does the announcement of a new circuit. -/
theorem apart_announce (id : CircuitId) (s : Server) : Apart s (.finished, s.announce id) := by
  refine apart_of_watch ?_ rfl
  rw [announce]
  split
  · rfl
  · rename_i c hid
    have hput : (s.putCircuit id c.connect.2).watch = s.watch :=
      watch_putCircuit hid (c.alert_transition .connecting .connected)
    exact (watch_record rfl _).trans ((watch_count (fun _ ↦ rfl) _).trans hput)

/-- **Nothing but regular work** has to do with the watch. -/
theorem apart_perform (now : Instant) (ha : a.round? = none) (s : Server) :
    Apart s (s.perform now a) := by
  cases a with
  | transmit target datagram => exact apart_of_watch (watch_record rfl s) rfl
  | countSent n => exact apart_of_watch (watch_count (fun _ ↦ rfl) s) rfl
  | announce id => exact apart_announce id s
  | deliver id p => exact apart_deliver id p now s
  | replay id datagram => exact apart_readDatagram fun p ↦ apart_receive ..
  | handle source datagram => exact apart_handle source datagram now s
  | serve id time => cases ha

/-- Pausing and resuming have nothing to do with the watch. -/
theorem watch_changePhase {change : Circuit → Bool × Circuit} (h : ∀ c, (change c).2.alert = c.alert)
    (agent : Uuid) (s : Server) : (s.changePhase agent change).2.watch = s.watch := by
  rw [changePhase]
  split
  · rfl
  · exact watch_putCircuit (circuit?_of_ofAgent? ‹_›) (h _)

/-! ### Regular work -/

/-- The notice that an action goes to begin: queues of the circuit run empty in its tick, no notice of it
is under way, and the last one was begun long enough ago. -/
def attempt? (s : Server) : Action → Option Attempt
  | .serve id time =>
    match s.circuit? id with
    | none => none
    | some c =>
      if c.isTimedOut time then none
      else
        match c.tick time s.forest with
        | .error _ => none
        | .ok t =>
          if t.output.emptied.isEmpty || !(t.circuit.beginQueueEmpty time).1 then none
          else some ⟨id, time, (s.notices.submit ⟨id, t.output.emptied⟩).1⟩
  | _ => none

/-- What regular work of a circuit makes of the watch, and the notice that it went to begin. -/
inductive Served (id : CircuitId) (time : Instant) (s : Server) : Option Attempt → Watch → Prop
  /-- There is nothing to be done, or no notice may begin. -/
  | nothing : Served id time s none s.watch
  /-- The circuit is found silent for too long. -/
  | silent {c : Circuit} (hid : s.circuit? id = some c) (h : c.isTimedOut time = true) :
    Served id time s none { s.watch with closing := s.closing ++ [id] }
  /-- A notice begins, and waits for a worker. -/
  | accepted {a : Circuit.Alert} {lanes : List Lane} {notices : Pool Notice}
      (ha : s.watch.alerts[id]? = some a) (hready : a.Ready time)
      (h : s.notices.submit ⟨id, lanes⟩ = (true, notices)) :
    Served id time s (some ⟨id, time, true⟩)
      { s.watch with
        notices, alerts := s.watch.alerts.set id { a with busy := true, last := some time } }
  /-- There is no room for a notice that may begin. -/
  | rejected {a : Circuit.Alert} {lanes : List Lane} (ha : s.watch.alerts[id]? = some a)
      (hready : a.Ready time) (h : (s.notices.submit ⟨id, lanes⟩).1 = false) :
    Served id time s (some ⟨id, time, false⟩)
      { s.watch with
        rejected := s.watch.rejected + 1
        alerts := s.watch.alerts.set id { a with busy := false, last := some time } }

/-- What becomes of a notice, in a server that the watch does not tell from `s`. -/
theorem served_notify (hs : s'.watch = s.watch) (hid : s'.circuit? id = some c) (lanes : List Lane)
    (time : Instant) :
    Served id time s
      (if !(c.beginQueueEmpty time).1 then none
        else some ⟨id, time, (s.notices.submit ⟨id, lanes⟩).1⟩)
      (s'.notify id lanes time).watch := by
  have hnotices : s'.notices = s.notices := congrArg Watch.notices hs
  obtain heq | ⟨hready, heq⟩ := c.beginQueueEmpty_cases time
  · simp only [notify, hid, heq, hs, Bool.not_false, if_true]
    exact .nothing
  · have ha := hs ▸ getElem?_alerts hid
    rcases hsubmit : s.notices.submit ⟨id, lanes⟩ with ⟨_ | _, notices⟩
    · have hwatch : (s'.notify id lanes time).watch = { s'.watch with
          rejected := s'.watch.rejected + 1
          alerts := s'.watch.alerts.set id { c.alert with busy := false, last := some time } } := by
        simp only [notify, hid, heq, hnotices, hsubmit, watch, count, putCircuit, List.map_set]
        rfl
      rw [hwatch, hs, heq, hsubmit, Bool.not_true, if_neg Bool.false_ne_true]
      exact .rejected ha hready (congrArg Prod.fst hsubmit)
    · have hwatch : (s'.notify id lanes time).watch = { s'.watch with
          notices
          alerts := s'.watch.alerts.set id { c.alert with busy := true, last := some time } } := by
        simp only [notify, hid, heq, hnotices, hsubmit, watch, putCircuit, List.map_set]
        rfl
      rw [hwatch, hs, heq, hsubmit, Bool.not_true, if_neg Bool.false_ne_true]
      exact .accepted ha hready hsubmit

/-- Nothing else of a tick shows in the watch. -/
theorem exists_takeIn {t : Turn} (hid : s.circuit? id = some c) (ht : t.circuit.alert = c.alert)
    (time : Instant) :
    ∃ s' : Server, s'.watch = s.watch ∧ s'.circuit? id = some t.circuit ∧
      s.takeIn id t time =
        if t.output.emptied.isEmpty then s' else s'.notify id t.output.emptied time := by
  have htold : ∀ (l : List Outgoing) (s : Server),
      (l.foldl (fun s p ↦ s.record (.unacknowledged id t.circuit.agent p)) s).watch = s.watch ∧
      (l.foldl (fun s p ↦ s.record (.unacknowledged id t.circuit.agent p)) s).circuits =
        s.circuits := by
    intro l
    induction l with
    | nil => exact fun s ↦ ⟨rfl, rfl⟩
    | cons p l ih => exact fun s ↦ (ih _).imp_left fun h ↦ h.trans (watch_record rfl s)
  have hput : ({ s.putCircuit id t.circuit with forest := t.forest } : Server).watch = s.watch :=
    watch_putCircuit hid ht
  have hself : (s.putCircuit id t.circuit).circuit? id = some t.circuit :=
    (circuit?_set hid t.circuit id).trans (if_pos rfl)
  obtain ⟨hwatch, hcircuits⟩ := htold t.output.unacknowledged
    { s.putCircuit id t.circuit with forest := t.forest }
  rw [takeIn]
  dsimp only
  refine ⟨_, ?_, ?_, rfl⟩
  · split
    · exact (watch_count (fun _ ↦ rfl) _).trans
        ((watch_count (fun _ ↦ rfl) _).trans (hwatch.trans hput))
    · exact (watch_count (fun _ ↦ rfl) _).trans (hwatch.trans hput)
  · split <;> exact (congrArg (·[id]?) hcircuits).trans hself

/-- **What regular work does.** -/
theorem served (id : CircuitId) (time : Instant) (s : Server) :
    Served id time s (s.attempt? (.serve id time)) (s.serve id time).2.watch := by
  rw [serve, attempt?]
  cases hid : s.circuit? id with
  | none => exact .nothing
  | some c =>
    dsimp only
    split
    · exact .silent hid ‹_›
    · cases htick : c.tick time s.forest with
      | error e =>
        obtain ⟨fault, t⟩ := e
        have halert := congrArg Prod.snd (Circuit.background_of_tick_error htick).1
        have hwatch : (s.putCircuit id t.circuit).watch = s.watch := watch_putCircuit hid halert
        exact hwatch ▸ .nothing
      | ok t =>
        have halert := congrArg Prod.snd (Circuit.background_of_tick htick).1
        obtain ⟨s', hwatch, hself, htaken⟩ := exists_takeIn hid halert time
        have hserver : ∀ (o : Outcome), (if t.output.datagrams.isEmpty then
            (Outcome.finished, s.takeIn id t time) else (o, s.takeIn id t time)).2 =
              s.takeIn id t time := fun o ↦ by split <;> rfl
        have hnotified := served_notify hwatch hself t.output.emptied time
        dsimp only
        rw [hserver, htaken]
        cases t.output.emptied.isEmpty with
        | true => exact hwatch ▸ .nothing
        | false => simpa using hnotified

/-! ### Silent circuits and notices -/

/-- A circuit whose notice has ended may be told of again. -/
theorem watch_endQueueEmpty (hid : s.circuit? id = some c) :
    (s.putCircuit id c.endQueueEmpty).watch =
      { s.watch with alerts := s.watch.alerts.modify id Circuit.Alert.quit } := by
  rw [alerts_putCircuit, List.modify_eq_set_getElem?, getElem?_alerts hid]
  rfl

/-- A notice about an unknown circuit ends without a trace. -/
theorem modify_alerts_of_none (hid : s.circuit? id = none) :
    s.watch.alerts.modify id Circuit.Alert.quit = s.watch.alerts := by
  refine List.modify_eq_self ?_
  rw [watch, List.length_map]
  exact List.getElem?_eq_none_iff.1 hid

/-- The end of a notice is known to its circuit, if there is one. -/
theorem watch_endNotice (notice : Notice) (s : Server) :
    (s.endNotice notice).watch = { s.watch with
      notices := s.notices.release
      alerts := s.watch.alerts.modify notice.circuit Circuit.Alert.quit } := by
  unfold endNotice
  dsimp only
  split
  · rename_i hid
    have hsame : s.watch.alerts.modify notice.circuit Circuit.Alert.quit = s.watch.alerts :=
      modify_alerts_of_none hid
    rw [hsame]
    rfl
  · exact watch_endQueueEmpty (s := { s with notices := s.notices.release }) ‹_›

/-- A worker takes a notice, and drops it if the circuit is closed. -/
theorem watch_beginNotice {told : Option Notice} (h : s.beginNotice now = some (told, s')) :
    ∃ notice notices, s.notices.take? = some (notice, notices) ∧
      (told = none ∧ s'.watch = { s.watch with
          notices := notices.release
          alerts := s.watch.alerts.modify notice.circuit Circuit.Alert.quit } ∨
        told = some notice ∧ ∃ c, s.circuit? notice.circuit = some c ∧ c.isClosed = false ∧
          s'.watch = { s.watch with
            notices
            alarms := s.watch.alarms ++ [.queueEmpty notice.circuit c.agent notice.lanes now] }) := by
  rw [beginNotice] at h
  split at h
  · cases h
  · rename_i notice notices htake
    refine ⟨notice, notices, htake, ?_⟩
    split at h
    · rename_i hid
      obtain ⟨rfl, rfl⟩ := Prod.mk.inj (Option.some.inj h)
      refine .inl ⟨rfl, ?_⟩
      rw [modify_alerts_of_none hid]
      rfl
    · rename_i c hid
      split at h <;> obtain ⟨rfl, rfl⟩ := Prod.mk.inj (Option.some.inj h)
      · refine .inl ⟨rfl, ?_⟩
        exact watch_endQueueEmpty (s := { s with notices := notices.release }) hid
      · rename_i hopen
        refine .inr ⟨rfl, c, hid, eq_false_of_ne_true hopen, ?_⟩
        simp only [watch, record, List.filter_append]
        rfl

/-- The next of the circuits found silent is closed. -/
theorem watch_closeSilentAt (position : Nat) (s : Server) :
    ∃ k, (s.closeSilentAt position).watch = { s.watch with
        closing := s.closing.eraseIdx position, alarms := s.watch.alarms ++ k } ∧
      ∀ x ∈ k, ∃ id c, s.closing[position]? = some id ∧ s.circuit? id = some c ∧
        c.isClosed = false ∧ x = .closed id c.agent c.address .timeout := by
  rw [closeSilentAt]
  split
  · rename_i hnone
    refine ⟨[], ?_, fun x hx ↦ absurd hx List.not_mem_nil⟩
    rw [List.eraseIdx_of_length_le (List.getElem?_eq_none_iff.1 hnone), List.append_nil]
    rfl
  · rename_i id hid
    obtain ⟨k, hk, hclosed⟩ :=
      exists_closeCircuit id .timeout { s with closing := s.closing.eraseIdx position }
    refine ⟨k, hk, fun x hx ↦ ?_⟩
    obtain ⟨-, c, hc, hopen, hx⟩ := hclosed x hx
    exact ⟨id, c, hid, hc, hopen, hx⟩

end Server

end DatagramCircuits
