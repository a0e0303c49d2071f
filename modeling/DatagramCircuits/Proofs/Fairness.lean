import DatagramCircuits.Proofs.Reading
import DatagramCircuits.Proofs.Rounds
/-!
# Fair queues

What a message goes through until its datagrams are sent for the first time. Sending it puts them at the
end of one queue, or is refused and changes nothing (`Circuit.apply_send`). A queue keeps its order and
loses nothing (`Circuit.Lossless`). And each tick offers the first datagram of each queue to the
allowance, once, after what is due anyway (`Turn.Round`). `Circuit.fair_of_lived` puts these together.

**A tick comes to an end** unless a datagram was sent again so often that the retries can not be counted
any more (`Circuit.exists_tick`).
-/

namespace DatagramCircuits

namespace Circuit

variable {P : Message → Prop} {config : Config} {l : List Event} {c : Circuit} {now : Instant}
  {f : Forest}

/-! ### Sending -/

/-- The circuit with some datagrams at the end of a queue. -/
def appended (lane : Lane) (ps : List Outgoing) (c : Circuit) : Circuit :=
  { c with queues := c.queues.modify lane fun q ↦ { q with waiting := q.waiting ++ ps } }

theorem appended_nil (lane : Lane) (c : Circuit) : c.appended lane [] = c := by
  simp only [appended, PerLane.modify, List.append_nil]
  exact congrArg (fun queues ↦ { c with queues }) (PerLane.set_get_self c.queues lane)

theorem appended_push (lane : Lane) (p : Outgoing) (ps : List Outgoing) (c : Circuit) :
    (c.push lane p).appended lane ps = c.appended lane (p :: ps) := by
  simp [appended, push, PerLane.modify, LaneQueue.push]

/-- Pushing datagrams one after the other puts all of them at the end, in their order. -/
theorem foldl_push (lane : Lane) (g : Octets → Outgoing) (datagrams : List Octets) (c : Circuit) :
    datagrams.foldl (fun c buffer ↦ c.push lane (g buffer)) c = c.appended lane (datagrams.map g) := by
  induction datagrams generalizing c with
  | nil => exact (appended_nil lane c).symm
  | cons buffer datagrams ih => rw [List.foldl_cons, ih, appended_push, List.map_cons]

/-- What comes of sending a message. -/
inductive Sending (category : Category) (m : Message) (reliable notify : Bool) (c : Circuit)
    (f : Forest) : Prop
  /-- The datagrams of the message are queued, in their order and behind all others of the lane. -/
  | queued {lane : Lane} {datagrams : List Octets} (hlane : category = .throttled lane)
      (hframe : m.frame reliable c.config.mtu = .ok datagrams)
      (happly : c.apply (.send category m reliable notify) f =
        .ok (.queued, c.appended lane (datagrams.map fun buffer ↦ { category, buffer, notify }), f))
      (hevents : c.events (.send category m reliable notify) f =
        datagrams.map fun buffer ↦ .queued { category, buffer, notify })
  /-- Nothing is queued, and nothing changes. -/
  | refused {e : SendError} (he : e = .noQueue .unthrottled ∧ category = .unthrottled ∨
        ∃ e', e = .frame e' ∧ m.frame reliable c.config.mtu = .error e')
      (happly : c.apply (.send category m reliable notify) f = .ok (.refused e, c, f))
      (hevents : c.events (.send category m reliable notify) f = [])

/-- **Sending** queues all of a message, or nothing of it. -/
theorem apply_send (hopen : c.isClosed = false) (category : Category) (m : Message)
    (reliable notify : Bool) (f : Forest) : Sending category m reliable notify c f := by
  cases category with
  | unthrottled => exact .refused (.inl ⟨rfl, rfl⟩) rfl rfl
  | throttled lane =>
    cases hframe : m.frame reliable c.config.mtu with
    | error e =>
      have hsend : c.send (.throttled lane) m reliable notify = .error (.frame e) := by
        simp only [send, hframe]
        rfl
      refine .refused (.inr ⟨e, rfl, hframe⟩) ?_ ?_
      · simp only [apply, queuing, hsend]
        rfl
      · simp only [events, sendEvents, hsend]
    | ok datagrams =>
      have hsend : c.send (.throttled lane) m reliable notify = .ok (c.appended lane
          (datagrams.map fun buffer ↦ { category := .throttled lane, buffer, notify })) := by
        simp only [send, hframe, hopen, ← foldl_push]
        rfl
      refine .queued rfl hframe ?_ ?_
      · simp only [apply, queuing, hsend]
        rfl
      · simp only [events, sendEvents, hsend, hframe]

/-! ### What comes before the round -/

/-- All that is sent for acknowledgements are messages of acknowledgements. -/
theorem exists_signal_of_mem_sendAcks {mtu : Nat} {parts : List (List UInt32)} {t : Tracker} {d : Octets}
    (h : d ∈ (sendAcks mtu parts t).1) : ∃ s, signal mtu (.acks s) = .ok d := by
  induction parts generalizing t with
  | nil => exact absurd h List.not_mem_nil
  | cons s rest ih =>
    rw [sendAcks] at h
    dsimp only at h
    split at h
    · rename_i d' hd'
      rcases List.mem_cons.1 h with rfl | h
      · exact ⟨s, hd'⟩
      · exact ih h
    · exact absurd h List.not_mem_nil

/-- The look for datagrams to be sent again puts nothing out. -/
theorem silent_checkResends (now : Instant) (c : Circuit) (f : Forest) :
    (Turn.checkResends now { circuit := c, forest := f }).output.datagrams = [] ∧
      ∃ dropped handed : List Outgoing, (Turn.checkResends now { circuit := c, forest := f }).log =
        dropped.map .outdated ++ handed.map .unacknowledged := by
  rw [Turn.checkResends]
  dsimp only
  split
  · exact ⟨rfl, [], [], rfl⟩
  · exact ⟨rfl, _, _, rfl⟩

theorem acks_checkAcks (now : Instant) (t : Turn) :
    ∃ acks, (t.checkAcks now).output.datagrams = t.output.datagrams ++ acks ∧
      (t.checkAcks now).log = t.log ++ acks.map .signalled ∧
      ∀ d ∈ acks, ∃ s, signal t.circuit.config.mtu (.acks s) = .ok d := by
  unfold Turn.checkAcks
  dsimp only
  split
  · exact ⟨[], (List.append_nil _).symm, (List.append_nil _).symm, fun d hd ↦ absurd hd List.not_mem_nil⟩
  · exact ⟨_, rfl, rfl, fun d hd ↦ exists_signal_of_mem_sendAcks hd⟩

theorem ping_checkPing (now : Instant) (t : Turn) :
    ∃ ping : Option Octets, (t.checkPing now).output.datagrams = t.output.datagrams ++ ping.toList ∧
      (t.checkPing now).log = t.log ++ ping.toList.map .signalled ∧
      ∀ d ∈ ping, ∃ id oldest, signal t.circuit.config.mtu (.ping id oldest) = .ok d := by
  rw [Turn.checkPing]
  dsimp only
  split
  · exact ⟨none, (List.append_nil _).symm, (List.append_nil _).symm,
      fun d hd ↦ absurd hd (Option.not_mem_none d)⟩
  · refine ⟨_, rfl, rfl, fun d hd ↦ ?_⟩
    rw [nextPingDatagram] at hd
    split at hd
    · rename_i d' hd'
      obtain rfl := Option.mem_some_iff.1 hd
      exact ⟨_, _, hd'⟩
    · cases hd

/-- What happens in a tick before the round. -/
structure Upkept (mtu : Nat) (t : Turn) : Prop where
  /-- Datagrams with acknowledgements are put out, and behind them a ping at most. -/
  datagrams : ∃ (acks : List Octets) (ping : Option Octets),
    t.output.datagrams = acks ++ ping.toList ∧
      (∀ d ∈ acks, ∃ s, signal mtu (.acks s) = .ok d) ∧
      ∀ d ∈ ping, ∃ id oldest, signal mtu (.ping id oldest) = .ok d
  /-- Nothing is queued, and nothing is taken out of a queue. -/
  log : ∃ (dropped handed : List Outgoing) (signalled : List Octets),
    t.log = dropped.map .outdated ++ handed.map .unacknowledged ++ signalled.map .signalled

/-- **Before the round** only messages of the protocol are sent. -/
theorem upkept_prepared (now : Instant) (c : Circuit) (f : Forest) :
    Upkept c.config.mtu (c.prepared now f) := by
  obtain ⟨hnone, dropped, handed, hlog⟩ := silent_checkResends now c f
  have hresends := congrArg (·.2.config) (Turn.keeps_checkResends now { circuit := c, forest := f }).1
  rw [prepared, Turn.upkeep]
  generalize Turn.checkResends now { circuit := c, forest := f } = t₁ at hnone hlog hresends
  have hacks := congrArg (·.2.config) (Turn.keeps_checkAcks now t₁).1
  obtain ⟨acks, hdatagrams, hlog', hall⟩ := acks_checkAcks now t₁
  obtain ⟨ping, hdatagrams', hlog'', hone⟩ := ping_checkPing now (t₁.checkAcks now)
  dsimp only [background, alert] at hresends hacks
  rw [hresends] at hall hacks
  rw [hacks] at hone
  refine ⟨⟨acks, ping, ?_, hall, hone⟩, dropped, handed, acks ++ ping.toList, ?_⟩
  · rw [hdatagrams', hdatagrams, hnone, List.nil_append]
  · rw [hlog'', hlog', hlog, List.map_append, List.append_assoc]

theorem Upkept.transmissions {mtu : Nat} {t : Turn} (h : Upkept mtu t) :
    transmissions t.log = [] := by
  obtain ⟨dropped, handed, signalled, hlog⟩ := h.log
  rw [hlog, transmissions_append, transmissions_append]
  simp [Circuit.transmissions, List.filterMap_map, Function.comp_def, Event.transmission?]

theorem Upkept.queued {mtu : Nat} {t : Turn} (h : Upkept mtu t) : queued t.log = [] := by
  obtain ⟨dropped, handed, signalled, hlog⟩ := h.log
  rw [hlog, queued_append, queued_append]
  simp [Circuit.queued, List.filterMap_map, Function.comp_def, Event.queued?]

/-! ### A tick comes to an end -/

/-- The retries of a datagram in the account are used up: no more can be counted. -/
def Worn (c : Circuit) : Prop :=
  ∃ e ∈ c.tracker.unacked, e.packet.retries.toNat + 1 = UInt32.size

/-- **Sending a datagram** does not fail, unless it was sent before and its retries are used up. -/
theorem exists_transmit {mtu : Nat} {p : Outgoing} (hp : p.Carries P mtu) (now : Instant) (c : Circuit) :
    (∃ r, c.transmit p now = .ok r) ∨ p.isNew = false ∧ c.Worn := by
  obtain ⟨m, reliable, piece, -, -, hbuffer⟩ := hp
  rw [transmit]
  by_cases h0 : p.sequence = 0
  · obtain ⟨k, bytes, -, hfirst⟩ := transmitFirst_plain hbuffer now c
    rw [if_pos h0, hfirst]
    exact .inl ⟨_, rfl⟩
  · rw [if_neg h0, transmitAgain, hbuffer, Message.datagram, Datagram.setFlags_plain, Tracker.noteResent]
    cases hfind : c.tracker.find? p.sequence with
    | none => exact .inl ⟨_, rfl⟩
    | some e =>
      have hlt := e.packet.retries.toNat_lt
      rcases Nat.lt_or_ge (e.packet.retries.toNat + 1) UInt32.size with hroom | hfull
      · refine .inl ?_
        simp only [hroom, if_true]
        exact ⟨_, rfl⟩
      · exact .inr ⟨beq_eq_false_iff_ne.2 h0, e, (Tracker.mem_of_find? hfind).1,
          Nat.le_antisymm hlt hfull⟩

end Circuit

namespace Turn

open Circuit

variable {P : Message → Prop} {config : Config} {l : List Event} {now : Instant} {t : Turn} {lane : Lane}

/-- **Serving a lane** does not fail, unless something in it was sent before. -/
theorem exists_serveLane (h : Traced P config l t.circuit) (lane : Lane) (now : Instant) :
    (∃ r, t.serveLane lane now = .ok r) ∨ lane = .resend ∧ t.circuit.Worn := by
  cases hserve : t.serveLane lane now with
  | ok r => exact .inl ⟨r, rfl⟩
  | error e =>
    obtain ⟨p, q, forest, htake, -, hfault, -⟩ := serveLane_eq_error hserve
    have hp := (mem_of_take? htake).1
    obtain ⟨r, hr⟩ | ⟨hold, hworn⟩ := exists_transmit (h.books.queues lane p hp).carries now
      { t.circuit with queues := t.circuit.queues.set lane q }
    · rw [hr] at hfault
      cases hfault
    · refine .inr ⟨?_, hworn⟩
      by_contra hne
      rw [h.books.isNew_of_ordinary hne p hp] at hold
      cases hold

/-- The ordinary lanes are served without fail. -/
theorem exists_foldlM {lanes : List Lane} (h : Traced P config l t.circuit)
    (hordinary : ∀ lane ∈ lanes, lane ≠ .resend) :
    ∃ t', lanes.foldlM (serveOrdinary now) t = .ok t' := by
  induction lanes generalizing t l with
  | nil => exact ⟨t, rfl⟩
  | cons lane lanes ih =>
    obtain ⟨⟨d, t₁⟩, hserve⟩ | ⟨heq, -⟩ := exists_serveLane h lane now
    · obtain ⟨t₂, hone⟩ : ∃ t₂, t.serveOrdinary now lane = .ok t₂ := by
        rw [serveOrdinary, hserve]
        dsimp only [bind, Except.bind]
        split <;> exact ⟨_, rfl⟩
      obtain ⟨⟨k, hchain, -⟩, -⟩ := serves_of_serveOrdinary hone
      obtain ⟨c₀, hfresh, hfirst⟩ := h
      obtain ⟨t', hrest⟩ := ih (l := l ++ k) ⟨c₀, hfresh, hfirst.trans (hchain.mono .service)⟩
        fun lane hlane ↦ hordinary lane (List.mem_cons_of_mem _ hlane)
      exact ⟨t', by rw [List.foldlM_cons, hone]; exact hrest⟩
    · exact absurd heq (hordinary lane List.mem_cons_self)

end Turn

namespace Circuit

variable {P : Message → Prop} {config : Config} {l : List Event} {c : Circuit}

/-- **A tick comes to an end,** unless the retries of some datagram are used up. -/
theorem exists_tick (h : Traced P config l c) (hopen : c.isClosed = false) (now : Instant) (f : Forest) :
    (∃ t, c.tick now f = .ok t) ∨ (c.prepared now f).circuit.Worn := by
  have htick : c.tick now f = (do return (← (c.prepared now f).serveLanes now).count) := by
    simp only [tick, hopen, Bool.false_eq_true, if_false]
    rfl
  rw [htick]
  obtain ⟨⟨d, t₁⟩, hserve⟩ | ⟨-, hworn⟩ := Turn.exists_serveLane (h.prepared now f) .resend now
  · refine .inl ?_
    obtain ⟨t₂, hresends⟩ : ∃ t₂, (c.prepared now f).serveResends now = .ok t₂ := by
      rw [Turn.serveResends, hserve]
      cases d <;> exact ⟨_, rfl⟩
    obtain ⟨t₃, hordinary⟩ : ∃ t₃, Lane.ordinary.foldlM (Turn.serveOrdinary now) t₂ = .ok t₃ :=
      Turn.exists_foldlM (h.resends hresends) (by decide)
    obtain ⟨t₄, hlanes⟩ : ∃ t₄, (c.prepared now f).serveLanes now = .ok t₄ := by
      rw [Turn.serveLanes, hresends]
      dsimp only [bind, Except.bind]
      split
      · exact ⟨_, rfl⟩
      · exact ⟨t₃, hordinary⟩
    exact ⟨t₄.count, by rw [hlanes]; rfl⟩
  · exact .inr hworn

/-! ### Fair queues -/

/-- How an open circuit deals with what is sent, after the history so far. -/
structure Fair (l : List Moment) (c : Circuit) : Prop where
  /-- The queues are first in, first out, and nothing is lost. -/
  lossless : Lossless (history l) c
  /-- What is sent for the first time is what was queued, under a new number. Everything else carries
  the flag for another transmission. -/
  first : ∀ p d, (p, d) ∈ transmissions (history l) →
    ((Datagram.flags d).resent = false ↔ p.isNew = true) ∧
      (p.isNew = true → Datagram.setSequence (Datagram.sequence d) p.buffer = .ok (Datagram.bare d))
  /-- A message is queued as a whole, at the end of its queue, or is refused without a trace. -/
  sending : ∀ category m reliable notify f, Sending category m reliable notify c f
  /-- A tick comes to an end, unless the retries of some datagram are used up. -/
  ends : ∀ now f, (∃ t, c.tick now f = .ok t) ∨ (c.prepared now f).circuit.Worn
  /-- What is due anyway comes first in a tick. -/
  upkept : ∀ now f, Upkept c.config.mtu (c.prepared now f)
  /-- Then each lane may send one datagram, or only the first lane if the tick stalls. -/
  round : ∀ now f t, c.tick now f = .ok t →
    Turn.Round now (if t.output.stalled then [.resend] else Lane.all) (c.prepared now f) t

/-- **The queues of a circuit are fair,** until it is closed. -/
theorem fair_of_lived {l : List Moment} (h : Lived (fun _ ↦ True) config l c)
    (hopen : c.isClosed = false) : Fair l c where
  lossless := h.traced.lossless hopen
  first _ _ hmem := h.traced.first_iff hmem
  sending := apply_send hopen
  ends := exists_tick h.traced hopen
  upkept now f := upkept_prepared now c f
  round _ _ _ ht := round_of_tick h.traced.books ht hopen

/-- Two messages for one lane, one for the lane of resent datagrams, and a tick. -/
def queuingOperations : List (Operation × Forest) :=
  let send (lane : Lane) (n : UInt8) : Operation :=
    .send (.throttled lane) { id := .high 5, payload := [n] } true false
  [send .task 1, send .task 2, send .resend 3, .tick (100 * Span.millisecond)].map
    (·, ⟨List.replicate 9 (.full [] 0 0 0)⟩)

theorem fair_of_queuing : ∃ l c, Lived (fun _ ↦ True) {} l c ∧ c.isClosed = false ∧
    (newlySent (history l)).map Outgoing.category = [.throttled .resend, .throttled .task] ∧
    (c.queues.get .task).toList.length = 1 ∧ Fair l c := by
  obtain ⟨⟨l, c⟩, hlive, htest⟩ := exists_eq_ok_of_any
    (x := live ⟨.ofNat 7, .ofNat 8, 99, none⟩ (.loopback 5) {} 0 0 {} queuingOperations)
    (p := fun r ↦ decide (r.2.isClosed = false ∧
      (newlySent (history r.1)).map Outgoing.category = [.throttled .resend, .throttled .task] ∧
      (r.2.queues.get .task).toList.length = 1)) (by decide +kernel)
  obtain ⟨hopen, hsent, hwaiting⟩ := of_decide_eq_true htest
  have hlived : Lived (fun _ ↦ True) {} l c :=
    ⟨_, _, _, _, _, _, by simp [queuingOperations, Operation.QueuesOnly], hlive⟩
  exact ⟨l, c, hlived, hopen, hsent, hwaiting, fair_of_lived hlived hopen⟩

end Circuit

end DatagramCircuits
