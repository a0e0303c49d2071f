import DatagramCircuits.Proofs.Ticks
/-!
# Records and answers

The record of an operation is no second opinion about it. What it tells of datagrams sent, and of
datagrams that left the account, is what the answer says, as far as the answer says anything about it
(`agrees_of_chronicle`). Statements about records are therefore statements about answers.
-/

namespace DatagramCircuits

namespace Circuit

/-- The number of datagrams that the answer says were given up because of their age. -/
def Answer.droppedUnacked : Answer → Nat
  | ticked output => output.droppedUnacked
  | _ => 0

/-- The datagrams that the answer hands out, as they were not acknowledged. -/
def Answer.unacknowledged : Answer → List Outgoing
  | ticked output => output.unacknowledged
  | _ => []

/-- The record of a moment tells what its answer says. -/
structure Moment.Agrees (m : Moment) : Prop where
  /-- The datagrams of the answer are those sent, in the same order. -/
  datagrams : m.answer.datagrams = m.events.filterMap Event.datagram?
  /-- What the answer counts as dropped was given up because of its age. -/
  droppedUnacked : m.answer.droppedUnacked = (m.events.filterMap Event.outdated?).length
  /-- What the answer hands out left the account for that. -/
  unacknowledged : m.answer.unacknowledged = m.events.filterMap Event.unacknowledged?
  /-- What the answer counts as matched was acknowledged. -/
  matched : ∀ n, m.answer = .matched n → n = (m.events.filterMap Event.acknowledged?).length

/-! ### Records of service -/

/-- Nothing leaves the account while the queues are served. -/
theorem Service.departures_eq_nil {now : Instant} {c c' : Circuit} {k : List Event}
    (h : Service now c k c') : departures k = [] := by
  cases h with
  | quiet h => exact h.departures_eq_nil
  | discard h => rfl
  | holdBack h => rfl
  | transmit h hsent => rfl

theorem departures_eq_nil_of_chain {now : Instant} {c c' : Circuit} {k : List Event}
    (h : Chain (Service now) c k c') : departures k = [] := by
  refine h.preserves (motive := fun l _ ↦ departures l = []) (k := []) rfl ?_
  intro l k c c' hl hstep
  rw [departures_append, hl, hstep.departures_eq_nil, List.append_nil]

/-- Where nothing leaves the account, no way out of it is taken. -/
theorem filterMap_eq_nil_of_departures {k : List Event} (h : departures k = [])
    {view : Event → Option Outgoing} (hview : ∀ ev, ev.departure? = none → view ev = none) :
    k.filterMap view = [] :=
  List.filterMap_eq_nil_iff.2 fun ev hev ↦ hview ev (List.filterMap_eq_nil_iff.1 h ev hev)

theorem outdated_eq_nil {k : List Event} (h : departures k = []) :
    k.filterMap Event.outdated? = [] := by
  refine filterMap_eq_nil_of_departures h ?_
  intro ev hno
  cases ev <;> first | rfl | exact hno

theorem unacknowledged_eq_nil {k : List Event} (h : departures k = []) :
    k.filterMap Event.unacknowledged? = [] := by
  refine filterMap_eq_nil_of_departures h ?_
  intro ev hno
  cases ev <;> first | rfl | exact hno

/-! ### Agreement -/

/-- A moment whose answer says nothing about the account agrees with a record in which nothing leaves
it. -/
theorem agrees_of_departures_eq_nil {answer : Answer} {k : List Event}
    (hd : answer.datagrams = k.filterMap Event.datagram?) (hk : departures k = [])
    (h : answer.droppedUnacked = 0 ∧ answer.unacknowledged = [] ∧ ∀ n, answer ≠ .matched n) :
    Moment.Agrees ⟨answer, k⟩ where
  datagrams := hd
  droppedUnacked := by rw [outdated_eq_nil hk, h.1]; rfl
  unacknowledged := by rw [unacknowledged_eq_nil hk, h.2.1]
  matched n hn := (h.2.2 n hn).elim

/-- What the look for datagrams to be sent again puts into the output is what it notes. -/
theorem agrees_checkResends (now : Instant) (c : Circuit) (f : Forest) :
    Moment.Agrees
      ⟨.ticked (Turn.checkResends now { circuit := c, forest := f }).output,
        (Turn.checkResends now { circuit := c, forest := f }).log⟩ := by
  rw [Turn.checkResends]
  dsimp only
  split
  · exact ⟨rfl, rfl, rfl, fun n hn ↦ by cases hn⟩
  · refine ⟨?_, ?_, ?_, fun n hn ↦ by cases hn⟩ <;>
      simp [Turn.note, Answer.datagrams, Answer.droppedUnacked, Answer.unacknowledged,
        List.filterMap_map, Function.comp_def, Event.datagram?, Event.outdated?,
        Event.unacknowledged?]

theorem agrees_tick {now : Instant} {c : Circuit} {f : Forest} {t : Turn} (h : c.tick now f = .ok t) :
    Moment.Agrees ⟨.ticked t.output, t.log⟩ := by
  cases hclosed : c.isClosed with
  | true =>
    rw [tick_of_isClosed h hclosed]
    exact ⟨rfl, rfl, rfl, fun n hn ↦ by cases hn⟩
  | false =>
    obtain ⟨⟨k, hchain, hlog, hout⟩, hdropped, hunacked⟩ := serves_of_tick h hclosed
    have hk := departures_eq_nil_of_chain hchain
    have hcheck := agrees_checkResends now c f
    refine ⟨?_, ?_, ?_, fun n hn ↦ by cases hn⟩
    · show t.output.datagrams = t.log.filterMap Event.datagram?
      rw [hlog, List.filterMap_append, hout]
      exact congrArg (· ++ _) hcheck.datagrams
    · show t.output.droppedUnacked = (t.log.filterMap Event.outdated?).length
      rw [hlog, List.filterMap_append, outdated_eq_nil hk, List.append_nil, hdropped]
      exact hcheck.droppedUnacked
    · show t.output.unacknowledged = t.log.filterMap Event.unacknowledged?
      rw [hlog, List.filterMap_append, unacknowledged_eq_nil hk, List.append_nil, hunacked]
      exact hcheck.unacknowledged

/-- Datagrams that are queued are neither sent nor leave the account. -/
theorem silent_sendEvents (category : Category) (m : Message) (reliable notify : Bool) (c : Circuit) :
    (c.sendEvents category m reliable notify).filterMap Event.datagram? = [] ∧
      departures (c.sendEvents category m reliable notify) = [] := by
  rw [sendEvents]
  split
  · constructor <;> simp [departures, List.filterMap_map, Function.comp_def, Event.datagram?,
      Event.departure?]
  · exact ⟨rfl, rfl⟩

theorem silent_queuing (c : Circuit) (r : Except SendError Circuit) :
    (c.queuing r).1.datagrams = [] ∧ (c.queuing r).1.droppedUnacked = 0 ∧
      (c.queuing r).1.unacknowledged = [] ∧ ∀ n, (c.queuing r).1 ≠ .matched n := by
  cases r <;> exact ⟨rfl, rfl, rfl, fun n hn ↦ by cases hn⟩

theorem datagrams_arrivalEvents (p : Packet) (length : Nat) (now : Instant) (c : Circuit) :
    (c.arrivalEvents p length now).filterMap Event.datagram? = [] ∧
      (c.arrivalEvents p length now).filterMap Event.outdated? = [] ∧
      (c.arrivalEvents p length now).filterMap Event.unacknowledged? = [] := by
  rw [arrivalEvents]
  split <;> refine ⟨?_, ?_, ?_⟩ <;>
    simp [List.filterMap_map, Function.comp_def, Event.datagram?, Event.outdated?,
      Event.unacknowledged?]

theorem datagrams_closeEvents (c : Circuit) :
    c.closeEvents.filterMap Event.datagram? = [] ∧ c.closeEvents.filterMap Event.outdated? = [] ∧
      c.closeEvents.filterMap Event.unacknowledged? = [] := by
  rw [closeEvents]
  split <;> refine ⟨?_, ?_, ?_⟩ <;>
    simp [List.filterMap_map, Function.comp_def, Event.datagram?, Event.outdated?,
      Event.unacknowledged?]

/-- The answer is of the kind that the operation gets. -/
def Answer.IsTo : Operation → Answer → Prop
  | .send .., queued | .send .., refused _ | .enqueue _, queued | .enqueue _, refused _
  | .tick _, ticked _ | .receive .., received _ | .acknowledge .., matched _ | .flushAcks, flushed _
  | .ping _, pinged _ | .answerPing _, answered _ | .answerPing _, unanswered _
  | .takePong .., confirmed _ | .renegotiate .., adjusted _ | .connect, confirmed _
  | .pause, confirmed _ | .resume, confirmed _ | .close, confirmed _ | .beginQueueEmpty _, confirmed _
  | .endQueueEmpty, done => True
  | _, _ => False

/-- **An operation gets an answer of its kind.** -/
theorem kind_of_apply {o : Operation} {c c' : Circuit} {f f' : Forest} {answer : Answer}
    (h : c.apply o f = .ok (answer, c', f')) : answer.IsTo o := by
  cases o with
  | send category m reliable notify =>
    cases h
    cases c.send category m reliable notify <;> trivial
  | enqueue p =>
    cases h
    cases c.enqueue p <;> trivial
  | tick now =>
    obtain ⟨t, -, rfl, rfl, rfl⟩ := eq_of_apply_tick h
    trivial
  | receive p length now =>
    obtain ⟨disposition, -, h⟩ := bind_eq_ok_iff.1 h
    cases h
    trivial
  | answerPing id =>
    simp only [apply] at h
    split at h <;> cases h <;> trivial
  | renegotiate requested now =>
    obtain ⟨⟨adjustment, forest⟩, -, h⟩ := bind_eq_ok_iff.1 h
    cases h
    trivial
  | close =>
    rw [apply_close] at h
    obtain ⟨rfl, -⟩ := Prod.mk.inj (Except.ok.inj h)
    trivial
  | acknowledge | flushAcks | ping | takePong | connect | pause | resume | beginQueueEmpty
  | endQueueEmpty =>
    cases h
    trivial

/-- Nothing but a tick takes anything out of a queue. -/
theorem transmissions_events {o : Operation} (ho : ∀ now, o ≠ .tick now) (c : Circuit) (f : Forest) :
    transmissions (c.events o f) = [] := by
  cases o with
  | send category m reliable notify =>
    simp only [events, sendEvents]
    split
    · exact filterMap_map_eq_nil (fun _ ↦ rfl) _
    · rfl
  | enqueue p =>
    simp only [events]
    split <;> rfl
  | tick now => exact absurd rfl (ho now)
  | receive p length now =>
    simp only [events, arrivalEvents]
    split
    · exact filterMap_map_eq_nil (fun _ ↦ rfl) _
    · rfl
    · rw [transmissions_append]
      exact List.append_eq_nil_iff.2 ⟨filterMap_map_eq_nil (fun _ ↦ rfl) _, rfl⟩
  | acknowledge | flushAcks | ping => exact filterMap_map_eq_nil (fun _ ↦ rfl) _
  | answerPing id =>
    simp only [events]
    split <;> rfl
  | close =>
    simp only [events, closeEvents]
    split
    · rfl
    · exact filterMap_map_eq_nil (fun _ ↦ rfl) _
  | _ => rfl

/-- **The record of an operation agrees with its answer.** -/
theorem agrees_of_apply {o : Operation} {c c' : Circuit} {f f' : Forest} {answer : Answer}
    (h : c.apply o f = .ok (answer, c', f')) : Moment.Agrees ⟨answer, c.events o f⟩ := by
  -- most operations let nothing depart, and then only the datagrams are to be compared
  cases o with
  | send category m reliable notify =>
    cases h
    obtain ⟨hanswer, hrest⟩ := silent_queuing c (c.send category m reliable notify)
    obtain ⟨hdatagrams, hdepartures⟩ := silent_sendEvents category m reliable notify c
    exact agrees_of_departures_eq_nil (hanswer.trans hdatagrams.symm) hdepartures hrest
  | enqueue p =>
    cases h
    obtain ⟨hanswer, hrest⟩ := silent_queuing c (c.enqueue p)
    refine agrees_of_departures_eq_nil (hanswer.trans ?_) ?_ hrest <;>
      simp only [events] <;> split <;> rfl
  | tick now =>
    obtain ⟨t, ht, rfl, rfl, rfl⟩ := eq_of_apply_tick h
    simp only [events, ht]
    exact agrees_tick ht
  | receive p length now =>
    obtain ⟨disposition, hd, h⟩ := bind_eq_ok_iff.1 h
    cases h
    obtain ⟨hdatagrams, houtdated, hunacked⟩ := datagrams_arrivalEvents p length now c
    exact ⟨hdatagrams.symm, (congrArg List.length houtdated).symm, hunacked.symm,
      fun n hn ↦ by cases hn⟩
  | acknowledge sequences now =>
    cases h
    refine ⟨?_, ?_, ?_, fun n hn ↦ ?_⟩
    · simp [Answer.datagrams, events, List.filterMap_map, Function.comp_def, Event.datagram?]
    · simp [Answer.droppedUnacked, events, List.filterMap_map, Function.comp_def, Event.outdated?]
    · simp [Answer.unacknowledged, events, List.filterMap_map, Function.comp_def,
        Event.unacknowledged?]
    · cases hn
      simp [events, Circuit.acknowledge, List.filterMap_map, Function.comp_def,
        Event.acknowledged?]
  | flushAcks =>
    cases h
    exact agrees_of_departures_eq_nil (Turn.filterMap_datagram?_map_signalled _).symm
      (filterMap_map_eq_nil (fun _ ↦ rfl) _) ⟨rfl, rfl, fun n hn ↦ by cases hn⟩
  | ping now =>
    cases h
    exact agrees_of_departures_eq_nil (Turn.filterMap_datagram?_map_signalled _).symm
      (filterMap_map_eq_nil (fun _ ↦ rfl) _) ⟨rfl, rfl, fun n hn ↦ by cases hn⟩
  | answerPing id =>
    simp only [apply] at h
    simp only [events]
    cases hd : c.answerPing id with
    | ok d =>
      rw [hd] at h
      cases h
      exact ⟨rfl, rfl, rfl, fun n hn ↦ by cases hn⟩
    | error e =>
      rw [hd] at h
      cases h
      exact ⟨rfl, rfl, rfl, fun n hn ↦ by cases hn⟩
  | renegotiate requested now =>
    obtain ⟨⟨adjustment, forest⟩, -, h⟩ := bind_eq_ok_iff.1 h
    cases h
    exact ⟨rfl, rfl, rfl, fun n hn ↦ by cases hn⟩
  | close =>
    obtain ⟨hdatagrams, houtdated, hunacked⟩ := datagrams_closeEvents c
    rw [apply_close] at h
    obtain ⟨rfl, -⟩ := Prod.mk.inj (Except.ok.inj h)
    exact ⟨hdatagrams.symm, (congrArg List.length houtdated).symm, hunacked.symm,
      fun n hn ↦ by cases hn⟩
  | takePong id now | connect | pause | resume | beginQueueEmpty now | endQueueEmpty =>
    cases h
    exact ⟨rfl, rfl, rfl, fun n hn ↦ by cases hn⟩

/-- **Records agree with answers** in all moments of a chronicle. -/
theorem agrees_of_chronicle {ops : List (Operation × Forest)} {c c' : Circuit} {l : List Moment}
    (h : chronicle ops c = .ok (l, c')) : ∀ m ∈ l, m.Agrees := by
  induction ops generalizing c l with
  | nil =>
    obtain ⟨rfl, rfl⟩ := Prod.mk.inj (Except.ok.inj h)
    intro m hm
    exact absurd hm List.not_mem_nil
  | cons o ops ih =>
    obtain ⟨answer, next, forest, l', ho, hrest, rfl⟩ := chronicle_cons_eq_ok h
    intro m hm
    rcases List.mem_cons.1 hm with rfl | hm
    · exact agrees_of_apply ho
    · exact ih hrest m hm

end Circuit

end DatagramCircuits
