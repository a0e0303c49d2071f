import DatagramCircuits.Circuit.Company
import DatagramCircuits.Proofs.Release
/-!
# The end of a circuit

A circuit that is closed stays closed, and nothing comes of it any more. Some operations look whether
the circuit is closed; the others find nothing to work on: no datagram is in the account, no
acknowledgement is to be sent, no ping is outstanding, and all buckets of its own are detached
(`Circuit.Ended`). So **whatever is done with it leaves it as it is** (`Circuit.Ended.apply`), apart
from pings, their answers and notices of empty queues, which are made without a look at anything.

**The forest is shared.** What a circuit does is done with its own buckets (`Circuit.draws_of_apply`), so
others are not in its way. They may do anything with their buckets before and after it is closed.
-/

namespace DatagramCircuits

namespace Allowance

variable {a : Allowance} {f f' f'' : Forest} {now : Instant}

/-- The second forest is what becomes of the first one by what is done with the buckets of the
allowance. -/
def Draws (a : Allowance) (f f' : Forest) : Prop :=
  ∃ ops, (∀ o ∈ ops, a.Handles o) ∧ f' = f.run ops

theorem Draws.refl : a.Draws f f :=
  ⟨[], nofun, rfl⟩

theorem Draws.trans (h : a.Draws f f') (h' : a.Draws f' f'') : a.Draws f f'' := by
  obtain ⟨ops, hops, rfl⟩ := h
  obtain ⟨ops', hops', rfl⟩ := h'
  refine ⟨ops ++ ops', fun o ho ↦ ?_, (Forest.run_append ..).symm⟩
  exact (List.mem_append.1 ho).elim (hops o) (hops' o)

/-- Taking from the allowance is done with its own buckets. -/
theorem draws_withdraw (a : Allowance) (category : Category) (n : Nat) (now : Instant) (f : Forest) :
    a.Draws f (a.withdraw category n now f).2 := by
  cases category with
  | unthrottled => exact .refl
  | throttled lane =>
    refine ⟨[.withdraw (a.lanes.get lane) n now], fun o ho ↦ ?_, rfl⟩
    obtain rfl := List.mem_singleton.1 ho
    exact .inr ⟨lane, rfl⟩

/-- New rates are a matter of the allowance's own buckets. -/
theorem draws_renegotiate {warnings : Bool} {requested : Rates} {adjustment : Adjustment}
    (h : a.renegotiate warnings requested now f = .ok (adjustment, f')) : a.Draws f f' :=
  ⟨_, fun _ ho ↦ handles_renegotiating ho, (eq_run_of_renegotiate h).2⟩

/-- So is giving the allowance back. -/
theorem draws_detach (a : Allowance) (f : Forest) : a.Draws f (a.detach f) := by
  refine ⟨a.detaching, fun o ho ↦ ?_, (run_detaching a f).symm⟩
  obtain ⟨j, hj, rfl⟩ := handles_detaching ho
  exact hj

end Allowance

namespace Turn

variable {now : Instant} {t t' : Turn}

/-- The search for datagrams to be sent again takes from no bucket. -/
theorem forest_checkResends (now : Instant) (t : Turn) : (t.checkResends now).forest = t.forest := by
  rw [checkResends]
  dsimp only
  split <;> rfl

/-- Nor do acknowledgements that are sent on their own. -/
theorem forest_checkAcks (now : Instant) (t : Turn) : (t.checkAcks now).forest = t.forest := by
  unfold checkAcks
  dsimp only
  split <;> rfl

/-- Nor do pings. -/
theorem forest_checkPing (now : Instant) (t : Turn) : (t.checkPing now).forest = t.forest := by
  rw [checkPing]
  dsimp only
  split <;> rfl

/-- What serving a lane takes, it draws from the buckets of the circuit. -/
theorem draws_of_withdraw {lane : Lane} {p : Outgoing} {granted : Bool} {forest : Forest}
    (h : t.circuit.allowance.withdraw (.throttled lane) p.length now t.forest = (granted, forest)) :
    t.circuit.allowance.Draws t.forest forest := by
  have hdraws := t.circuit.allowance.draws_withdraw (.throttled lane) p.length now t.forest
  rw [h] at hdraws
  exact hdraws

/-- One visit of a lane draws from the circuit's own buckets. -/
theorem draws_of_serveLane {lane : Lane} {d : Option Octets}
    (h : t.serveLane lane now = .ok (d, t')) : t.circuit.allowance.Draws t.forest t'.forest := by
  obtain ⟨q, -, -, rfl⟩ | ⟨p, q, forest, -, hwithdraw, -, rfl⟩ |
    ⟨p, q, forest, datagram, circuit, -, hwithdraw, -, -, rfl⟩ := serveLane_eq_ok h
  · exact .refl
  · exact draws_of_withdraw hwithdraw
  · exact draws_of_withdraw hwithdraw

/-- All states of a tick draw from the buckets of the circuit. -/
theorem comesTo_draws (now : Instant) (t : Turn) :
    ComesTo (fun t' ↦ Keeps t t' ∧ t.circuit.allowance.Draws t.forest t'.forest) now
      (t.serveLanes now) := by
  refine comesTo_serveLanes (fun _ _ h ↦ h) ?_ ⟨⟨rfl, rfl⟩, .refl⟩
  rintro u u' lane d ⟨hkeeps, hdraws⟩ hlane
  have hnext := draws_of_serveLane hlane
  rw [Circuit.allowance_of_standing hkeeps.standing] at hnext
  exact ⟨hkeeps.trans (keeps_of_serveLane hlane), hdraws.trans hnext⟩

end Turn

namespace Circuit

variable {now : Instant} {c c' : Circuit} {f f' : Forest} {o : Operation} {answer : Answer}

/-! ### What a circuit does with the forest -/

/-- A tick draws from the circuit's own buckets, even if a fault ends it. -/
theorem draws_of_tick {t : Turn}
    (h : c.tick now f = .ok t ∨ ∃ fault, c.tick now f = .error (fault, t)) :
    c.allowance.Draws f t.forest := by
  let start := ((Turn.checkResends now { circuit := c, forest := f }).checkAcks now).checkPing now
  have hforest : start.forest = f := ((Turn.forest_checkPing now _).trans
    (Turn.forest_checkAcks now _)).trans (Turn.forest_checkResends now { circuit := c, forest := f })
  have hallowance : start.circuit.allowance = c.allowance :=
    allowance_of_standing (keeps_checks now c f).standing
  have hdraws := Turn.comesTo_draws now start
  rw [hforest, hallowance] at hdraws
  rcases h with h | ⟨fault, h⟩
  · obtain ⟨-, rfl⟩ | ⟨-, t₁, hlanes, rfl⟩ := tick_eq_ok h
    · exact .refl
    · rw [hlanes] at hdraws
      exact hdraws.2
  · rw [(tick_eq_error h).2] at hdraws
    obtain ⟨u, lane, ⟨hkeeps, hdraws⟩, hlane⟩ := hdraws
    obtain ⟨p, q, forest, -, hwithdraw, -, rfl⟩ := Turn.serveLane_eq_error hlane
    have hlast := Turn.draws_of_withdraw hwithdraw
    rw [allowance_of_standing hkeeps.standing, hallowance] at hlast
    exact hdraws.trans hlast

/-- An operation leaves the forest alone, or it is a tick, a negotiation or the end. -/
theorem forest_of_apply (h : c.apply o f = .ok (answer, c', f')) :
    f' = f ∨ (∃ now t, o = .tick now ∧ c.tick now f = .ok t ∧ f' = t.forest) ∨
      (∃ requested now adjustment, o = .renegotiate requested now ∧
        c.renegotiate requested now f = .ok (adjustment, f')) ∨
      o = .close ∧ f' = (c.close f).2.2 := by
  cases o with
  | tick now =>
    obtain ⟨t, ht, rfl, rfl, rfl⟩ := eq_of_apply_tick h
    exact .inr (.inl ⟨now, t, rfl, ht, rfl⟩)
  | receive p length now =>
    obtain ⟨disposition, -, h⟩ := bind_eq_ok_iff.1 h
    cases h
    exact .inl rfl
  | renegotiate requested now =>
    obtain ⟨⟨adjustment, forest⟩, hrates, h⟩ := bind_eq_ok_iff.1 h
    cases h
    exact .inr (.inr (.inl ⟨requested, now, adjustment, rfl, hrates⟩))
  | answerPing id =>
    simp only [apply] at h
    split at h <;> cases h <;> exact .inl rfl
  | close =>
    rw [apply_close] at h
    obtain ⟨-, h⟩ := Prod.mk.inj (Except.ok.inj h)
    exact .inr (.inr (.inr ⟨rfl, (Prod.mk.inj h).2.symm⟩))
  | _ =>
    cases h
    exact .inl rfl

/-- **What a circuit does is done with its own buckets.** -/
theorem draws_of_apply (h : c.apply o f = .ok (answer, c', f')) : c.allowance.Draws f f' := by
  obtain rfl | ⟨now, t, -, ht, rfl⟩ | ⟨requested, now, adjustment, -, hrates⟩ | ⟨-, rfl⟩ :=
    forest_of_apply h
  · exact .refl
  · exact draws_of_tick (.inl ht)
  · exact Allowance.draws_renegotiate hrates
  · cases hclosed : c.isClosed with
    | true =>
      rw [close_of_closed hclosed]
      exact .refl
    | false =>
      rw [close_of_open hclosed]
      dsimp only
      exact c.allowance.draws_detach f

/-- Nothing that is done with a circuit, short of closing it, changes its standing. -/
theorem standing_of_apply (ho : o ≠ .close) (h : c.apply o f = .ok (answer, c', f')) :
    c'.standing = c.standing := by
  cases o with
  | send category m reliable notify =>
    cases h
    cases hs : c.send category m reliable notify with
    | error e => rfl
    | ok next => exact standing_send hs
  | enqueue p =>
    cases h
    rw [enqueue]
    split
    · rfl
    · split <;> rfl
  | tick now =>
    obtain ⟨t, ht, rfl, rfl, rfl⟩ := eq_of_apply_tick h
    exact (keeps_of_tick ht).1
  | receive p length now =>
    obtain ⟨disposition, -, h⟩ := bind_eq_ok_iff.1 h
    cases h
    exact standing_receive p length now c
  | ping now =>
    cases h
    have hnext := standing_of_background (background_nextPingDatagram now c)
    rw [ping]
    split <;> rename_i heq <;> rw [heq] at hnext <;> exact hnext
  | answerPing id => rw [eq_of_apply_answerPing h]
  | takePong id now =>
    cases h
    exact standing_takePong id now c
  | renegotiate requested now =>
    obtain ⟨⟨adjustment, forest⟩, -, h⟩ := bind_eq_ok_iff.1 h
    cases h
    rfl
  | connect | pause | resume =>
    cases h
    exact standing_transition (by decide) (by decide) c
  | close => exact absurd rfl ho
  | beginQueueEmpty now =>
    cases h
    exact standing_beginQueueEmpty now c
  | acknowledge | flushAcks | endQueueEmpty =>
    cases h
    rfl

/-- A circuit keeps its buckets, whatever is done with it. -/
theorem allowance_of_apply (h : c.apply o f = .ok (answer, c', f')) : c'.allowance = c.allowance := by
  by_cases ho : o = .close
  · subst ho
    rw [apply_close] at h
    obtain ⟨-, h⟩ := Prod.mk.inj (Except.ok.inj h)
    rw [← (Prod.mk.inj h).1, close]
    split <;> rfl
  · exact allowance_of_standing (standing_of_apply ho h)

/-- **What a fault leaves behind** is a circuit with the same buckets, and it drew from no others. -/
theorem afterFault_spec (o : Operation) (c : Circuit) (f : Forest) :
    (c.afterFault o f).1.allowance = c.allowance ∧ c.allowance.Draws f (c.afterFault o f).2 := by
  cases o with
  | tick now =>
    cases htick : c.tick now f with
    | ok t =>
      simp only [afterFault, htick]
      exact ⟨allowance_of_standing (keeps_of_tick htick).1, draws_of_tick (.inl htick)⟩
    | error e =>
      obtain ⟨fault, t⟩ := e
      simp only [afterFault, htick]
      have hstanding := standing_of_background (background_of_tick_error htick).1
      exact ⟨allowance_of_standing hstanding, draws_of_tick (.inr ⟨fault, htick⟩)⟩
  | receive p length now => exact ⟨allowance_of_standing (standing_receive p length now c), .refl⟩
  | _ => exact ⟨rfl, .refl⟩

/-! ### A closed circuit -/

/-- Nothing is left of the circuit: there is nothing to be sent, nothing that an answer is awaited
for, and no bucket to draw from. -/
structure Ended (c : Circuit) (f : Forest) : Prop where
  phase : c.phase = .disconnected
  queues : c.queues = PerLane.replicate {}
  unacked : c.tracker.unacked = []
  pendingAcks : c.tracker.pendingAcks = []
  outstandingPing : c.outstandingPing = none
  released : c.allowance.Released f

/-- Pings, their answers and notices of empty queues are made also for a closed circuit. -/
def Operation.endures : Operation → Bool
  | .ping _ | .answerPing _ | .beginQueueEmpty _ | .endQueueEmpty => true
  | _ => false

/-- The answer says that nothing was done; of rates it says what they would be. -/
def Operation.isIdle : Operation → Answer → Bool
  | .send .., .refused _ | .enqueue _, .refused _ | .renegotiate .., .adjusted _ => true
  | .tick _, .ticked output => output = {}
  | .receive .., .received disposition => disposition = .closed
  | .acknowledge .., .matched count => count = 0
  | .flushAcks, .flushed l => l.isEmpty
  | .takePong .., .confirmed effective | .connect, .confirmed effective | .pause, .confirmed effective
  | .resume, .confirmed effective | .close, .confirmed effective => !effective
  | _, _ => false

/-- What has come to its end is closed. -/
theorem Ended.isClosed (h : c.Ended f) : c.isClosed = true := by
  rw [Circuit.isClosed, h.phase]
  rfl

theorem pieces_nil {size : Nat} (h : 0 < size) : Octets.pieces size ([] : List UInt32) = [] := by
  have hcount : Octets.pieceCount size 0 = 0 := Nat.div_eq_of_lt (by omega)
  rw [Octets.pieces, List.length_nil, hcount]
  rfl

/-- Acknowledgements find nothing in an empty account. -/
theorem acknowledgeAll_of_unacked {t : Tracker} (h : t.unacked = []) (sequences : List UInt32)
    (now : Instant) : t.acknowledgeAll sequences now = ([], t) := by
  have hremove : ∀ n, t.remove n = (none, t) := fun n ↦ by
    rw [Tracker.remove, Tracker.find?]
    simp only [h, List.find?_nil, List.filter_nil, Option.map_none]
    rw [← h]
  induction sequences with
  | nil => rfl
  | cons n sequences ih =>
    rw [Tracker.acknowledgeAll, Tracker.acknowledge, hremove]
    dsimp only
    rw [ih]
    rfl

/-- Nothing can be sent on a closed circuit. -/
theorem exists_send_eq_error (h : c.isClosed = true) (category : Category) (m : Message)
    (reliable notify : Bool) : ∃ e, c.send category m reliable notify = .error e := by
  cases category with
  | unthrottled => exact ⟨_, rfl⟩
  | throttled lane =>
    cases hframe : m.frame reliable c.config.mtu with
    | error e => exact ⟨.frame e, by simp [send, hframe, bind, Except.bind]⟩
    | ok l => exact ⟨.closed c.agent, by simp [send, hframe, h, bind, Except.bind, throw, throwThe,
        MonadExceptOf.throw]⟩

/-- Nothing can be queued again on a closed circuit. -/
theorem exists_enqueue_eq_error (h : c.isClosed = true) (p : Outgoing) :
    ∃ e, c.enqueue p = .error e := by
  rw [enqueue]
  split
  · exact ⟨_, rfl⟩
  · exact ⟨_, if_pos h⟩

/-- A change of phase that starts elsewhere is refused, and changes nothing. -/
theorem transition_of_phase {source target : Phase} (h : c.phase ≠ source) :
    c.transition source target = (false, c) :=
  if_neg h

/-- **A closed circuit is left as it is,** and says so. There is an answer to everything, unless the
rates that are asked for are too large to be added up. -/
theorem Ended.apply (h : c.Ended f) (ho : o.endures = false) :
    (∃ answer f', c.apply o f = .ok (answer, c, f') ∧ o.isIdle answer) ∨
      ∃ requested now fault, o = .renegotiate requested now ∧ c.apply o f = .error fault ∧
        (Rates.negotiate c.allowance.limit requested >>= Adjustment.warn c.config.warnings) =
          .error fault := by
  have hclosed := h.isClosed
  -- each operation looks at the phase first, or finds nothing to work on
  cases o with
  | send category m reliable notify =>
    obtain ⟨e, he⟩ := exists_send_eq_error hclosed category m reliable notify
    exact .inl ⟨.refused e, f, by rw [Circuit.apply, he]; rfl, rfl⟩
  | enqueue p =>
    obtain ⟨e, he⟩ := exists_enqueue_eq_error hclosed p
    exact .inl ⟨.refused e, f, by rw [Circuit.apply, he]; rfl, rfl⟩
  | tick now =>
    have htick : c.tick now f = .ok { circuit := c, forest := f } := by
      rw [tick]
      exact if_pos hclosed
    exact .inl ⟨.ticked {}, f, by rw [Circuit.apply, htick]; rfl, rfl⟩
  | receive p length now =>
    have hreceive : c.receive p length now = (.ok .closed, c) := if_pos hclosed
    exact .inl ⟨.received .closed, f, by rw [Circuit.apply, hreceive]; rfl, rfl⟩
  | acknowledge sequences now =>
    have hnone : c.acknowledge sequences now = ([], c) := by
      rw [acknowledge, acknowledgeAll_of_unacked h.unacked]
    exact .inl ⟨.matched 0, f, by rw [Circuit.apply, hnone]; rfl, rfl⟩
  | flushAcks =>
    have hpositive : 0 < acksPerDatagram c.config.mtu := Nat.le_max_left ..
    have hnone : c.flushAcks = ([], c) := by
      rw [flushAcks, ackDatagrams, h.pendingAcks, pieces_nil hpositive, sendAcks]
      simp
    exact .inl ⟨.flushed [], f, by rw [Circuit.apply, hnone]; rfl, rfl⟩
  | takePong id now =>
    have hnone : c.takePong id now = (false, c) := by
      rw [takePong, h.outstandingPing]
    exact .inl ⟨.confirmed false, f, by rw [Circuit.apply, hnone]; rfl, rfl⟩
  | renegotiate requested now =>
    -- the rates are added up before it shows that no bucket is attached any more
    cases hgranted : Rates.negotiate c.allowance.limit requested with
    | error fault =>
      refine .inr ⟨requested, now, fault, rfl, ?_, by rw [hgranted]; rfl⟩
      rw [Circuit.apply, Circuit.renegotiate, Allowance.renegotiate, hgranted]
      rfl
    | ok adjustment =>
      cases hwarn : adjustment.warn c.config.warnings with
      | error fault =>
        refine .inr ⟨requested, now, fault, rfl, ?_, by rw [hgranted]; exact hwarn⟩
        rw [Circuit.apply, Circuit.renegotiate, Allowance.renegotiate, hgranted]
        simp only [bind, Except.bind, hwarn]
      | ok =>
        refine .inl ⟨.adjusted adjustment, f.run (c.allowance.renegotiating adjustment.applied now), ?_,
          rfl⟩
        rw [Circuit.apply, Circuit.renegotiate, Allowance.renegotiate, hgranted]
        simp only [bind, Except.bind, hwarn]
        rfl
  | connect =>
    have hnone : c.connect = (false, c) := transition_of_phase (by rw [h.phase]; decide)
    exact .inl ⟨.confirmed false, f, by rw [Circuit.apply, hnone]; rfl, rfl⟩
  | pause =>
    have hnone : c.pause = (false, c) := transition_of_phase (by rw [h.phase]; decide)
    exact .inl ⟨.confirmed false, f, by rw [Circuit.apply, hnone]; rfl, rfl⟩
  | resume =>
    have hnone : c.resume = (false, c) := transition_of_phase (by rw [h.phase]; decide)
    exact .inl ⟨.confirmed false, f, by rw [Circuit.apply, hnone]; rfl, rfl⟩
  | close =>
    exact .inl ⟨.confirmed false, f, by rw [apply_close, close_of_closed hclosed], rfl⟩
  | ping | answerPing | beginQueueEmpty | endQueueEmpty => cases ho

/-- A circuit that is closed, and whose allowance was given back, has come to its end. -/
theorem ended_of_released (h : c.allowance.Released f) : c.ended.Ended f :=
  ⟨rfl, rfl, rfl, rfl, rfl, h⟩

/-! ### In company -/

/-- In company, too, a circuit is closed by its own close and by nothing else. -/
theorem isClosed_of_coexist {l : List Happening} {answers : List Answer}
    (h : coexist l c f = .ok (answers, c', f')) :
    c'.isClosed = (c.isClosed || decide (.own .close ∈ l)) := by
  induction l generalizing c f answers with
  | nil =>
    cases h
    simp
  | cons e l ih =>
    obtain ⟨answer, next, forest, answers', he, hrest, -⟩ := coexist_cons_eq_ok h
    rw [ih hrest]
    obtain ⟨o, a, rfl, -, ho⟩ | ⟨o, rfl, -, rfl, -⟩ := meet_eq_ok he
    · by_cases hclose : o = .close
      · subst hclose
        have hnext : next.isClosed = true := by
          rw [apply_close] at ho
          obtain ⟨-, ho⟩ := Prod.mk.inj (Except.ok.inj ho)
          rw [← (Prod.mk.inj ho).1]
          cases hclosed : c.isClosed with
          | true => rw [close_of_closed hclosed, hclosed]
          | false => rw [close_of_open hclosed]; rfl
        simp [hnext]
      · rw [isClosed_of_apply hclose ho]
        simp [Ne.symm hclose]
    · simp

/-- All that happens is a history of the forest, and the circuit keeps its buckets. -/
theorem exists_run_of_coexist {l : List Happening} {answers : List Answer}
    (h : coexist l c f = .ok (answers, c', f')) :
    c'.allowance = c.allowance ∧ ∃ ops, f' = f.run ops := by
  induction l generalizing c f answers with
  | nil =>
    cases h
    exact ⟨rfl, [], rfl⟩
  | cons e l ih =>
    obtain ⟨answer, next, forest, answers', he, hrest, -⟩ := coexist_cons_eq_ok h
    obtain ⟨hallowance, ops, rfl⟩ := ih hrest
    obtain ⟨o, a, rfl, -, ho⟩ | ⟨o, rfl, -, rfl, rfl⟩ := meet_eq_ok he
    · obtain ⟨ops', -, rfl⟩ := draws_of_apply ho
      exact ⟨hallowance.trans (allowance_of_apply ho), ops' ++ ops, (Forest.run_append ..).symm⟩
    · exact ⟨hallowance, o :: ops, rfl⟩

end Circuit

namespace Allowance

variable {a : Allowance} {f f' : Forest} {t : Bucket}

/-- The operation is not done with a bucket of the allowance. -/
def Spares (a : Allowance) (o : Forest.Operation) : Prop :=
  ∀ id, o.subject? = some id → ¬a.Owns id

/-- What spares the total leaves what is due for it. -/
theorem Spares.due_total {o : Forest.Operation} (h : a.Spares o) (ht : f.get? a.total = some t) :
    ∃ t', (f.apply o).get? a.total = some t' ∧ t'.due = t.due := by
  obtain hterms | ⟨rate, burst, now, heq⟩ | ⟨parent, u, rate, burst, now, -, -, heq⟩ |
    ⟨id, u, rate, attached, hsubject, -, hadjusts⟩ := f.apply_cases o
  · obtain ⟨t', ht', -, hrate, -, hattached⟩ := Forest.exists_of_terms hterms ht
    exact ⟨t', ht', Bucket.due_congr hrate hattached⟩
  · exact ⟨t, heq ▸ Forest.get?_addRoot_of_get? ht, rfl⟩
  · rw [heq, Forest.get?_addChild_of_get? ht]
    split <;> exact ⟨_, rfl, rfl⟩
  · have hne : id ≠ a.total := fun hid ↦ h id hsubject (.inl hid)
    obtain ⟨t', ht', -, hrate, hattached, -⟩ := hadjusts.bucket _ t ht
    rw [if_neg hne] at hrate hattached
    exact ⟨t', ht', Bucket.due_congr hrate hattached⟩

end Allowance

namespace Circuit

variable {now : Instant} {c c' : Circuit} {f f' : Forest} {o : Operation} {answer : Answer}
  {root : BucketId} {t : Bucket}

/-- Short of closing it, nothing that is done with a circuit changes what is due to its total. -/
theorem due_total_of_apply (hplaced : c.allowance.Placed root f) (ho : o ≠ .close)
    (h : c.apply o f = .ok (answer, c', f')) (ht : f.get? c.allowance.total = some t) :
    ∃ t', f'.get? c.allowance.total = some t' ∧ t'.due = t.due := by
  obtain rfl | ⟨now, turn, -, hturn, rfl⟩ | ⟨requested, now, adjustment, -, hrates⟩ | ⟨hclose, -⟩ :=
    forest_of_apply h
  · exact ⟨t, ht, rfl⟩
  · obtain ⟨t', ht', -, hrate, -, hattached⟩ := Forest.exists_of_terms (keeps_of_tick hturn).2 ht
    exact ⟨t', ht', Bucket.due_congr hrate hattached⟩
  · have hwithin := Allowance.within_renegotiate hplaced.rooted hrates
    obtain ⟨t', ht', -, hkept, -⟩ := hwithin _ t ht
    obtain ⟨hrate, hattached⟩ := hkept hplaced.not_isLane
    exact ⟨t', ht', Bucket.due_congr hrate hattached⟩
  · exact absurd hclose ho

/-- What is due for the total of an open circuit stays the same, as long as others spare it. -/
theorem due_total_of_coexist {l : List Happening} {answers : List Answer}
    (hplaced : c.allowance.Placed root f) (hclose : .own .close ∉ l)
    (hforeign : ∀ o, .foreign o ∈ l → c.allowance.Spares o)
    (h : coexist l c f = .ok (answers, c', f')) (ht : f.get? c.allowance.total = some t) :
    ∃ t', f'.get? c.allowance.total = some t' ∧ t'.due = t.due := by
  induction l generalizing c f answers t with
  | nil =>
    cases h
    exact ⟨t, ht, rfl⟩
  | cons e l ih =>
    obtain ⟨answer, next, forest, answers', he, hrest, -⟩ := coexist_cons_eq_ok h
    rw [List.mem_cons, not_or] at hclose
    have hforeign' := fun o ho ↦ hforeign o (List.mem_cons_of_mem e ho)
    obtain ⟨o, a, rfl, -, ho⟩ | ⟨o, rfl, -, rfl, rfl⟩ := meet_eq_ok he
    · have hallowance := allowance_of_apply ho
      obtain ⟨ops, -, rfl⟩ := draws_of_apply ho
      have hne : o ≠ .close := fun heq ↦ hclose.1 (heq ▸ rfl)
      obtain ⟨t₁, ht₁, hdue₁⟩ := due_total_of_apply hplaced hne ho ht
      rw [← hallowance] at hplaced hforeign' ht₁ ⊢
      obtain ⟨t', ht', hdue⟩ := ih (hplaced.run ops) hclose.2 hforeign' hrest ht₁
      exact ⟨t', ht', hdue.trans hdue₁⟩
    · obtain ⟨t₁, ht₁, hdue₁⟩ := (hforeign o List.mem_cons_self).due_total ht
      obtain ⟨t', ht', hdue⟩ := ih (hplaced.run [o]) hclose.2 hforeign' hrest ht₁
      exact ⟨t', ht', hdue.trans hdue₁⟩

/-! ### From the opening on -/

/-- What others do with their buckets does not bring a circuit back. -/
theorem Ended.run (h : c.Ended f) (ops : List Forest.Operation) : c.Ended (f.run ops) :=
  ⟨h.phase, h.queues, h.unacked, h.pendingAcks, h.outstandingPing, h.released.run ops⟩

/-- A closed circuit is left as it is by all that happens. -/
theorem Ended.coexist {l : List Happening} (h : c.Ended f) (hl : ∀ o, .own o ∈ l → o.endures = false) :
    (∃ answers g, coexist l c f = .ok (answers, c, g) ∧ c.Ended g ∧
      List.Forall₂ (fun o a ↦ Operation.isIdle o a = true) (owns l) answers) ∨
    ∃ requested now fault, .own (.renegotiate requested now) ∈ l ∧
      coexist l c f = .error fault ∧
      (Rates.negotiate c.allowance.limit requested >>= Adjustment.warn c.config.warnings) =
        .error fault := by
  induction l generalizing f with
  | nil => exact .inl ⟨[], f, rfl, h, .nil⟩
  | cons e l ih =>
    have hl' : ∀ o, .own o ∈ l → o.endures = false := fun o ho ↦ hl o (List.mem_cons_of_mem e ho)
    cases e with
    | foreign o =>
      rw [coexist_foreign]
      refine (ih (h.run [o]) hl').imp_right ?_
      rintro ⟨requested, now, fault, hmem, hfault⟩
      exact ⟨requested, now, fault, List.mem_cons_of_mem _ hmem, hfault⟩
    | own o =>
      obtain ⟨answer, f', ho, hidle⟩ | ⟨requested, now, fault, rfl, ho, hrates⟩ :=
        h.apply (hl o List.mem_cons_self)
      · obtain ⟨ops, -, rfl⟩ := draws_of_apply ho
        rw [coexist_own ho]
        obtain ⟨answers, g, hok, hended, hanswers⟩ | ⟨requested, now, fault, hmem, herror, hrates⟩ :=
          ih (h.run ops) hl'
        · exact .inl ⟨answer :: answers, g, by rw [hok]; rfl, hended, .cons hidle hanswers⟩
        · refine .inr ⟨requested, now, fault, List.mem_cons_of_mem _ hmem, ?_, hrates⟩
          rw [herror]
          rfl
      · exact .inr ⟨requested, now, fault, List.mem_cons_self, coexist_own_error ho l, hrates⟩

/-- A circuit that has come to its end is granted nothing. -/
theorem withdraw_of_ended (h : c.Ended f) (lane : Lane) (n : Nat) (now : Instant) :
    c.allowance.withdraw (.throttled lane) n now f = (false, f) := by
  obtain ⟨b, hb, hdetached⟩ := h.released _ (.inr ⟨lane, rfl⟩)
  have hrefused : Forest.approve n now (f.line (c.allowance.lanes.get lane)) f = (false, f) := by
    rw [Forest.line, Forest.approve, hb]
    simp [hdetached]
  rw [Allowance.withdraw, Forest.withdraw, hrefused]

/-- How a closed circuit `d` stands in a forest, at some time after it was closed as `c`. Others may
have changed what its root has promised, but that is the sum of what is due to the children that are
attached, and the total of the circuit is not. -/
structure Rests (c d : Circuit) (g : Forest) : Prop where
  ended : d.Ended g
  roundTrip : d.tracker.roundTrip = c.tracker.roundTrip
  counters : d.sent = c.sent ∧ d.resent = c.resent ∧ d.received = c.received ∧ d.stalls = c.stalls
  withdraw : ∀ lane n now, d.allowance.withdraw (.throttled lane) n now g = (false, g)
  balanced : g.Balanced
  apart : ∀ o answer e g', d.apply o g = .ok (answer, e, g') →
    ∀ j b, g.get? j = some b → ∃ b', g'.get? j = some b' ∧ b'.committed = b.committed

/-- Once a circuit has come to its end, it is at rest. -/
theorem rests_of_ended (h : c.ended.Ended f) (hbalanced : f.Balanced) : Rests c c.ended f where
  ended := h
  roundTrip := rfl
  counters := ⟨rfl, rfl, rfl, rfl⟩
  withdraw := withdraw_of_ended h
  balanced := hbalanced
  apart o answer e g' ho j b hb := by
    obtain ⟨ops, hops, rfl⟩ := draws_of_apply ho
    exact h.released.committed_run hops hb

/-- The root is released from what was due to the total at the opening, as nothing has changed that. -/
theorem root_of_detach {c₀ : Circuit} {f₀ : Forest} {before : List Happening} {answers : List Answer}
    (hplaced : c₀.allowance.Placed root f₀) (ht : f₀.get? c₀.allowance.total = some t)
    (hroot : (f₀.get? root).isSome) (hopen : .own .close ∉ before)
    (hforeign : ∀ o, .foreign o ∈ before → c₀.allowance.Spares o)
    (hbefore : coexist before c₀ f₀ = .ok (answers, c, f)) :
    ∃ r r', f.get? root = some r ∧ (c.allowance.detach f).get? root = some r' ∧
      r'.committed = r.committed - t.due := by
  obtain ⟨t₁, ht₁, hdue⟩ := due_total_of_coexist hplaced hopen hforeign hbefore ht
  obtain ⟨hsame, ops, rfl⟩ := exists_run_of_coexist hbefore
  obtain ⟨r₀, hr₀⟩ := Option.isSome_iff_exists.1 hroot
  obtain ⟨r₁, hr₁, -⟩ := Forest.exists_run ops hr₀
  obtain ⟨t', r, r', ht', hr, hr', hcommitted⟩ :=
    (Allowance.detach_gives_back (hplaced.run ops) (Option.isSome_iff_exists.2 ⟨r₁, hr₁⟩)).released
  obtain rfl := Option.some.inj (ht₁.symm.trans ht')
  exact ⟨r, r', hr, hsame ▸ hr', hdue ▸ hcommitted⟩

/-- **The end is final.** A circuit that was opened in any forest is closed by the first attempt to do
so and by no other, whatever happened to it and beside it before. Its root is released from its share,
and then the circuit rests, and answers to nothing, whatever happens to it and beside it. Only when
rates are asked for that are too large to be added up there is no answer. -/
theorem close_final {session : Session} {address : Address} {config : Config} {built : List _}
    {c₀ : Circuit} {f₀ : Forest} {before : List Happening} {answers : List Answer}
    (hroot : (Forest.get? (.run built {}) root).isSome)
    (hopened : opened session address config root now (.run built {}) = .ok (c₀, f₀))
    (hforeign : ∀ o, .foreign o ∈ before → c₀.allowance.Spares o)
    (hbefore : coexist before c₀ f₀ = .ok (answers, c, f)) :
    (c.close f).1 = decide (.own .close ∉ before) ∧
    (.own .close ∉ before →
      (∃ r r', f.get? root = some r ∧ (c.close f).2.2.get? root = some r' ∧
        r'.committed = r.committed - config.circuitRate) ∧
      ∀ later, (∀ o, .own o ∈ later → o.endures = false) →
        (∃ answers g, coexist later (c.close f).2.1 (c.close f).2.2 =
            .ok (answers, (c.close f).2.1, g) ∧ Rests c (c.close f).2.1 g ∧
          List.Forall₂ (fun o a ↦ Operation.isIdle o a = true) (owns later) answers) ∨
        ∃ requested now fault, .own (.renegotiate requested now) ∈ later ∧
          coexist later (c.close f).2.1 (c.close f).2.2 = .error fault ∧
          (Rates.negotiate config.circuitRate requested >>= Adjustment.warn c.config.warnings) =
            .error fault) := by
  obtain ⟨-, -, hopen, rates, hallowance⟩ := exists_of_opened hopened
  obtain ⟨r₀, hr₀⟩ := Option.isSome_iff_exists.1 hroot
  have hplaced := Allowance.placed_of_opened hallowance hr₀
  have hlimit := Allowance.limit_of_opened hallowance
  obtain ⟨-, -, -, -, ⟨t, ht, -, hrate, hattached⟩, -⟩ := Allowance.opened_spec hallowance hr₀
  obtain ⟨ops₀, rfl⟩ := Allowance.exists_run_of_opened hallowance hr₀
  obtain ⟨hsame, ops, hrun⟩ := exists_run_of_coexist hbefore
  have hclosed := isClosed_of_coexist hbefore
  rw [hopen, Bool.false_or] at hclosed
  refine ⟨?_, fun hnot ↦ ?_⟩
  · by_cases hmem : .own .close ∈ before
    · rw [close_of_closed (by rw [hclosed, decide_eq_true hmem]), decide_eq_false (not_not.2 hmem)]
    · rw [close_of_open (by rw [hclosed, decide_eq_false hmem]), decide_eq_true hmem]
  rw [close_of_open (by rw [hclosed, decide_eq_false hnot])]
  dsimp only
  refine ⟨?_, fun later hlater ↦ ?_⟩
  · obtain ⟨r₁, hr₁, -⟩ := Forest.exists_run ops₀ hr₀
    have hdue : t.due = config.circuitRate := by rw [Bucket.due, hattached, hrate, if_pos rfl]
    rw [← hdue]
    exact root_of_detach hplaced ht (Option.isSome_iff_exists.2 ⟨r₁, hr₁⟩) hnot hforeign hbefore
  · have hstays : c.allowance.Placed root f := by
      rw [hsame, hrun]
      exact hplaced.run ops
    have hended : c.ended.Ended (c.allowance.detach f) :=
      ended_of_released (Allowance.released_detach hstays)
    -- all forests here are the result of one history that begins with no bucket at all
    have hbalanced : ∀ after, (Forest.run after (c.allowance.detach f)).Balanced := fun after ↦ by
      rw [← Allowance.run_detaching, hrun, ← Forest.run_append, ← Forest.run_append,
        ← Forest.run_append, ← Forest.run_append]
      exact Forest.balanced_empty.run Forest.planted_empty _
    have hkeeps : c.ended.allowance.limit = config.circuitRate :=
      (congrArg Allowance.limit hsame).trans hlimit
    rw [← hkeeps]
    refine (hended.coexist hlater).imp_left ?_
    rintro ⟨answers, g, hok, hg, hanswers⟩
    obtain ⟨-, after, rfl⟩ := exists_run_of_coexist hok
    exact ⟨answers, _, hok, rests_of_ended hg (hbalanced after), hanswers⟩

/-- A circuit beside another bucket of the same root, with a message waiting when it is closed. -/
theorem close_final_beside_another :
    ∃ c₀ f₀ answers c f, opened ⟨.ofNat 7, .ofNat 8, 99, none⟩ (.loopback 5) {} 0 0
        (.run [.addRoot 0 0 0] {}) = .ok (c₀, f₀) ∧
      coexist [.own (.send (.throttled .task) { id := .high 9, payload := [5] } true false),
        .foreign (.addChild 0 9 9 0)] c₀ f₀ = .ok (answers, c, f) ∧
      (c.close f).1 = true ∧ ∃ answers g,
        coexist [.own (.tick 100), .foreign (.setRate 9 7 7 0), .own .close] (c.close f).2.1
          (c.close f).2.2 = .ok (answers, (c.close f).2.1, g) ∧ Rests c (c.close f).2.1 g := by
  obtain ⟨⟨c₀, f₀⟩, hopened, htest⟩ := exists_eq_ok_of_any
    (x := opened ⟨.ofNat 7, .ofNat 8, 99, none⟩ (.loopback 5) {} 0 0 (.run [.addRoot 0 0 0] {}))
    (p := fun r ↦ decide (r.1.allowance.total = 1 ∧ r.1.allowance.lanes = ⟨2, 3, 4, 5, 6, 7, 8⟩) &&
      (coexist [.own (.send (.throttled .task) { id := .high 9, payload := [5] } true false),
        .foreign (.addChild 0 9 9 0)] r.1 r.2).toOption.any fun _ ↦ true) (by decide +kernel)
  rw [Bool.and_eq_true] at htest
  obtain ⟨⟨answers, c, f⟩, hbefore, -⟩ := exists_eq_ok_of_any htest.2
  obtain ⟨htotal, hlanes⟩ := of_decide_eq_true htest.1
  have hforeign : ∀ o, .foreign o ∈ [Happening.own (.send (.throttled .task)
      { id := .high 9, payload := [5] } true false), .foreign (.addChild 0 9 9 0)] →
      c₀.allowance.Spares o := by
    intro o ho id hid hown
    obtain rfl : o = .addChild 0 9 9 0 := by simpa using ho
    obtain rfl : 0 = id := Option.some.inj hid
    obtain heq | ⟨lane, heq⟩ := hown
    · exact absurd (heq.trans htotal) (by decide)
    · rw [hlanes] at heq
      cases lane <;> cases heq
  have hlater : ∀ o, .own o ∈ [Happening.own (.tick 100), .foreign (.setRate 9 7 7 0), .own .close] →
      o.endures = false := by
    intro o ho
    obtain rfl | rfl : o = .tick 100 ∨ o = .close := by simpa using ho
    · rfl
    · rfl
  have hroot : (Forest.get? (.run [.addRoot 0 0 0] {}) 0).isSome := rfl
  obtain ⟨hfirst, hrest⟩ := close_final hroot hopened hforeign hbefore
  obtain ⟨answers', g, hok, hrests, -⟩ | ⟨requested, now, fault, hmem, -⟩ :=
    (hrest (by decide)).2 _ hlater
  · exact ⟨c₀, f₀, answers, c, f, hopened, hbefore, hfirst.trans (by decide), answers', g, hok, hrests⟩
  · simp at hmem

end Circuit

end DatagramCircuits
