import DatagramCircuits.Proofs.Life
/-!
# Where entries of a record come from

What a circuit learns from its peer came in by an operation that names it (`of_mem_events`): nothing else
that is done with a circuit, its regular work least of all, makes entries about arrivals or about
acknowledgements.
-/

namespace DatagramCircuits

namespace Circuit

variable {l k : List Event} {c c' : Circuit}

/-! ### What comes from the peer -/

/-- The event is caused by the peer. -/
def Event.FromPeer : Event → Prop
  | acknowledged _ _ | arrived _ _ => True
  | queued _ | transmitted _ _ _ | signalled _ | outdated _ | unacknowledged _ | cleared _ => False

theorem not_fromPeer_of_mem_map {α : Type} {g : α → Event} {as : List α} {e : Event}
    (he : e ∈ as.map g) (hg : ∀ a, ¬ (g a).FromPeer) : ¬ e.FromPeer := by
  obtain ⟨a, -, rfl⟩ := List.mem_map.1 he
  exact hg a

theorem Service.not_fromPeer {now : Instant} (h : Service now c k c') : ∀ e ∈ k, ¬ e.FromPeer := by
  cases h with
  | quiet hq =>
    obtain ⟨l, rfl⟩ := hq.exists_signalled
    exact fun e he ↦ not_fromPeer_of_mem_map he fun _ h ↦ h
  | discard => exact fun e he ↦ absurd he List.not_mem_nil
  | holdBack => exact fun e he ↦ absurd he List.not_mem_nil
  | transmit =>
    intro e he
    obtain rfl := List.mem_singleton.1 he
    exact fun h ↦ h

theorem not_fromPeer_of_checkResends (now : Instant) (c : Circuit) (f : Forest) :
    ∀ e ∈ (Turn.checkResends now { circuit := c, forest := f }).log, ¬ e.FromPeer := by
  rw [Turn.checkResends]
  dsimp only
  split
  · exact fun e he ↦ absurd he List.not_mem_nil
  · intro e he
    rcases List.mem_append.1 (List.mem_append.1 he |>.resolve_left List.not_mem_nil) with he | he
    · exact not_fromPeer_of_mem_map he fun _ h ↦ h
    · exact not_fromPeer_of_mem_map he fun _ h ↦ h

/-- A tick goes without the peer, also one that ends with a fault. -/
theorem not_fromPeer_of_tick {now : Instant} {f : Forest} {t : Turn}
    (h : c.tick now f = .ok t ∨ ∃ fault, c.tick now f = .error (fault, t)) :
    ∀ e ∈ t.log, ¬ e.FromPeer := by
  -- the look for datagrams to be sent again, and then any number of moves of service
  have hlog : t.log = [] ∨ ∃ k u, t.log = (Turn.checkResends now { circuit := c, forest := f }).log ++ k ∧
      Chain (Service now) (Turn.checkResends now { circuit := c, forest := f }).circuit k u := by
    rcases h with h | ⟨fault, h⟩
    · cases hclosed : c.isClosed with
      | true =>
        rw [tick_of_isClosed h hclosed]
        exact .inl rfl
      | false =>
        obtain ⟨⟨k, hchain, hlog, -⟩, -, -⟩ := serves_of_tick h hclosed
        exact .inr ⟨k, _, hlog, hchain⟩
    · obtain ⟨u, k, lane, hchain, hlog, hlane⟩ := exists_served_of_error h
      obtain ⟨p, q, forest, -, -, -, rfl⟩ := Turn.serveLane_eq_error hlane
      exact .inr ⟨k, _, hlog, hchain⟩
  intro e he
  rcases hlog with hlog | ⟨k, u, hlog, hchain⟩
  · rw [hlog] at he
    exact absurd he List.not_mem_nil
  · have hserved : ∀ e ∈ k, ¬ e.FromPeer := by
      refine hchain.preserves (motive := fun k _ ↦ ∀ e ∈ k, ¬ e.FromPeer) (k := []) ?_ ?_
      · exact fun e he ↦ absurd he List.not_mem_nil
      · intro l k c c' hl hstep e he
        exact (List.mem_append.1 he).elim (hl e) (hstep.not_fromPeer e)
    rw [hlog] at he
    exact (List.mem_append.1 he).elim (not_fromPeer_of_checkResends now c f e) (hserved e)

/-- Only what is named is acknowledged. -/
theorem sequence_mem_of_acknowledgeAll {sequences : List UInt32} {now : Instant} {t : Tracker}
    {x : Outgoing} (h : x ∈ (t.acknowledgeAll sequences now).1) : x.sequence ∈ sequences := by
  induction sequences generalizing t with
  | nil => cases h
  | cons n rest ih =>
    rw [Tracker.acknowledgeAll] at h
    rcases List.mem_append.1 h with h | h
    · rw [Tracker.acknowledge_fst, Option.mem_toList, Option.map_eq_some_iff] at h
      obtain ⟨e, he, rfl⟩ := h
      exact List.mem_cons.2 (.inl (Tracker.mem_of_find? he).2)
    · exact List.mem_cons_of_mem n (ih h)

/-- **What comes from the peer is named** by the operation that brings it. -/
theorem of_mem_events {o : Operation} {f : Forest} {e : Event} (he : e ∈ c.events o f)
    (hpeer : e.FromPeer) :
    (∃ p length now, o = .receive p length now ∧
      ((∃ x, e = .acknowledged x now ∧ x.sequence ∈ p.acks) ∨
        ∃ disposition, e = .arrived p disposition)) ∨
    ∃ sequences now x, o = .acknowledge sequences now ∧ e = .acknowledged x now ∧
      x.sequence ∈ sequences := by
  -- all other operations record events of the circuit's own, which are read off case by case
  cases o with
  | receive p length now =>
    refine .inl ⟨p, length, now, rfl, ?_⟩
    rw [events, arrivalEvents] at he
    split at he
    · obtain ⟨x, hx, rfl⟩ := List.mem_map.1 he
      exact .inl ⟨x, rfl, sequence_mem_of_acknowledgeAll hx⟩
    · exact .inr ⟨_, List.mem_singleton.1 he⟩
    · rcases List.mem_append.1 he with he | he
      · obtain ⟨x, hx, rfl⟩ := List.mem_map.1 he
        exact .inl ⟨x, rfl, sequence_mem_of_acknowledgeAll hx⟩
      · exact .inr ⟨_, List.mem_singleton.1 he⟩
  | acknowledge sequences now =>
    obtain ⟨x, hx, rfl⟩ := List.mem_map.1 he
    exact .inr ⟨sequences, now, x, rfl, rfl, sequence_mem_of_acknowledgeAll hx⟩
  | tick now =>
    rw [events] at he
    split at he
    · rename_i t ht
      exact absurd hpeer (not_fromPeer_of_tick (.inl ht) e he)
    · rename_i fault t ht
      exact absurd hpeer (not_fromPeer_of_tick (.inr ⟨fault, ht⟩) e he)
  | send category m reliable notify =>
    rw [events, sendEvents] at he
    split at he
    · exact absurd hpeer (not_fromPeer_of_mem_map he fun _ h ↦ h)
    · exact absurd he List.not_mem_nil
  | enqueue p =>
    rw [events] at he
    split at he
    · obtain rfl := List.mem_singleton.1 he
      exact hpeer.elim
    · exact absurd he List.not_mem_nil
  | flushAcks => exact absurd hpeer (not_fromPeer_of_mem_map he fun _ h ↦ h)
  | ping now => exact absurd hpeer (not_fromPeer_of_mem_map he fun _ h ↦ h)
  | answerPing id =>
    rw [events] at he
    split at he
    · obtain rfl := List.mem_singleton.1 he
      exact hpeer.elim
    · exact absurd he List.not_mem_nil
  | close =>
    rw [events, closeEvents] at he
    split at he
    · exact absurd he List.not_mem_nil
    · exact absurd hpeer (not_fromPeer_of_mem_map he fun _ h ↦ h)
  | takePong id now | renegotiate requested now | connect | pause | resume | beginQueueEmpty now
  | endQueueEmpty => cases he

/-- The record of an arriving datagram has the disposition that is answered. -/
theorem eq_received_of_mem_events {o : Operation} {f f' : Forest} {answer : Answer} {q : Packet}
    {disposition : Disposition} (h : c.apply o f = .ok (answer, c', f'))
    (hq : .arrived q disposition ∈ c.events o f) : answer = .received disposition := by
  obtain ⟨p, length, now, rfl, -⟩ | ⟨_, _, x, -, hx, -⟩ := of_mem_events hq trivial
  · obtain ⟨answered, (hd : (c.receive p length now).1 = .ok answered), h⟩ := bind_eq_ok_iff.1 h
    cases h
    rw [events, arrivalEvents, hd] at hq
    cases answered with
    | closed =>
      cases List.mem_singleton.1 hq
      rfl
    | accept flushAcks | duplicate resent =>
      rcases List.mem_append.1 hq with hq | hq
      · obtain ⟨x, -, hx⟩ := List.mem_map.1 hq
        exact absurd hx (by simp)
      · cases List.mem_singleton.1 hq
        rfl
  · exact absurd hx (by simp)

end Circuit

end DatagramCircuits
