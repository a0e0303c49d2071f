import DatagramCircuits.Proofs.Conservation
import DatagramCircuits.Proofs.Courses
/-!
# Sequence numbers

The numbers that datagrams travel under, in a whole life of a circuit. A first transmission gets the
number after the one before; what is sent again keeps its number, and differs from the first transmission
in nothing but the two flags about its transmission and the acknowledgements behind it
(`sequenced_of_lived`).

A transmission in the middle of a life is found as a move, with the books as they were just before it
(`Traced.at_transmission`). Faults are no obstacle to that (`Coursed.at_transmission`), so a number stands
for one datagram also after some.
-/

namespace DatagramCircuits

namespace Circuit

variable {P : Message → Prop} {V : UInt32 → Prop} {config : Config} {c : Circuit}
  {l before after : List Event} {p : Outgoing} {d : Octets} {now : Instant}

/-- A move that records a transmission is that transmission and nothing else. -/
theorem Move.transmit_of_eq {u v : Circuit} {k k₁ k₂ : List Event} (hm : Move P u k v)
    (hk : k = k₁ ++ .transmitted p d now :: k₂) :
    k₁ = [] ∧ ∃ lane q, (u.queues.get lane).take? u.isUseful = (some p, q) ∧
      { u with queues := u.queues.set lane q }.transmit p now = .ok (d, v) := by
  -- all other kinds of moves record no transmission
  have hmem : (p, d) ∈ transmissions k := by
    rw [hk]
    exact mem_transmissions.2 ⟨now, by simp⟩
  have hnone : transmissions k ≠ [] := List.ne_nil_of_mem hmem
  cases hm with
  | service hs =>
    cases hs with
    | quiet hq => exact absurd hq.transmissions_eq_nil hnone
    | discard => exact absurd rfl hnone
    | holdBack => exact absurd rfl hnone
    | @transmit _ lane _ q _ htake hsent =>
      cases k₁ with
      | nil =>
        cases hk
        exact ⟨rfl, lane, q, htake, hsent⟩
      | cons x k₁ => simp at hk
  | arrival ha =>
    obtain ⟨q, disposition, hq⟩ := ha.exists_arrived
    rw [hq] at hnone
    exact absurd rfl hnone
  | queue => exact absurd rfl hnone
  | acknowledge => exact absurd (filterMap_map_eq_nil (fun _ ↦ rfl) _) hnone
  | sample => exact absurd rfl hnone
  | outdate => exact absurd (filterMap_map_eq_nil (fun _ ↦ rfl) _) hnone
  | expire => exact absurd (filterMap_map_eq_nil (fun _ ↦ rfl) _) hnone
  | close => exact absurd (filterMap_map_eq_nil (fun _ ↦ rfl) _) hnone

theorem Course.transmit_of_eq {u v : Circuit} {k k₁ k₂ : List Event} (hc : Course P V u k v)
    (hk : k = k₁ ++ .transmitted p d now :: k₂) :
    k₁ = [] ∧ ∃ lane q, (u.queues.get lane).take? u.isUseful = (some p, q) ∧
      { u with queues := u.queues.set lane q }.transmit p now = .ok (d, v) := by
  cases hc with
  | move hm => exact hm.transmit_of_eq hk
  | lose | owe => simp at hk

/-- A transmission of a circuit that may have met faults before. -/
theorem Coursed.at_transmission (h : Coursed P V config l c)
    (hl : l = before ++ .transmitted p d now :: after) :
    ∃ u v lane q, Books P config before u ∧ (u.queues.get lane).take? u.isUseful = (some p, q) ∧
      { u with queues := u.queues.set lane q }.transmit p now = .ok (d, v) := by
  obtain ⟨c₀, hfresh, hchain⟩ := h
  obtain ⟨l', k₁, k₂, u, v, hfirst, hc, hbefore⟩ := hchain.exists_step hl
  obtain ⟨rfl, lane, q, htake, hsent⟩ := hc.transmit_of_eq rfl
  rw [List.append_nil] at hbefore
  subst hbefore
  have hcoursed : Coursed P V config before u := ⟨c₀, hfresh, hfirst⟩
  exact ⟨u, v, lane, q, hcoursed.books, htake, hsent⟩

/-- **A transmission in a life,** with the circuit just before it. -/
theorem Traced.at_transmission (h : Traced P config l c)
    (hl : l = before ++ .transmitted p d now :: after) :
    ∃ u v lane q, Books P config before u ∧
      ((firstTransmissions before).length < sequenceCount → Accounts before u) ∧
      (u.queues.get lane).take? u.isUseful = (some p, q) ∧
      { u with queues := u.queues.set lane q }.transmit p now = .ok (d, v) := by
  obtain ⟨c₀, hfresh, hchain⟩ := h
  obtain ⟨l', k₁, k₂, u, v, hfirst, hm, hbefore⟩ := hchain.exists_step hl
  obtain ⟨rfl, lane, q, htake, hsent⟩ := hm.transmit_of_eq rfl
  rw [List.append_nil] at hbefore
  subst hbefore
  have htraced : Traced P config before u := ⟨c₀, hfresh, hfirst⟩
  exact ⟨u, v, lane, q, htraced.books, htraced.accounts, htake, hsent⟩

/-- What is sent again was sent first before, and nobody waits to hear of it. -/
theorem Coursed.first_of_resent (h : Coursed P V config l c)
    (hl : l = before ++ .transmitted p d now :: after)
    (hresent : (Datagram.flags d).resent = true) :
    p.notify = false ∧ ∃ q d₀ now₀, .transmitted q d₀ now₀ ∈ before ∧
      (Datagram.flags d₀).resent = false ∧ (Datagram.flags d₀).reliable = true ∧ q.notify = false ∧
      Datagram.sequence d₀ = Datagram.sequence d ∧ Datagram.bare d₀ = Datagram.bare d := by
  obtain ⟨u, v, lane, queue, hbooks, htake, hsent⟩ := h.at_transmission hl
  have hwaits := hbooks.queues lane p (mem_of_take? htake).1
  obtain ⟨m, reliable, piece, k, bytes, -, -, hbuffer, hk, ⟨-, hd, -⟩ | ⟨h0, e, retries, -, -, hd, -⟩⟩ :=
    transmit_cases (c := { u with queues := u.queues.set lane queue }) hwaits.carries
      (LaneQueue.take?_eq_some htake).1 hsent
  · rw [hd, Datagram.flags_wire rfl] at hresent
    exact absurd hresent (by simp)
  · obtain ⟨-, hsilent, q, d₀, now₀, hmem, hfirst, hreliable, hnotify, hsequence, hbare⟩ :=
      hwaits.again h0
    refine ⟨hsilent, q, d₀, now₀, hmem, hfirst, hreliable, hnotify.trans hsilent, ?_, ?_⟩
    · rw [hsequence, hd, Datagram.sequence_wire]
    · rw [hbare, hbuffer, hd, Datagram.bare_wire rfl _ _ (Nat.le_trans (List.length_take_le ..) hk)]
      rfl

/-- **A number stands for one datagram,** however often it is sent. -/
theorem Coursed.bare_eq_of_sequence_eq (h : Coursed P V config l c)
    (hbound : (firstTransmissions l).length < sequenceCount) {q : Outgoing} {d' : Octets}
    {now' : Instant} (hd : .transmitted p d now ∈ l) (hd' : .transmitted q d' now' ∈ l)
    (hsequence : Datagram.sequence d = Datagram.sequence d') :
    Datagram.bare d = Datagram.bare d' := by
  -- each of the two has a first transmission with its number and its octets
  have hfirst : ∀ {p d now}, .transmitted p d now ∈ l → ∃ d₀ ∈ firstTransmissions l,
      Datagram.sequence d₀ = Datagram.sequence d ∧ Datagram.bare d₀ = Datagram.bare d := by
    intro p d now hmem
    cases hresent : (Datagram.flags d).resent with
    | false => exact ⟨d, mem_firstTransmissions.2 ⟨⟨p, now, hmem⟩, hresent⟩, rfl, rfl⟩
    | true =>
      obtain ⟨before, after, hl⟩ := List.append_of_mem hmem
      obtain ⟨-, q, d₀, now₀, hmem₀, hno, -, -, hsame, hbare⟩ := h.first_of_resent hl hresent
      have hin : .transmitted q d₀ now₀ ∈ l := hl ▸ List.mem_append_left _ hmem₀
      exact ⟨d₀, mem_firstTransmissions.2 ⟨⟨q, now₀, hin⟩, hno⟩, hsame, hbare⟩
  obtain ⟨d₁, h₁, hsame₁, hbare₁⟩ := hfirst hd
  obtain ⟨d₂, h₂, hsame₂, hbare₂⟩ := hfirst hd'
  have hone : d₁ = d₂ := by
    refine List.inj_on_of_nodup_map (h.books.nodup_firstSequences hbound) h₁ h₂ ?_
    rw [hsame₁, hsame₂, hsequence]
  rw [← hbare₁, ← hbare₂, hone]

/-- What left the account is not sent any more. -/
theorem Traced.ne_departed (h : Traced P config l c)
    (hbound : (firstTransmissions l).length < sequenceCount)
    (hl : l = before ++ .transmitted p d now :: after) :
    ∀ x ∈ departures before, x.sequence ≠ Datagram.sequence d := by
  have hshort : (firstTransmissions before).length < sequenceCount :=
    Nat.lt_of_le_of_lt (length_firstTransmissions_le before _) (hl ▸ hbound)
  obtain ⟨u, v, lane, queue, hbooks, haccounts, htake, hsent⟩ := h.at_transmission hl
  have hwaits := hbooks.queues lane p (mem_of_take? htake).1
  obtain ⟨m, reliable, piece, k, bytes, -, -, -, -, ⟨-, hd, -⟩ | ⟨-, e, retries, he, -, hd, -⟩⟩ :=
    transmit_cases (c := { u with queues := u.queues.set lane queue }) hwaits.carries
      (LaneQueue.take?_eq_some htake).1 hsent
  · intro x hx
    rw [hd, Datagram.sequence_wire]
    exact hbooks.ne_nextSequence hshort (hbooks.departed x hx).sent.mem_reliableSequences
  · obtain ⟨hmem, hsequence⟩ := Tracker.mem_of_find? he
    rw [hd, Datagram.sequence_wire, ← hsequence]
    exact (haccounts hshort).disjoint hbooks hshort hmem

/-! ### The numbers of a whole life -/

/-- The numbers in a record, and what goes with them. -/
structure Sequenced (l : List Moment) : Prop where
  /-- The datagrams of the answers are those of the record, in the same order. -/
  emitted : ∀ m ∈ l, m.answer.datagrams = m.events.filterMap Event.datagram?
  /-- What is sent out of queues without the flag for another transmission has the numbers 1, 2, 3 and
  so on; after `sequenceCount` of them, they start again at 1. -/
  numbered : ∀ (i : Nat) (hi : i < (firstTransmissions (history l)).length),
    (Datagram.sequence (firstTransmissions (history l))[i]).toNat = 1 + i % sequenceCount
  /-- What was acknowledged, or left the account for another reason, is not sent any more. -/
  settled : (firstTransmissions (history l)).length < sequenceCount →
    ∀ {before after : List Event} {p : Outgoing} {d : Octets} {now : Instant},
      history l = before ++ .transmitted p d now :: after →
        ∀ x ∈ departures before, x.sequence ≠ Datagram.sequence d
  /-- What has the flag is an earlier reliable datagram again, for which no sender waits. Only the flags
  and the acknowledgements of the transmission may differ. -/
  repeated : (firstTransmissions (history l)).length < sequenceCount →
    ∀ {before after : List Event} {p : Outgoing} {d : Octets} {now : Instant},
      history l = before ++ .transmitted p d now :: after → (Datagram.flags d).resent = true →
        ∃ q d₀ now₀, .transmitted q d₀ now₀ ∈ before ∧ (Datagram.flags d₀).resent = false ∧
          (Datagram.flags d₀).reliable = true ∧ q.notify = false ∧
          Datagram.sequence d₀ = Datagram.sequence d ∧ Datagram.bare d₀ = Datagram.bare d

/-- **The datagrams of any life are numbered in order, and keep their numbers and their octets** when
they are sent again. -/
theorem sequenced_of_lived {l : List Moment} (h : Lived (fun _ ↦ True) config l c) :
    Sequenced l where
  emitted m hm := (h.agrees m hm).datagrams
  numbered i hi := by
    have hlen : i < (firstNumbers (history l)).length := by
      rw [firstNumbers, List.length_map]
      exact hi
    have hget := List.getElem_of_eq h.traced.books.numbers hlen
    simpa [firstNumbers] using hget
  settled hbound {before after p d now} hl := h.traced.ne_departed hbound hl
  repeated _ {before after p d now} hl hresent := (h.traced.coursed.first_of_resent hl hresent).2

/-- A life in which a datagram has to be sent again before it is acknowledged. -/
def repeatingOperations : List (Operation × Forest) :=
  [.send (.throttled .task) { id := .high 5, payload := [1, 2, 3] } true false,
    .tick (100 * Span.millisecond), .tick (1200 * Span.millisecond),
    .acknowledge [1] (1300 * Span.millisecond), .tick (1400 * Span.millisecond)].map
    (·, ⟨List.replicate 9 (.full [] 0 0 0)⟩)

theorem sequenced_of_repeating : ∃ l c, Lived (fun _ ↦ True) {} l c ∧
    (transmissions (history l)).map (fun t ↦ (Datagram.flags t.2).resent) = [false, true] ∧
    (departures (history l)).map Outgoing.sequence = [1] ∧ Sequenced l := by
  obtain ⟨⟨l, c⟩, hlive, htest⟩ := exists_eq_ok_of_any
    (x := live ⟨.ofNat 7, .ofNat 8, 99, none⟩ (.loopback 5) {} 0 0 {} repeatingOperations)
    (p := fun r ↦ decide
      ((transmissions (history r.1)).map (fun t ↦ (Datagram.flags t.2).resent) = [false, true] ∧
        (departures (history r.1)).map Outgoing.sequence = [1])) (by decide +kernel)
  obtain ⟨htransmissions, hdepartures⟩ := of_decide_eq_true htest
  have hlived : Lived (fun _ ↦ True) {} l c :=
    ⟨_, _, _, _, _, _, by simp [repeatingOperations, Operation.QueuesOnly], hlive⟩
  exact ⟨l, c, hlived, htransmissions, hdepartures, sequenced_of_lived hlived⟩

end Circuit

end DatagramCircuits
