import DatagramCircuits.Proofs.Sequencing
/-!
# What becomes of reliable datagrams

There are four ways out of the account: a datagram is acknowledged, is given up because of its age, is
handed out to its sender, or is dropped when the circuit is closed. Each datagram that was sent reliably
goes one of them, once, or is still in the account (`settled_of_lived`).

A datagram whose sender wants to hear of it is sent once only. That it is not sent again is a matter of
the account; that it is not sent first twice is one of the queues, and is stated by counting: what is
sent out of a queue was put into it at least as often (`Traced.count_le`).
-/

namespace DatagramCircuits

namespace Circuit

variable {P : Message → Prop} {config : Config} {l k : List Event} {c c' : Circuit}

/-! ### The ways out -/

/-- The datagrams that were acknowledged. -/
def acknowledgements (l : List Event) : List Outgoing :=
  l.filterMap Event.acknowledged?

/-- The datagrams that were given up because of their age. -/
def ageDrops (l : List Event) : List Outgoing :=
  l.filterMap Event.outdated?

/-- The datagrams that were handed out to their senders. -/
def handouts (l : List Event) : List Outgoing :=
  l.filterMap Event.unacknowledged?

/-- The datagrams that were dropped when the circuit was closed. -/
def clearances (l : List Event) : List Outgoing :=
  l.filterMap Event.cleared?

/-- What left the account took one of the four ways. -/
theorem departures_perm (l : List Event) :
    (departures l).Perm (acknowledgements l ++ (ageDrops l ++ (handouts l ++ clearances l))) := by
  refine List.perm_iff_count.2 ?_
  intro p
  simp only [List.count_append, departures, acknowledgements, ageDrops, handouts, clearances]
  induction l with
  | nil => rfl
  | cons ev l ih =>
    cases ev <;>
      simp only [List.filterMap_cons, Event.departure?, Event.acknowledged?, Event.outdated?,
        Event.unacknowledged?, Event.cleared?, List.count_cons] <;> omega

/-! ### Queues -/

/-- The datagrams in all queues. -/
def waiting (c : Circuit) : List Outgoing :=
  Lane.all.flatMap fun lane ↦ (c.queues.get lane).toList

/-- Changing one queue changes the count by what is in it. -/
theorem count_waiting_set (c : Circuit) (lane : Lane) (q : LaneQueue) (p : Outgoing) :
    ({ c with queues := c.queues.set lane q } : Circuit).waiting.count p +
        (c.queues.get lane).toList.count p =
      c.waiting.count p + q.toList.count p := by
  cases lane <;>
    simp only [waiting, Lane.all, List.flatMap_cons, List.flatMap_nil, List.count_append,
      PerLane.set, PerLane.get, List.count_nil] <;> omega

/-- Datagrams that were never sent are taken out of queues no more often than they were put in. -/
def Spent (l : List Event) (c : Circuit) : Prop :=
  ∀ p : Outgoing, p.sequence = 0 →
    ((transmissions l).map Prod.fst).count p + c.waiting.count p ≤ (queued l).count p

/-- A move that neither queues nor sends keeps the count, where no queue gets more of what was never
sent. -/
theorem Spent.keep (hs : Spent l c) (hqueued : queued k = []) (hk : transmissions k = [])
    (hle : ∀ p : Outgoing, p.sequence = 0 → c'.waiting.count p ≤ c.waiting.count p) :
    Spent (l ++ k) c' := by
  intro p hp
  have hq : queued (l ++ k) = queued l := by
    rw [queued, List.filterMap_append]
    exact (congrArg (_ ++ ·) hqueued).trans (List.append_nil _)
  rw [hq, transmissions_append, hk, List.append_nil]
  exact Nat.le_trans (Nat.add_le_add_left (hle p hp) _) (hs p hp)

/-- Sending leaves the queues as they are. -/
theorem queues_transmit {p : Outgoing} {now : Instant} {d : Octets}
    (h : c.transmit p now = .ok (d, c')) : c'.queues = c.queues := by
  rw [transmit] at h
  split at h
  · obtain ⟨buffer, -, h⟩ := bind_eq_ok_iff.1 h
    obtain ⟨rfl, rfl⟩ := Prod.mk.inj (Except.ok.inj h)
    rfl
  · obtain ⟨buffer, -, h⟩ := bind_eq_ok_iff.1 h
    obtain ⟨⟨known, tracker⟩, -, h⟩ := bind_eq_ok_iff.1 h
    obtain ⟨rfl, rfl⟩ := Prod.mk.inj (Except.ok.inj h)
    rfl

/-- Without the datagram that is taken out of it, a queue has fewer. -/
theorem count_take?_le {lane : Lane} {p x : Outgoing} {q : LaneQueue}
    (h : (c.queues.get lane).take? c.isUseful = (some p, q)) :
    q.toList.count x + [p].count x ≤ (c.queues.get lane).toList.count x := by
  obtain ⟨-, -, dropped, hq, -⟩ := LaneQueue.take?_eq_some h
  rw [hq, List.count_append, List.count_singleton, List.count_cons]
  omega

theorem Spent.service {now : Instant} (hs : Spent l c) (h : Service now c k c') :
    Spent (l ++ k) c' := by
  cases h with
  | quiet hq =>
    refine hs.keep hq.queued_eq_nil hq.transmissions_eq_nil fun p _ ↦ ?_
    rw [waiting, waiting, hq.sameBooks.queues]
  | @discard lane q htake =>
    refine hs.keep rfl rfl fun p _ ↦ ?_
    have hset := count_waiting_set c lane q p
    rw [(LaneQueue.take?_eq_none htake).1, List.count_nil] at hset
    omega
  | @holdBack lane p q htake =>
    refine hs.keep rfl rfl fun x _ ↦ ?_
    have hset := count_waiting_set c lane (q.holdBack p) x
    have htaken := count_take?_le (x := x) htake
    rw [LaneQueue.toList_holdBack (LaneQueue.take?_eq_some htake).2.1, List.count_cons] at hset
    rw [List.count_singleton] at htaken
    omega
  | @transmit _ lane p q d htake hsent =>
    intro x hx
    have hold := hs x hx
    -- one datagram goes from the queue into the record
    have hset := count_waiting_set c lane q x
    have htaken := count_take?_le (x := x) htake
    have hqueues : c'.queues = c.queues.set lane q := queues_transmit hsent
    have hwaiting : c'.waiting = ({ c with queues := c.queues.set lane q } : Circuit).waiting := by
      rw [waiting, waiting, hqueues]
    have hone : transmissions [.transmitted p d now] = [(p, d)] := rfl
    have hnone : queued (l ++ [.transmitted p d now]) = queued l :=
      List.filterMap_append.trans (List.append_nil _)
    rw [hnone, transmissions_append, hone, List.map_append, List.count_append, hwaiting]
    simp only [List.map_cons, List.map_nil]
    omega

theorem Spent.move (hs : Spent l c) (h : Books P config l c) (hm : Move P c k c') :
    Spent (l ++ k) c' := by
  cases hm with
  | service hservice => exact hs.service hservice
  | arrival ha =>
    obtain ⟨q, disposition, rfl⟩ := ha.exists_arrived
    refine hs.keep rfl rfl fun p _ ↦ ?_
    rw [waiting, waiting, ha.sameBooks.queues]
  | @queue _ lane buffer notify hcarries =>
    intro p hp
    generalize hnew : ({ category := .throttled lane, buffer, notify } : Outgoing) = new
    have hold := hs p hp
    have hset := count_waiting_set c lane ((c.queues.get lane).push new) p
    rw [LaneQueue.toList_push, List.count_append] at hset
    have hqueued : queued (l ++ [.queued new]) = queued l ++ [new] := List.filterMap_append
    have hnone : transmissions (l ++ [.queued new]) = transmissions l :=
      (transmissions_append l _).trans (List.append_nil _)
    rw [hqueued, hnone, List.count_append]
    show _ + ({ c with queues := c.queues.set lane ((c.queues.get lane).push new) } :
      Circuit).waiting.count p ≤ _
    omega
  | acknowledge _ n now =>
    exact hs.keep (filterMap_map_eq_nil (fun _ ↦ rfl) _) (filterMap_map_eq_nil (fun _ ↦ rfl) _) fun _ _ ↦
      Nat.le_refl _
  | sample _ d => exact hs.keep rfl rfl fun _ _ ↦ Nat.le_refl _
  | outdate _ now =>
    refine hs.keep (filterMap_map_eq_nil (fun _ ↦ rfl) _) (filterMap_map_eq_nil (fun _ ↦ rfl) _) ?_
    intro p _
    rw [dropOutdated]
    split <;> exact Nat.le_refl _
  | expire _ now =>
    refine hs.keep (filterMap_map_eq_nil (fun _ ↦ rfl) _) (filterMap_map_eq_nil (fun _ ↦ rfl) _) ?_
    intro p hp
    obtain ⟨-, q, hsnd, hq⟩ := collectExpired_eq now h.ordered rfl
    -- what is queued here was sent before, so it has a number
    have hcopies : ((c.tracker.unacked.filter fun e ↦
        Tracker.isExpired c.tracker.roundTrip.timeout now e && !e.packet.notify).map
          fun e ↦ resendCopy e.packet).count p = 0 := by
      refine List.count_eq_zero.2 ?_
      intro hmem
      obtain ⟨e, he, rfl⟩ := List.mem_map.1 hmem
      exact (h.entries e (List.mem_filter.1 he).1).kept.numbered hp
    have hset := count_waiting_set c .resend q p
    rw [hq, List.count_append, hcopies] at hset
    rw [hsnd]
    show ({ c with queues := c.queues.set .resend q } : Circuit).waiting.count p ≤ _
    omega
  | close =>
    exact hs.keep (filterMap_map_eq_nil (fun _ ↦ rfl) _) (filterMap_map_eq_nil (fun _ ↦ rfl) _) fun p _ ↦
      Nat.zero_le _

theorem Fresh.spent (h : Fresh config c) : Spent [] c := by
  intro p hp
  have hnil : c.waiting = [] := by
    rw [waiting, h.queues]
    rfl
  rw [hnil]
  exact Nat.le_refl _

/-- **What is sent without a number was put into a queue,** at least as often. -/
theorem Traced.count_le (h : Traced P config l c) {p : Outgoing}
    (hp : p.sequence = 0) :
    ((transmissions l).map Prod.fst).count p ≤ (queued l).count p := by
  have hspent : Spent l c := h.invariant Fresh.spent fun hbooks hspent hm ↦ hspent.move hbooks hm
  exact Nat.le_trans (Nat.le_add_right ..) (hspent p hp)

/-! ### Senders that wait -/

/-- Only what has a sender that waits is handed out. -/
theorem Move.notify_of_mem (hm : Move P c k c') {p : Outgoing} (hp : .unacknowledged p ∈ k) :
    p.notify = true := by
  cases hm with
  | service hs =>
    have hmem : p ∈ departures k := List.mem_filterMap.2 ⟨_, hp, rfl⟩
    rw [hs.departures_eq_nil] at hmem
    exact absurd hmem List.not_mem_nil
  | arrival ha =>
    obtain ⟨q, disposition, rfl⟩ := ha.exists_arrived
    simp at hp
  | queue => simp at hp
  | acknowledge => simp at hp
  | sample => simp at hp
  | outdate => simp at hp
  | expire _ now =>
    obtain ⟨q, hq, heq⟩ := List.mem_map.1 hp
    cases heq
    exact (List.mem_filter.1 hq).2
  | close => simp at hp

theorem Traced.notify_of_handout (h : Traced P config l c) :
    ∀ p ∈ handouts l, p.notify = true := by
  have hall : ∀ p, .unacknowledged p ∈ l → p.notify = true := by
    refine h.induction (motive := fun l _ ↦ ∀ p, .unacknowledged p ∈ l → p.notify = true)
      (fun _ p hp ↦ nomatch hp) ?_
    intro l k c c' hl hm p hp
    rcases List.mem_append.1 hp with hp | hp
    · exact hl p hp
    · exact hm.notify_of_mem hp
  intro p hp
  obtain ⟨ev, hev, heq⟩ := List.mem_filterMap.1 hp
  cases ev <;> cases heq
  exact hall p hev

/-- The numbers of first transmissions, with what was taken out of the queue for each. -/
theorem map_firstTransmissions (l : List Event) :
    ((transmissions l).filter fun t ↦ !(Datagram.flags t.2).resent).map
      (fun t ↦ Datagram.sequence t.2) = (firstTransmissions l).map Datagram.sequence := by
  rw [firstTransmissions, List.filter_map, List.map_map]
  rfl

/-- What waits to be sent again has no sender that waits. -/
theorem Traced.sequence_eq_zero (h : Traced P config l c) {p : Outgoing} {d : Octets}
    (hmem : (p, d) ∈ transmissions l) (hp : p.notify = true) : p.sequence = 0 := by
  obtain ⟨now, hev⟩ := mem_transmissions.1 hmem
  obtain ⟨before, after, hl⟩ := List.append_of_mem hev
  obtain ⟨u, v, lane, queue, hbooks, -, htake, -⟩ := h.at_transmission hl
  by_contra h0
  have hsilent := ((hbooks.queues lane p (mem_of_take? htake).1).again h0).2.1
  rw [hsilent] at hp
  exact absurd hp (by simp)

/-- **What has a sender that waits is sent once:** no other datagram has its number. -/
theorem Traced.sent_once (h : Traced P config l c)
    (hbound : (firstTransmissions l).length < sequenceCount) {p : Outgoing} {d : Octets}
    (hmem : (p, d) ∈ transmissions l) (hp : p.notify = true) :
    (Datagram.flags d).resent = false ∧
      (transmissions l).countP (fun t ↦ Datagram.sequence t.2 == Datagram.sequence d) =
        1 := by
  have hfirst : (Datagram.flags d).resent = false := by
    obtain ⟨now, hev⟩ := mem_transmissions.1 hmem
    obtain ⟨before, after, hl⟩ := List.append_of_mem hev
    by_contra hresent
    have hsilent := (h.coursed.first_of_resent hl (by simpa using hresent)).1
    rw [hsilent] at hp
    exact absurd hp (by simp)
  have hnodup := h.books.nodup_firstSequences hbound
  rw [← map_firstTransmissions] at hnodup
  have hin : (p, d) ∈ (transmissions l).filter fun t ↦ !(Datagram.flags t.2).resent :=
    List.mem_filter.2 ⟨hmem, by simp [hfirst]⟩
  -- another transmission of the number would go back to a datagram for which nobody waits
  have hall : ∀ t ∈ transmissions l, Datagram.sequence t.2 = Datagram.sequence d →
      (Datagram.flags t.2).resent = false := by
    rintro ⟨q, d'⟩ ht heq
    obtain ⟨now, hev⟩ := mem_transmissions.1 ht
    obtain ⟨before, after, hl⟩ := List.append_of_mem hev
    by_contra hresent
    obtain ⟨-, q₀, d₀, now₀, hev₀, hfirst₀, -, hsilent, hsequence, -⟩ :=
      h.coursed.first_of_resent hl (by simpa using hresent)
    have hin₀ : (q₀, d₀) ∈
        (transmissions l).filter fun t ↦ !(Datagram.flags t.2).resent :=
      List.mem_filter.2 ⟨mem_transmissions.2 ⟨now₀, by rw [hl]; simp [hev₀]⟩, by simp [hfirst₀]⟩
    have hsame := List.inj_on_of_nodup_map hnodup hin₀ hin (hsequence.trans heq)
    obtain ⟨rfl, rfl⟩ := Prod.mk.inj hsame
    rw [hsilent] at hp
    exact absurd hp (by simp)
  refine ⟨hfirst, ?_⟩
  have hcount := List.count_eq_one_of_mem hnodup (List.mem_map.2 ⟨_, hin, rfl⟩)
  rw [List.count, List.countP_map, List.countP_filter] at hcount
  rw [← hcount]
  refine List.countP_congr ?_
  intro t ht
  simp only [Function.comp_apply, beq_iff_eq, Bool.and_eq_true, Bool.not_eq_true']
  exact ⟨fun heq ↦ ⟨heq, hall t ht heq⟩, And.left⟩

/-! ### The account of a whole life -/

/-- What became of the reliable datagrams of a life. -/
structure Settled (l : List Moment) (c : Circuit) : Prop where
  /-- A reliable datagram that was sent is in the account, or it left the account in one way, once. -/
  once : ∀ d ∈ firstTransmissions (history l), (Datagram.flags d).reliable = true →
    (c.tracker.unacked.map Tracked.sequence).count (Datagram.sequence d) +
      ((acknowledgements (history l)).map Outgoing.sequence).count (Datagram.sequence d) +
      ((ageDrops (history l)).map Outgoing.sequence).count (Datagram.sequence d) +
      ((handouts (history l)).map Outgoing.sequence).count (Datagram.sequence d) +
      ((clearances (history l)).map Outgoing.sequence).count (Datagram.sequence d) = 1
  /-- Nothing else is in the account or left it. -/
  total : ((firstTransmissions (history l)).filter fun d ↦ (Datagram.flags d).reliable).length =
    c.tracker.unacked.length + (acknowledgements (history l)).length +
      (l.map (·.answer.droppedUnacked)).sum + (l.flatMap (·.answer.unacknowledged)).length +
      (clearances (history l)).length
  /-- What the answers count as matched was acknowledged. -/
  matched : ∀ m ∈ l, ∀ n, m.answer = .matched n → n = (acknowledgements m.events).length
  /-- What the answers hand out left the account for that. -/
  handedOut : l.flatMap (·.answer.unacknowledged) = handouts (history l)
  /-- What has a sender that waits is not sent again, and no more often than it was queued. -/
  single : ∀ p d, (p, d) ∈ transmissions (history l) → p.notify = true →
    (Datagram.flags d).resent = false ∧
      (transmissions (history l)).countP (fun t ↦ Datagram.sequence t.2 == Datagram.sequence d) =
        1 ∧
      ((transmissions (history l)).map Prod.fst).count p ≤ (queued (history l)).count p
  /-- What is handed out was sent first for a sender that waits. -/
  waited : ∀ p ∈ handouts (history l), p.notify = true ∧ SentFirst (history l) p

theorem flatMap_unacknowledged {l : List Moment} (h : ∀ m ∈ l, m.Agrees) :
    l.flatMap (·.answer.unacknowledged) = handouts (history l) := by
  induction l with
  | nil => rfl
  | cons m l ih =>
    rw [List.flatMap_cons, history_cons, handouts, List.filterMap_append,
      (h m List.mem_cons_self).unacknowledged, ih fun m hm ↦ h m (List.mem_cons_of_mem _ hm)]
    rfl

theorem sum_droppedUnacked {l : List Moment} (h : ∀ m ∈ l, m.Agrees) :
    (l.map (·.answer.droppedUnacked)).sum = (ageDrops (history l)).length := by
  induction l with
  | nil => rfl
  | cons m l ih =>
    rw [List.map_cons, List.sum_cons, history_cons, ageDrops, List.filterMap_append,
      List.length_append, (h m List.mem_cons_self).droppedUnacked,
      ih fun m hm ↦ h m (List.mem_cons_of_mem _ hm)]
    rfl

/-- **Reliable datagrams are conserved.** In any life in which sequence numbers are not used again, each
of them is accounted for, once. -/
theorem settled_of_lived {l : List Moment} (h : Lived (fun _ ↦ True) config l c)
    (hbound : (firstTransmissions (history l)).length < sequenceCount) : Settled l c := by
  have hways := departures_perm (history l)
  have hconserved := (h.traced.accounts hbound).conserved
  refine ⟨fun d hd hreliable ↦ ?_, ?_, fun m hm ↦ (h.agrees m hm).matched,
    flatMap_unacknowledged h.agrees, fun p d hmem hp ↦ ?_, fun p hp ↦ ?_⟩
  · have hin : Datagram.sequence d ∈ reliableSequences (history l) :=
      List.mem_map.2 ⟨d, List.mem_filter.2 ⟨hd, hreliable⟩, rfl⟩
    have hone := List.count_eq_one_of_mem (h.traced.books.nodup_reliableSequences hbound) hin
    rw [← hconserved.count_eq, List.count_append, (hways.map Outgoing.sequence).count_eq] at hone
    simp only [List.map_append, List.count_append] at hone
    omega
  · have hlength := hconserved.length_eq
    rw [reliableSequences, List.length_map, List.length_append, List.length_map, List.length_map,
      hways.length_eq] at hlength
    simp only [List.length_append] at hlength
    rw [sum_droppedUnacked h.agrees, flatMap_unacknowledged h.agrees]
    omega
  · obtain ⟨hfirst, hone⟩ := h.traced.sent_once hbound hmem hp
    exact ⟨hfirst, hone, h.traced.count_le (h.traced.sequence_eq_zero hmem hp)⟩
  · have hdeparted : p ∈ departures (history l) :=
      hways.symm.subset (by simp [hp])
    exact ⟨h.traced.notify_of_handout p hp, (h.traced.books.departed p hdeparted).sent⟩

/-- A life in which datagrams go all four ways: the first is acknowledged, the second is handed out, the
next two get too old, and the last one is there when the circuit is closed. -/
def settlingOperations : List (Operation × Forest) :=
  let send (lane : Lane) (notify : Bool) : Operation :=
    .send (.throttled lane) { id := .high 5, payload := [1, 2, 3] } true notify
  [send .land false, send .wind true, send .cloud false, send .task false,
    .tick (100 * Span.millisecond), .acknowledge [1] (200 * Span.millisecond),
    .tick (1200 * Span.millisecond), .tick (3200 * Span.millisecond), send .task false,
    .tick (3300 * Span.millisecond), .close].map
    (·, ⟨List.replicate 9 (.full [] 0 0 0)⟩)

theorem settled_of_settling :
    ∃ l c, Lived (fun _ ↦ True) { maxUnackedAge := some (3 * Span.second) } l c ∧
      (firstTransmissions (history l)).length < sequenceCount ∧
      (acknowledgements (history l)).map Outgoing.sequence = [1] ∧
      (handouts (history l)).map Outgoing.sequence = [2] ∧
      (ageDrops (history l)).map Outgoing.sequence = [3, 4] ∧
      (clearances (history l)).map Outgoing.sequence = [5] ∧ Settled l c := by
  obtain ⟨⟨l, c⟩, hlive, htest⟩ := exists_eq_ok_of_any
    (x := live ⟨.ofNat 7, .ofNat 8, 99, none⟩ (.loopback 5)
      { maxUnackedAge := some (3 * Span.second) } 0 0 {} settlingOperations)
    (p := fun r ↦ decide ((firstTransmissions (history r.1)).length < sequenceCount ∧
      (acknowledgements (history r.1)).map Outgoing.sequence = [1] ∧
      (handouts (history r.1)).map Outgoing.sequence = [2] ∧
      (ageDrops (history r.1)).map Outgoing.sequence = [3, 4] ∧
      (clearances (history r.1)).map Outgoing.sequence = [5])) (by decide +kernel)
  obtain ⟨hbound, hacknowledged, hhanded, hdropped, hcleared⟩ := of_decide_eq_true htest
  have hlived : Lived (fun _ ↦ True) { maxUnackedAge := some (3 * Span.second) } l c :=
    ⟨_, _, _, _, _, _, by simp [settlingOperations, Operation.QueuesOnly], hlive⟩
  exact ⟨l, c, hlived, hbound, hacknowledged, hhanded, hdropped, hcleared,
    settled_of_lived hlived hbound⟩

end Circuit

end DatagramCircuits
