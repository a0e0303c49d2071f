import DatagramCircuits.Proofs.Books
/-!
# Conservation

As long as sequence numbers are not used again, nothing that was sent reliably gets lost from the
account, and nothing is in it twice (`Accounts`): the numbers in the account and the numbers of what left
it are those of the reliable first transmissions, each of them once. An entry that says that a copy of it
waits to be sent again has exactly one copy in the queue for that, and the others have none.

Sequence numbers are used again after `sequenceCount` first transmissions. `Accounts.move` asks for fewer
than that in the record that a move leads to.
-/

namespace DatagramCircuits

namespace Circuit

variable {P : Message → Prop} {config : Config} {l k : List Event} {c c' : Circuit}

/-- The numbers of the reliable first transmissions, in order. -/
def reliableSequences (l : List Event) : List UInt32 :=
  ((firstTransmissions l).filter fun d ↦ (Datagram.flags d).reliable).map Datagram.sequence

/-- How many copies of the datagram with the number wait to be sent again. -/
def copies (c : Circuit) (n : UInt32) : Nat :=
  (c.queues.get .resend).toList.countP (·.sequence == n)

/-- What was sent reliably is in the account or left it, and the copies that wait are those that the
account tells of. -/
structure Accounts (l : List Event) (c : Circuit) : Prop where
  conserved : (c.tracker.unacked.map Tracked.sequence ++
    (departures l).map Outgoing.sequence).Perm (reliableSequences l)
  waiting : ∀ e ∈ c.tracker.unacked, c.copies e.sequence = if e.awaitingResend then 1 else 0

/-! ### Numbers without repetition -/

/-- A reliable datagram that was sent has its number in the record. -/
theorem SentFirst.mem_reliableSequences {p : Outgoing} (h : SentFirst l p) :
    p.sequence ∈ reliableSequences l := by
  obtain ⟨q, d, now, hmem, hfirst, hreliable, -, hseq, -⟩ := h
  exact List.mem_map.2
    ⟨d, List.mem_filter.2 ⟨mem_firstTransmissions.2 ⟨⟨q, now, hmem⟩, hfirst⟩, hreliable⟩, hseq⟩

/-- Numbers that were given are not above the number of first transmissions. -/
theorem Books.toNat_le (h : Books P config l c) {n : UInt32} (hn : n ∈ reliableSequences l) :
    n.toNat ≤ (firstTransmissions l).length := by
  obtain ⟨d, hd, rfl⟩ := List.mem_map.1 hn
  have hmem : (Datagram.sequence d).toNat ∈ firstNumbers l :=
    List.mem_map.2 ⟨d, (List.mem_filter.1 hd).1, rfl⟩
  rw [h.numbers] at hmem
  obtain ⟨i, hi, heq⟩ := List.mem_map.1 hmem
  have hlt := List.mem_range.1 hi
  have hle := Nat.mod_le i sequenceCount
  omega

/-- The next number was not given before. -/
theorem Books.ne_nextSequence (h : Books P config l c)
    (hbound : (firstTransmissions l).length < sequenceCount) {n : UInt32}
    (hn : n ∈ reliableSequences l) : n ≠ c.nextSequence := by
  rintro rfl
  have hle := h.toNat_le hn
  rw [h.next, Nat.mod_eq_of_lt hbound] at hle
  omega

/-- **No number is given out twice** before they run out. -/
theorem Books.nodup_firstNumbers (h : Books P config l c)
    (hbound : (firstTransmissions l).length < sequenceCount) : (firstNumbers l).Nodup := by
  rw [h.numbers]
  refine (List.nodup_map_iff_inj_on List.nodup_range).2 ?_
  intro i hi j hj heq
  have hi' := List.mem_range.1 hi
  have hj' := List.mem_range.1 hj
  rw [Nat.mod_eq_of_lt (Nat.lt_trans hi' hbound), Nat.mod_eq_of_lt (Nat.lt_trans hj' hbound)] at heq
  omega

/-- So no two first transmissions have the same number. -/
theorem Books.nodup_firstSequences (h : Books P config l c)
    (hbound : (firstTransmissions l).length < sequenceCount) :
    ((firstTransmissions l).map Datagram.sequence).Nodup := by
  refine List.Nodup.of_map UInt32.toNat ?_
  rw [List.map_map]
  exact h.nodup_firstNumbers hbound

/-- Nor do two that are reliable. -/
theorem Books.nodup_reliableSequences (h : Books P config l c)
    (hbound : (firstTransmissions l).length < sequenceCount) : (reliableSequences l).Nodup :=
  (List.filter_sublist.map _).nodup (h.nodup_firstSequences hbound)

/-- **No number is in the account and also left it.** -/
theorem Accounts.disjoint (ha : Accounts l c) (h : Books P config l c)
    (hbound : (firstTransmissions l).length < sequenceCount) {e : Tracked}
    (he : e ∈ c.tracker.unacked) : ∀ p ∈ departures l, p.sequence ≠ e.sequence := by
  intro p hp heq
  have hnodup := ha.conserved.nodup_iff.2 (h.nodup_reliableSequences hbound)
  exact (List.nodup_append.1 hnodup).2.2 e.sequence (List.mem_map.2 ⟨e, he, rfl⟩) p.sequence
    (List.mem_map.2 ⟨p, hp, rfl⟩) heq.symm

/-! ### Copies in the queue -/

/-- What is dropped from the front of a queue has no number of an entry. -/
theorem countP_dropped {n : UInt32} (hn : c.tracker.isUnacked n = true) {dropped : List Outgoing}
    (h : ∀ x ∈ dropped, c.isUseful x = false) : dropped.countP (·.sequence == n) = 0 := by
  refine List.countP_eq_zero.2 ?_
  intro x hx heq
  have huseless := h x hx
  rw [isUseful, eq_of_beq heq, hn, Bool.or_true] at huseless
  exact absurd huseless (by simp)

/-- Taking a datagram out of a queue leaves the copies of all entries but its own. -/
theorem countP_take? {lane : Lane} {p : Outgoing} {q : LaneQueue}
    (h : (c.queues.get lane).take? c.isUseful = (some p, q)) {n : UInt32}
    (hn : c.tracker.isUnacked n = true) :
    (c.queues.get lane).toList.countP (·.sequence == n) =
      q.toList.countP (·.sequence == n) + if p.sequence == n then 1 else 0 := by
  obtain ⟨-, -, dropped, hq, hdropped⟩ := LaneQueue.take?_eq_some h
  rw [hq, List.countP_append, countP_dropped hn hdropped, Nat.zero_add, List.countP_cons]

/-- A queue with as many copies of all entries may take its place. -/
theorem Accounts.requeue (ha : Accounts l c) {lane : Lane} {q : LaneQueue}
    (hq : ∀ n, c.tracker.isUnacked n = true →
      q.toList.countP (·.sequence == n) =
        (c.queues.get lane).toList.countP (·.sequence == n)) :
    Accounts l { c with queues := c.queues.set lane q } := by
  refine ⟨ha.conserved, fun e he ↦ ?_⟩
  rw [← ha.waiting e he, copies, copies, PerLane.get_set]
  split
  · rename_i heq
    subst heq
    exact hq e.sequence (Tracker.isUnacked_iff.2 ⟨e, he, rfl⟩)
  · rfl

/-! ### Moves that send nothing -/

theorem reliableSequences_append (l k : List Event) :
    reliableSequences (l ++ k) = reliableSequences l ++ reliableSequences k := by
  simp [reliableSequences]

/-- Where nothing is sent, no number is used. -/
theorem reliableSequences_eq_nil (h : transmissions k = []) : reliableSequences k = [] := by
  rw [reliableSequences, firstTransmissions_eq_nil h]
  rfl

/-- **What leaves the account goes into the record,** where nothing is sent. -/
theorem Accounts.unsent (ha : Accounts l c) (hk : transmissions k = [])
    (hperm : (c.tracker.unacked.map Tracked.packet).Perm
      (c'.tracker.unacked.map Tracked.packet ++ departures k))
    (hwaiting : ∀ e ∈ c'.tracker.unacked, c'.copies e.sequence = if e.awaitingResend then 1 else 0) :
    Accounts (l ++ k) c' := by
  refine ⟨?_, hwaiting⟩
  rw [reliableSequences_append, reliableSequences_eq_nil hk, List.append_nil, departures_append,
    List.map_append]
  have hsequences := hperm.map Outgoing.sequence
  rw [List.map_append, List.map_map, List.map_map] at hsequences
  -- what leaves now stands behind what left before
  have hswap : ((departures l).map Outgoing.sequence ++ (departures k).map Outgoing.sequence).Perm
      ((departures k).map Outgoing.sequence ++ (departures l).map Outgoing.sequence) :=
    List.perm_append_comm
  refine (hswap.append_left _).trans ?_
  rw [← List.append_assoc]
  exact (hsequences.symm.append_right _).trans ha.conserved

/-- What leaves alone all that the books are about conserves what was sent. -/
theorem Accounts.same (ha : Accounts l c) (hsame : SameBooks c c') (hk : transmissions k = [])
    (hdeparted : departures k = []) : Accounts (l ++ k) c' := by
  refine ha.unsent hk ?_ ?_
  · rw [hdeparted, List.append_nil, hsame.unacked]
  · rw [hsame.unacked]
    intro e he
    rw [copies, hsame.queues]
    exact ha.waiting e he

/-- Quiet work leaves the account alone. -/
theorem Accounts.quiet (ha : Accounts l c) (hq : Quiet c k c') : Accounts (l ++ k) c' :=
  ha.same hq.sameBooks hq.transmissions_eq_nil hq.departures_eq_nil

/-- So does a datagram that arrives, before its acknowledgements are seen to. -/
theorem Accounts.arrival (ha : Accounts l c) (harrival : Arrival c k c') : Accounts (l ++ k) c' := by
  obtain ⟨p, disposition, rfl⟩ := harrival.exists_arrived
  exact ha.same harrival.sameBooks rfl rfl

/-- A datagram that was never sent is no copy. -/
theorem Accounts.queue (ha : Accounts l c) (h : Books P config l c) (lane : Lane) {p : Outgoing}
    (hp : p.sequence = 0) : Accounts (l ++ [.queued p]) (c.push lane p) := by
  have hpush : Accounts l (c.push lane p) := by
    refine ha.requeue ?_
    intro n hn
    obtain ⟨e, he, rfl⟩ := Tracker.isUnacked_iff.1 hn
    have hno : (p.sequence == e.sequence) = false := by
      rw [hp]
      exact beq_false_of_ne (h.entries e he).kept.numbered.symm
    rw [LaneQueue.toList_push, List.countP_append, List.countP_singleton, hno]
    rfl
  refine hpush.unsent rfl ?_ hpush.waiting
  exact List.Perm.of_eq (List.append_nil _).symm

/-! ### Moves that take entries out -/

/-- Departures are told one by one. -/
theorem departures_map {α : Type} {f : α → Event} {g : α → Outgoing}
    (hf : ∀ a, (f a).departure? = some (g a)) (as : List α) : departures (as.map f) = as.map g := by
  simp [departures, List.filterMap_map, hf]

/-- What is acknowledged leaves the account. -/
theorem Accounts.acknowledge (ha : Accounts l c) (h : Books P config l c) (n : UInt32)
    (now : Instant) :
    Accounts (l ++ (c.tracker.acknowledge n now).1.toList.map (.acknowledged · now))
      { c with tracker := (c.tracker.acknowledge n now).2 } := by
  refine ha.unsent (filterMap_map_eq_nil (fun _ ↦ rfl) _) ?_ ?_
  · rw [departures_map (fun _ ↦ rfl), List.map_id']
    exact Tracker.acknowledge_perm n now h.ordered
  · obtain ⟨r, hr, -⟩ := Tracker.acknowledge_snd n now c.tracker
    rw [hr]
    exact fun e he ↦ ha.waiting e (List.mem_filter.1 he).1

/-- So does what is too old. -/
theorem Accounts.outdate (ha : Accounts l c) (now : Instant) :
    Accounts (l ++ (c.dropOutdated now).1.map .outdated) (c.dropOutdated now).2 := by
  rw [dropOutdated]
  split
  · simpa using ha
  · rename_i age _
    refine ha.unsent (filterMap_map_eq_nil (fun _ ↦ rfl) _) ?_
      fun e he ↦ ha.waiting e (List.mem_filter.1 he).1
    rw [departures_map (fun _ ↦ rfl), List.map_id']
    exact Tracker.dropOlder_perm age now c.tracker

/-- The entries that are marked are those of which a copy is queued. -/
theorem Accounts.expire (ha : Accounts l c) (h : Books P config l c) (now : Instant) :
    Accounts (l ++ (c.collectExpired now).1.map .unacknowledged) (c.collectExpired now).2 := by
  generalize hexpired : Tracker.isExpired c.tracker.roundTrip.timeout now = expired
  obtain ⟨hfst, q, hsnd, hq⟩ := collectExpired_eq now h.ordered hexpired.symm
  rw [hfst, hsnd]
  refine ha.unsent (filterMap_map_eq_nil (fun _ ↦ rfl) _) ?_ ?_
  · rw [departures_map (fun _ ↦ rfl), List.map_id', List.map_map]
    have hsplit := (List.filter_append_perm (fun e ↦ expired e && e.packet.notify)
      c.tracker.unacked).symm.map Tracked.packet
    rw [List.map_append] at hsplit
    have hmarked : Tracked.packet ∘ markIf expired = Tracked.packet :=
      funext (packet_markIf expired)
    rw [hmarked]
    exact hsplit.trans List.perm_append_comm
  · intro e' he'
    obtain ⟨e, he, rfl⟩ := List.mem_map.1 he'
    obtain ⟨hmem, hkeep⟩ := List.mem_filter.1 he
    have hold := ha.waiting e hmem
    -- a copy of the entry is queued now exactly if its time is up
    have hnew : ((c.tracker.unacked.filter fun x ↦ expired x && !x.packet.notify).map
        fun x ↦ resendCopy x.packet).countP (·.sequence == e.sequence) =
          if expired e then 1 else 0 := by
      have hone := Tracker.countP_filter h.ordered hmem fun x ↦ expired x && !x.packet.notify
      rw [List.countP_map]
      refine hone.trans ?_
      cases hx : expired e <;> simp_all
    rw [sequence_markIf, copies, PerLane.get_set_self, hq, List.countP_append, hnew]
    rw [copies] at hold
    rw [hold, markIf]
    cases hx : expired e with
    | false => simp
    | true =>
      rw [← hexpired] at hx
      have hidle : e.awaitingResend = false := by
        simp only [Tracker.isExpired, Bool.and_eq_true, Bool.not_eq_true'] at hx
        exact hx.1
      simp [hidle]

/-- All that is left in the account leaves it when the circuit is closed. -/
theorem Accounts.close (ha : Accounts l c) :
    Accounts (l ++ c.tracker.unacked.map (.cleared ·.packet))
      { c with
        phase := .disconnected
        queues := PerLane.replicate {}
        outstandingPing := none
        tracker := c.tracker.clear } := by
  refine ha.unsent (filterMap_map_eq_nil (fun _ ↦ rfl) _) ?_ fun e he ↦ nomatch he
  rw [departures_map (g := Tracked.packet) fun _ ↦ rfl]
  exact List.Perm.refl _

/-! ### Transmissions -/

/-- A transmission uses a number if it is reliable and the first. -/
theorem reliableSequences_transmitted {p : Outgoing} {d : Octets} {now : Instant} :
    reliableSequences [.transmitted p d now] =
      if !(Datagram.flags d).resent && (Datagram.flags d).reliable then [Datagram.sequence d]
      else [] := by
  rw [reliableSequences, firstTransmissions_transmitted]
  cases (Datagram.flags d).resent <;> cases h : (Datagram.flags d).reliable <;> simp [h]

/-- **A first transmission** enters a reliable datagram into the account, and no other entry had its
number. -/
theorem Accounts.transmitFirst (ha : Accounts l c) (h : Books P config l c)
    (hbound : (firstTransmissions l).length < sequenceCount) (p : Outgoing) (buffer : Octets)
    (reliable : Bool) (now : Instant) {d : Octets} {k bytes : Nat}
    (hfirst : (Datagram.flags d).resent = false) (hreliable : (Datagram.flags d).reliable = reliable)
    (hsequence : Datagram.sequence d = c.nextSequence) :
    Accounts (l ++ [.transmitted p d now])
      { c with
        tracker := { dropAcks k bytes c.tracker with
          unacked :=
            if reliable then
              Tracker.insert (firstEntry p buffer c.nextSequence now) c.tracker.unacked
            else c.tracker.unacked }
        nextSequence := followingSequence c.nextSequence } := by
  have hnew : reliableSequences [.transmitted p d now] =
      if reliable then [c.nextSequence] else [] := by
    rw [reliableSequences_transmitted, hfirst, hreliable, hsequence]
    rfl
  -- a number that is not used again is new to the account
  have hother : ∀ e ∈ c.tracker.unacked, e.sequence ≠ c.nextSequence := fun e he ↦
    h.ne_nextSequence hbound (h.entries e he).kept.sent.mem_reliableSequences
  cases reliable with
  | false =>
    refine ⟨?_, ha.waiting⟩
    rw [reliableSequences_append, hnew, departures_transmitted]
    simpa using ha.conserved
  | true =>
    refine ⟨?_, fun e he ↦ ?_⟩
    · rw [reliableSequences_append, hnew, departures_transmitted]
      have hkeep : c.tracker.unacked.filter (·.sequence != c.nextSequence) = c.tracker.unacked :=
        List.filter_eq_self.2 fun e he ↦ by simpa using hother e he
      have hinsert := (Tracker.insert_perm (firstEntry p buffer c.nextSequence now)
        h.ordered).map Tracked.sequence
      rw [show (firstEntry p buffer c.nextSequence now).sequence = c.nextSequence from rfl, hkeep]
        at hinsert
      exact (hinsert.append_right _).trans
        ((ha.conserved.cons c.nextSequence).trans (List.perm_append_singleton ..).symm)
    · rcases Tracker.mem_insert.1 he with rfl | ⟨he, -⟩
      · -- what waits was never sent, or was sent under a number given before
        refine List.countP_eq_zero.2 ?_
        intro x hx heq
        have hx' : x.sequence = c.nextSequence := eq_of_beq heq
        by_cases h0 : x.sequence = 0
        · have hnext := h.next
          rw [← hx', h0] at hnext
          exact absurd hnext.symm (by simp [Nat.one_add])
        · have hsent := ((h.queues .resend x hx).again h0).2.2
          exact h.ne_nextSequence hbound hsent.mem_reliableSequences hx'
      · exact ha.waiting e he

/-- **Another transmission** uses up the only copy that waited. -/
theorem Accounts.transmitAgain (ha : Accounts l c) (h : Books P config l c) {p : Outgoing}
    {q : LaneQueue} (htake : (c.queues.get .resend).take? c.isUseful = (some p, q)) {e : Tracked}
    (he : c.tracker.find? p.sequence = some e) (now : Instant) {d : Octets} {k bytes : Nat}
    (hresent : (Datagram.flags d).resent = true) (retries : UInt32) :
    Accounts (l ++ [.transmitted p d now])
      { c with
        queues := c.queues.set .resend q
        tracker := { dropAcks k bytes c.tracker with
          unacked := Tracker.insert (resentEntry e retries now) c.tracker.unacked } } := by
  obtain ⟨hmem, hseq⟩ := Tracker.mem_of_find? he
  refine ⟨?_, fun x hx ↦ ?_⟩
  · rw [reliableSequences_append, reliableSequences_transmitted, hresent, departures_transmitted]
    have hinsert := (Tracker.insert_perm (resentEntry e retries now) h.ordered).map Tracked.sequence
    have hold := (Tracker.perm_cons_filter_ne h.ordered hmem).map Tracked.sequence
    simpa using ((hinsert.trans hold.symm).append_right _).trans ha.conserved
  · rw [copies, PerLane.get_set_self]
    rcases Tracker.mem_insert.1 hx with rfl | ⟨hx, hne⟩
    · have hold := ha.waiting e hmem
      have htaken := countP_take? htake (Tracker.isUnacked_iff.2 ⟨e, hmem, rfl⟩)
      rw [copies, htaken, if_pos (beq_iff_eq.2 hseq.symm)] at hold
      show q.toList.countP (·.sequence == e.sequence) = 0
      split at hold <;> omega
    · have hno : ¬ (p.sequence == x.sequence) = true := by
        rw [← hseq, beq_iff_eq]
        exact hne.symm
      have htaken := countP_take? htake (Tracker.isUnacked_iff.2 ⟨x, hx, rfl⟩)
      rw [if_neg hno, Nat.add_zero] at htaken
      exact htaken.symm.trans (ha.waiting x hx)

/-- Every transmission keeps the account, be it the first or another one. -/
theorem Accounts.transmit (ha : Accounts l c) (h : Books P config l c)
    (hbound : (firstTransmissions l).length < sequenceCount) {lane : Lane} {p : Outgoing}
    {q : LaneQueue} {now : Instant} {d : Octets}
    (htake : (c.queues.get lane).take? c.isUseful = (some p, q))
    (hsent : { c with queues := c.queues.set lane q }.transmit p now = .ok (d, c')) :
    Accounts (l ++ [.transmitted p d now]) c' := by
  obtain ⟨hp, hrest⟩ := mem_of_take? htake
  have hwaits := h.queues lane p hp
  obtain ⟨m, reliable, piece, k, bytes, -, -, -, -, ⟨h0, hd, rfl⟩ | ⟨h0, e, retries, he, -, hd, rfl⟩⟩ :=
    transmit_cases (c := { c with queues := c.queues.set lane q }) hwaits.carries
      (LaneQueue.take?_eq_some htake).1 hsent
  · have hrequeued : Accounts l { c with queues := c.queues.set lane q } := by
      refine ha.requeue ?_
      intro n hn
      obtain ⟨e, he, rfl⟩ := Tracker.isUnacked_iff.1 hn
      have hno : ¬ (p.sequence == e.sequence) = true := by
        rw [h0, beq_iff_eq]
        exact (h.entries e he).kept.numbered.symm
      rw [countP_take? htake hn, if_neg hno, Nat.add_zero]
    refine hrequeued.transmitFirst (h.shrink hrest) hbound p _ reliable now ?_ ?_ ?_
    · rw [hd, Datagram.flags_wire rfl]
    · rw [hd, Datagram.flags_wire rfl]
    · rw [hd, Datagram.sequence_wire]
  · obtain rfl := (hwaits.again h0).1
    refine ha.transmitAgain h htake he now ?_ retries
    rw [hd, Datagram.flags_wire rfl]

/-! ### All moves -/

/-- The service of the queues keeps the account. -/
theorem Accounts.service {now : Instant} (ha : Accounts l c) (h : Books P config l c)
    (hbound : (firstTransmissions l).length < sequenceCount) (hs : Service now c k c') :
    Accounts (l ++ k) c' := by
  cases hs with
  | quiet hq => exact ha.quiet hq
  | discard htake =>
    rw [List.append_nil]
    refine ha.requeue ?_
    intro n hn
    obtain ⟨hnil, huseless⟩ := LaneQueue.take?_eq_none htake
    rw [hnil, countP_dropped hn huseless]
    rfl
  | holdBack htake =>
    rw [List.append_nil]
    refine ha.requeue ?_
    intro n hn
    rw [LaneQueue.toList_holdBack (LaneQueue.take?_eq_some htake).2.1, countP_take? htake hn,
      List.countP_cons]
  | transmit htake hsent => exact ha.transmit h hbound htake hsent

/-- **Every move conserves what was sent,** as long as numbers are not used again. -/
theorem Accounts.move (ha : Accounts l c) (h : Books P config l c)
    (hbound : (firstTransmissions l).length < sequenceCount) (hm : Move P c k c') :
    Accounts (l ++ k) c' := by
  cases hm with
  | service hs => exact ha.service h hbound hs
  | arrival harrival => exact ha.arrival harrival
  | @queue _ lane buffer notify hcarries => exact ha.queue h lane rfl
  | acknowledge _ n now => exact ha.acknowledge h n now
  | sample _ d =>
    rw [List.append_nil]
    exact ⟨ha.conserved, ha.waiting⟩
  | outdate _ now => exact ha.outdate now
  | expire _ now => exact ha.expire h now
  | close => exact ha.close

theorem Fresh.accounts (h : Fresh config c) : Accounts [] c := by
  refine ⟨?_, fun e he ↦ ?_⟩
  · rw [h.unacked]
    exact List.Perm.nil
  · rw [h.unacked] at he
    exact absurd he List.not_mem_nil

/-- In a record of more, no fewer first transmissions are counted. -/
theorem length_firstTransmissions_le (l k : List Event) :
    (firstTransmissions l).length ≤ (firstTransmissions (l ++ k)).length := by
  rw [firstTransmissions_append, List.length_append]
  exact Nat.le_add_right ..

/-- **What was sent is conserved** as long as sequence numbers are not used again. -/
theorem Traced.accounts (h : Traced P config l c)
    (hbound : (firstTransmissions l).length < sequenceCount) : Accounts l c := by
  refine h.invariant (motive := fun l c ↦ (firstTransmissions l).length < sequenceCount → Accounts l c)
    (fun hfresh _ ↦ hfresh.accounts) ?_ hbound
  intro l k c c' hbooks haccounts hm hlonger
  have hshorter := Nat.lt_of_le_of_lt (length_firstTransmissions_le l k) hlonger
  exact (haccounts hshorter).move hbooks hshorter hm

end Circuit

end DatagramCircuits
