import DatagramCircuits.Proofs.Acknowledging
import Mathlib.Data.List.DropRight
/-!
# Numbers that are recognised

A circuit recognises the reliable datagrams that it accepted last, as many as its window has room
for, and no others (`recognises_of_chronicle`).

The invariant is `Recalls`: the window holds the last of the numbers that were accepted, in their
order, none of them twice, and its set has the same elements as its order. The lists of numbers are
never cut anywhere but in their front, so all that has to be known about eviction is `List.rtake`.
-/

namespace DatagramCircuits

namespace SeenWindow

variable {capacity : Nat} {w : SeenWindow} {n : UInt32} {l : List UInt32}

/-! ### One number -/

/-- The order and the set agree: same elements, none of them twice, and no more than there is room
for. -/
structure InStep (w : SeenWindow) : Prop where
  nodup : w.order.Nodup
  contains_iff : ∀ n, w.members.contains n = true ↔ n ∈ w.order
  length_le : w.order.length ≤ max 1 w.capacity

/-- The room of a window is fixed. -/
theorem capacity_offer (n : UInt32) (w : SeenWindow) : (w.offer n).2.capacity = w.capacity := by
  rw [offer]
  split
  · rfl
  · dsimp only [push]
    split
    · rw [evict]
      split <;> rfl
    · rfl

/-- A number that is known changes nothing. -/
theorem offer_of_contains (h : w.members.contains n = true) : w.offer n = (true, w) := by
  rw [offer, if_pos h]

theorem InStep.empty (capacity : Nat) : (SeenWindow.empty capacity).InStep where
  nodup := List.nodup_nil
  contains_iff n := by simp [SeenWindow.empty]
  length_le := Nat.zero_le _

/-- Eviction takes the same number from the order and from the set. -/
theorem InStep.evict (h : w.InStep) : w.evict.InStep := by
  rw [SeenWindow.evict]
  split
  · exact h
  · rename_i oldest order horder
    have hnodup := horder ▸ h.nodup
    refine ⟨(List.nodup_cons.1 hnodup).2, fun n ↦ ?_, ?_⟩
    · -- the oldest number occurs once in the order, so it is gone from both
      have hout := (List.nodup_cons.1 hnodup).1
      rw [Std.TreeSet.contains_erase, Bool.and_eq_true, h.contains_iff, horder, List.mem_cons,
        bne_iff_ne, Ne, Std.LawfulEqCmp.compare_eq_iff_eq]
      constructor
      · rintro ⟨hne, rfl | hn⟩
        · exact absurd rfl hne
        · exact hn
      · intro hn
        exact ⟨fun heq ↦ hout (heq ▸ hn), .inr hn⟩
    · have := h.length_le
      rw [horder, List.length_cons] at this
      exact Nat.le_of_succ_le this

/-- A number that is pushed enters both. -/
theorem InStep.push (h : w.InStep) (hn : n ∉ w.order) (hroom : w.order.length < max 1 w.capacity) :
    (w.push n).InStep where
  nodup := List.nodup_append.2 ⟨h.nodup, List.nodup_singleton n, by
    intro a ha b hb heq
    obtain rfl := List.mem_singleton.1 hb
    exact hn (heq ▸ ha)⟩
  contains_iff m := by
    rw [SeenWindow.push, Std.TreeSet.contains_insert, Bool.or_eq_true, beq_iff_eq,
      Std.LawfulEqCmp.compare_eq_iff_eq, h.contains_iff, List.mem_append, List.mem_singleton, or_comm,
      eq_comm]
  length_le := by
    rw [SeenWindow.push, List.length_append, List.length_singleton]
    exact hroom

/-- Room is made for a new number by taking the oldest one out, if there is none. -/
theorem order_makeRoom (h : w.InStep) :
    (if w.capacity ≤ w.order.length then w.evict else w).order =
      w.order.drop (w.order.length + 1 - max 1 w.capacity) := by
  have hlen := h.length_le
  split
  · rename_i hfull
    rw [evict]
    cases horder : w.order with
    | nil => simpa using horder
    | cons oldest order =>
      rw [horder, List.length_cons] at hlen hfull
      have hone : order.length + 1 + 1 - max 1 w.capacity = 1 := by omega
      simp [hone]
  · rename_i hfree
    have hzero : w.order.length + 1 - max 1 w.capacity = 0 := by omega
    rw [hzero, List.drop_zero]

/-! ### All numbers -/

/-- The window holds the last of the numbers in the list, and so it was for each of them when it
came. -/
structure Recalls (capacity : Nat) (l : List UInt32) (w : SeenWindow) : Prop extends InStep w where
  capacity_eq : w.capacity = capacity
  order_eq : w.order = l.rtake (max 1 capacity)
  spaced : ∀ l₁ n l₂, l = l₁ ++ n :: l₂ →
    n ∉ l₁.rtake (max 1 capacity) ∧ (l₁.rtake (max 1 capacity)).Nodup

/-- Cutting before a number is added makes no difference to what is cut afterwards. -/
theorem rtake_rtake_concat (k : Nat) (l : List UInt32) (n : UInt32) :
    (l.rtake (k + 1) ++ [n]).rtake (k + 1) = (l ++ [n]).rtake (k + 1) := by
  rw [List.rtake_concat_succ, List.rtake_concat_succ]
  simp only [List.rtake_eq_reverse_take_reverse, List.reverse_reverse, List.take_take,
    Nat.min_eq_left (Nat.le_succ k)]

/-- What comes last is all that counts, if there is enough of it. -/
theorem rtake_append_of_le {k : Nat} {l mid : List UInt32} (h : k ≤ mid.length) :
    (l ++ mid).rtake k = mid.rtake k := by
  have hfront : l.length ≤ (l ++ mid).length - k := by
    rw [List.length_append]
    omega
  rw [List.rtake, List.drop_append, List.drop_eq_nil_of_le hfront, List.nil_append, List.rtake,
    List.length_append]
  congr 1
  omega

theorem Recalls.empty (capacity : Nat) : Recalls capacity [] (SeenWindow.empty capacity) where
  toInStep := InStep.empty capacity
  capacity_eq := rfl
  order_eq := (List.rtake_nil _).symm
  spaced l₁ n l₂ h := by simp at h

/-- **The window contains the last numbers,** and no others. -/
theorem Recalls.contains_iff_mem (h : Recalls capacity l w) :
    w.members.contains n = true ↔ n ∈ l.rtake (max 1 capacity) := by
  rw [h.contains_iff, h.order_eq]

/-- **A new number** is added to those that the window holds, the oldest of which may have to go. -/
theorem Recalls.offer_of_not_contains (h : Recalls capacity l w)
    (hn : ¬w.members.contains n = true) : Recalls capacity (l ++ [n]) (w.offer n).2 := by
  obtain rfl := h.capacity_eq
  obtain ⟨k, hk⟩ : ∃ k, max 1 w.capacity = k + 1 := ⟨max 1 w.capacity - 1, by omega⟩
  have hcapacity := capacity_offer n w
  have horder := order_makeRoom h.toInStep
  have hroom : (if w.capacity ≤ w.order.length then w.evict else w).InStep := by
    split
    · exact h.toInStep.evict
    · exact h.toInStep
  rw [offer, if_neg hn] at hcapacity ⊢
  dsimp only at hcapacity ⊢
  generalize (if w.capacity ≤ w.order.length then w.evict else w) = w' at hcapacity horder hroom ⊢
  replace hcapacity : w'.capacity = w.capacity := hcapacity
  have hlen := h.length_le
  have hpush : (w'.push n).capacity = w.capacity := hcapacity
  refine ⟨hroom.push ?_ ?_, hpush, ?_, fun l₁ m l₂ hl ↦ ?_⟩
  · rw [horder]
    exact fun hmem ↦ hn ((h.contains_iff n).2 (List.mem_of_mem_drop hmem))
  · rw [horder, hcapacity, List.length_drop]
    omega
  · show w'.order ++ [n] = _
    rw [hk, ← rtake_rtake_concat, ← hk, ← h.order_eq, List.rtake, horder, List.length_append,
      List.length_singleton, List.drop_append_of_le_length (by omega)]
  · rcases List.eq_nil_or_concat l₂ with rfl | ⟨l₂, x, rfl⟩
    · -- the new number itself: the window of before has none of it
      obtain ⟨rfl, hm⟩ := List.append_inj' hl rfl
      obtain rfl := List.singleton_inj.1 hm
      rw [← h.order_eq]
      exact ⟨fun hmem ↦ hn ((h.contains_iff n).2 hmem), h.nodup⟩
    · rw [List.concat_eq_append, ← List.cons_append, ← List.append_assoc] at hl
      exact h.spaced l₁ m l₂ (List.append_inj' hl rfl).1

/-- **Between two arrivals of a number as a new one,** as many other numbers came as the window has
room for, all of them different. -/
theorem Recalls.exists_between (h : Recalls capacity l w) {l₁ l₂ mid : List UInt32}
    (hl : l = l₁ ++ n :: mid ++ n :: l₂) :
    ∃ t, t <:+ mid ∧ t.length = max 1 capacity ∧ t.Nodup ∧ n ∉ t := by
  obtain ⟨hout, hnodup⟩ := h.spaced (l₁ ++ n :: mid) n l₂ hl
  generalize max 1 capacity = k at hout hnodup ⊢
  -- if fewer numbers came, the window would still hold the first one
  have hlong : k ≤ mid.length := by
    by_contra hshort
    refine hout ?_
    rw [List.rtake, List.drop_append_of_le_length (by simp; omega)]
    exact List.mem_append_right _ List.mem_cons_self
  rw [List.append_cons, rtake_append_of_le hlong] at hout hnodup
  have hlen : (mid.rtake k).length = k := by
    rw [List.rtake, List.length_drop]
    omega
  exact ⟨mid.rtake k, List.drop_suffix _ _, hlen, hnodup, hout⟩

end SeenWindow

namespace Circuit

variable {P : Message → Prop} {capacity : Nat} {config : Config} {now : Instant} {l k : List Event}
  {c c' : Circuit}

/-! ### What a circuit accepted -/

namespace Event

/-- The number of a reliable datagram that is accepted. -/
def accepted? : Event → Option UInt32
  | arrived p (.accept _) => if p.isReliable then some p.header.sequence else none
  | _ => none

end Event

/-- The numbers of the reliable datagrams that were accepted, in order. -/
def acceptedNumbers (l : List Event) : List UInt32 :=
  l.filterMap Event.accepted?

/-- What happened tells which numbers were accepted last. -/
abbrev Recalls (capacity : Nat) (l : List Event) (c : Circuit) : Prop :=
  c.tracker.seen.Recalls capacity (acceptedNumbers l)

/-- What leaves the window alone, and accepts nothing. -/
theorem Recalls.silent (h : Recalls capacity l c) (hk : acceptedNumbers k = [])
    (hseen : c'.tracker.seen = c.tracker.seen) : Recalls capacity (l ++ k) c' := by
  rw [Recalls, acceptedNumbers, List.filterMap_append, ← acceptedNumbers, ← acceptedNumbers, hk,
    List.append_nil, hseen]
  exact h

theorem acceptedNumbers_signalEvents (mtu : Nat) (m : Control) :
    acceptedNumbers (signalEvents mtu m) = [] := by
  rw [signalEvents]
  split <;> rfl

/-- Appended acknowledgements are out of the window's sight. -/
theorem seen_piggyback (mtu : Nat) (p : Outgoing) (d : Octets) (t : Tracker) :
    (piggyback mtu p d t).2.seen = t.seen := by
  rw [piggyback]
  split <;> rfl

theorem seen_of_noteResent {t t' : Tracker} {n : UInt32} {known : Bool}
    (h : t.noteResent n now = .ok (known, t')) : t'.seen = t.seen := by
  rw [Tracker.noteResent] at h
  split at h
  · cases h
    rfl
  · split at h <;> cases h
    rfl

/-- Transmissions are out of the window's sight as well. -/
theorem seen_of_transmit {p : Outgoing} {d : Octets} (h : c.transmit p now = .ok (d, c')) :
    c'.tracker.seen = c.tracker.seen := by
  rw [transmit] at h
  split at h
  · obtain ⟨buffer, -, h⟩ := bind_eq_ok_iff.1 h
    obtain ⟨-, rfl⟩ := Prod.mk.inj (Except.ok.inj h)
    have hseen := seen_piggyback c.config.mtu p buffer c.tracker
    dsimp only
    split <;> exact hseen
  · obtain ⟨buffer, -, h⟩ := bind_eq_ok_iff.1 h
    obtain ⟨⟨known, t⟩, ht, h⟩ := bind_eq_ok_iff.1 h
    obtain ⟨-, rfl⟩ := Prod.mk.inj (Except.ok.inj h)
    exact (seen_piggyback c.config.mtu p buffer t).trans (seen_of_noteResent ht)

/-! ### The invariant -/

/-- Quiet work changes neither the window nor what was accepted. -/
theorem Recalls.quiet (h : Recalls capacity l c) (hq : Quiet c k c') :
    Recalls capacity (l ++ k) c' := by
  cases hq with
  | keep hsame => exact h.silent rfl (congrArg Tracker.seen hsame.tracker)
  | acks => exact h.silent (acceptedNumbers_signalEvents _ _) rfl
  | ping =>
    refine h.silent (acceptedNumbers_signalEvents _ _) ?_
    rw [nextPingDatagram]
    split <;> rfl
  | pong => exact h.silent (acceptedNumbers_signalEvents _ _) rfl

/-- Nor does the service of the queues. -/
theorem Recalls.service (h : Recalls capacity l c) (hs : Service now c k c') :
    Recalls capacity (l ++ k) c' := by
  cases hs with
  | quiet hq => exact h.quiet hq
  | discard | holdBack => exact h.silent rfl rfl
  | transmit _ hsent =>
    have hseen := seen_of_transmit hsent
    exact h.silent rfl hseen

/-- **A reliable datagram** is accepted if its number is not in the window, and only then. -/
theorem Recalls.arrival (h : Recalls capacity l c) (ha : Arrival c k c') :
    Recalls capacity (l ++ k) c' := by
  cases ha with
  | plain p hp =>
    refine h.silent ?_ rfl
    rcases hp with rfl | ⟨hp, rfl⟩
    · rfl
    · simp [acceptedNumbers, Event.accepted?, hp]
  | @reliable p hp bytes flushAcks =>
    by_cases hknown : c.tracker.seen.members.contains p.header.sequence = true
    · rw [SeenWindow.offer_of_contains hknown]
      refine h.silent rfl ?_
      rw [takeReliable, SeenWindow.offer_of_contains hknown]
    · have haccepted : acceptedNumbers [.arrived p
          (reliableDisposition p (c.tracker.seen.offer p.header.sequence).1 flushAcks)] =
          [p.header.sequence] := by
        rw [SeenWindow.offer_fst, Bool.eq_false_of_not_eq_true hknown]
        simp [acceptedNumbers, Event.accepted?, reliableDisposition, hp]
      rw [Recalls, acceptedNumbers, List.filterMap_append, ← acceptedNumbers, ← acceptedNumbers,
        haccepted]
      exact SeenWindow.Recalls.offer_of_not_contains h hknown

/-- **Every move** keeps the window in step with what was accepted. -/
theorem Recalls.move (h : Recalls capacity l c) (hm : Move P c k c') :
    Recalls capacity (l ++ k) c' := by
  cases hm with
  | service hs => exact h.service hs
  | arrival ha => exact h.arrival ha
  | queue | sample => exact h.silent rfl rfl
  | acknowledge _ n now =>
    obtain ⟨r, hr, -⟩ := Tracker.acknowledge_snd n now c.tracker
    refine h.silent (filterMap_map_eq_nil (fun _ ↦ rfl) _) ?_
    rw [hr]
  | outdate _ now =>
    refine h.silent (filterMap_map_eq_nil (fun _ ↦ rfl) _) ?_
    rw [dropOutdated]
    split <;> rfl
  | expire _ now =>
    obtain ⟨q, hq, -⟩ := foldl_giveBack (c.tracker.expire now).1
      { c with tracker := (c.tracker.expire now).2 }
    refine h.silent (filterMap_map_eq_nil (fun _ ↦ rfl) _) ?_
    exact congrArg (fun c ↦ c.tracker.seen) hq
  | close => exact h.silent (filterMap_map_eq_nil (fun _ ↦ rfl) _) rfl

/-- **An operation** of any kind, also one that queues a datagram as it is. -/
theorem Recalls.apply (h : Recalls capacity l c) {o : Operation} {f f' : Forest} {answer : Answer}
    (ho : c.apply o f = .ok (answer, c', f')) : Recalls capacity (l ++ c.events o f) c' := by
  by_cases hP : o.QueuesOnly fun _ ↦ True
  · exact (moves_of_apply hP ho).preserves h fun hl hm ↦ hl.move hm
  · cases o with
    | enqueue p =>
      cases ho
      refine h.silent ?_ ?_
      · rw [events]
        split <;> rfl
      · rw [enqueue]
        split
        · rfl
        · split <;> rfl
    | _ => exact absurd trivial hP

/-- A whole history of a circuit keeps to it as well. -/
theorem Recalls.chronicle {ops : List (Operation × Forest)} {m : List Moment} (h : Recalls capacity l c)
    (hrun : chronicle ops c = .ok (m, c')) : Recalls capacity (l ++ history m) c' := by
  induction ops generalizing c l m with
  | nil =>
    obtain ⟨rfl, rfl⟩ := Prod.mk.inj (Except.ok.inj hrun)
    simpa using h
  | cons o ops ih =>
    obtain ⟨answer, next, forest, m', ho, hrest, rfl⟩ := chronicle_cons_eq_ok hrun
    simpa using ih (h.apply ho) hrest

/-- A new circuit has accepted nothing. -/
theorem recalls_of_opened {session : Session} {address : Address} {root : BucketId} {f f' : Forest}
    (h : opened session address config root now f = .ok (c, f')) :
    Recalls config.seenCapacity [] c := by
  obtain ⟨allowance, -, hbegun⟩ := opened_eq_ok_iff.1 h
  obtain ⟨roundTrip, tracker, -, htracker, rfl⟩ := begun_eq_ok hbegun
  obtain ⟨seen, hseen, htracker⟩ := bind_eq_ok_iff.1 htracker
  obtain rfl := Except.ok.inj htracker
  have hempty : seen = SeenWindow.empty config.seenCapacity := by
    rw [SeenWindow.create, withinCapacity] at hseen
    split at hseen
    · exact (Except.ok.inj hseen).symm
    · cases hseen
  subst hempty
  exact SeenWindow.Recalls.empty config.seenCapacity

/-! ### What a circuit recognises -/

theorem ackBytes_acknowledgeAll (sequences : List UInt32) (now : Instant) (t : Tracker) :
    (t.acknowledgeAll sequences now).2.ackBytes = t.ackBytes ∧
      (t.acknowledgeAll sequences now).2.seen = t.seen := by
  induction sequences generalizing t with
  | nil => exact ⟨rfl, rfl⟩
  | cons n sequences ih =>
    obtain ⟨r, hr, -⟩ := Tracker.acknowledge_snd n now t
    obtain ⟨hbytes, hseen⟩ := ih (t.acknowledge n now).2
    have hsame : (t.acknowledge n now).2.ackBytes = t.ackBytes ∧
        (t.acknowledge n now).2.seen = t.seen := by
      rw [hr]
      exact ⟨rfl, rfl⟩
    exact ⟨hbytes.trans hsame.1, hseen.trans hsame.2⟩

/-- What is asked about a reliable datagram is first whether its number is known, and then how many
octets are to be acknowledged. -/
theorem receiveReliable_fst {p : Packet} {length : Nat}
    (hbytes : c.tracker.ackBytes + length < UInt64.size) :
    (c.receiveReliable p length).1 =
      if c.tracker.seen.members.contains p.header.sequence = true then .ok (.duplicate p.isResent)
      else (within64 (ackThreshold * c.config.mtu)).map fun threshold ↦
        .accept (decide (threshold ≤ c.tracker.ackBytes + length)) := by
  have hqueue : c.tracker.queueAck p.header.sequence length =
      .ok { c.tracker with
        pendingAcks := c.tracker.pendingAcks ++ [p.header.sequence]
        ackBytes := c.tracker.ackBytes + length } := by
    rw [Tracker.queueAck, within64_eq_ok_iff.2 ⟨hbytes, rfl⟩]
    rfl
  rw [receiveReliable, hqueue]
  simp only [Tracker.offer, SeenWindow.offer_fst]
  split
  · rfl
  · cases within64 (ackThreshold * c.config.mtu) <;> rfl

/-- **What becomes of a reliable datagram,** where nothing that is counted leaves 64 bits. -/
theorem receive_fst {p : Packet} {length : Nat} (hopen : c.isClosed = false)
    (hp : p.isReliable = true) (hbytes : c.tracker.ackBytes + length < UInt64.size)
    (hmtu : ackThreshold * c.config.mtu < UInt64.size) :
    (c.receive p length now).1 = .ok
      (if c.tracker.seen.members.contains p.header.sequence = true then .duplicate p.isResent
      else .accept (decide (ackThreshold * c.config.mtu ≤ c.tracker.ackBytes + length))) := by
  obtain ⟨hsame, hseen⟩ := ackBytes_acknowledgeAll p.acks now c.tracker
  rw [receive, hopen, if_neg Bool.false_ne_true, if_pos hp, receiveReliable_fst]
  · simp only [acknowledge, hsame, hseen, within64_eq_ok_iff.2 ⟨hmtu, rfl⟩]
    split <;> rfl
  · exact hsame.symm ▸ hbytes

/-- **A duplicate leaves the window as it is.** Its number keeps its place in the order. -/
theorem seen_of_receive_duplicate {p : Packet} {length : Nat} {resent : Bool}
    (h : (c.receive p length now).1 = .ok (.duplicate resent)) :
    (c.receive p length now).2.tracker.seen = c.tracker.seen := by
  have hseen := (ackBytes_acknowledgeAll p.acks now c.tracker).2
  rw [receive] at h ⊢
  split at h
  · cases h
  split at h
  · rename_i hclosed hp
    obtain ⟨bytes, flushAcks, hd, hnext⟩ := receiveReliable_eq_ok h
    rw [if_neg hclosed, if_pos hp, hnext]
    rw [reliableDisposition, SeenWindow.offer_fst] at hd
    split at hd
    · rename_i hknown
      rw [takeReliable, SeenWindow.offer_of_contains hknown]
      exact hseen
    · cases hd
  · cases h

/-- The circuit recognises a reliable datagram if its number is among the last ones of the list, and
accepts it otherwise. The window keeps so many numbers at most, each of them once. -/
structure Recognises (capacity : Nat) (accepted : List UInt32) (c : Circuit) : Prop where
  /-- No number stands twice in the order of the window. -/
  nodup : c.tracker.seen.order.Nodup
  /-- The set of the window has the same elements. -/
  contains_iff : ∀ n, c.tracker.seen.members.contains n = true ↔ n ∈ c.tracker.seen.order
  /-- The window has no more of them than there is room for. -/
  length_le : c.tracker.seen.order.length ≤ capacity
  /-- An open circuit tells what has arrived before from what is new, provided that the octets to be
  acknowledged and their threshold can be counted in 64 bits. -/
  answer : ∀ p length now, c.isClosed = false → p.isReliable = true →
    c.tracker.ackBytes + length < 2 ^ 64 → ackThreshold * c.config.mtu < 2 ^ 64 →
    (c.receive p length now).1 = .ok
      (if p.header.sequence ∈ accepted.rtake capacity then .duplicate p.isResent
      else .accept (decide (ackThreshold * c.config.mtu ≤ c.tracker.ackBytes + length)))
  /-- What has arrived before leaves the window as it is. -/
  unchanged : ∀ p length now resent, (c.receive p length now).1 = .ok (.duplicate resent) →
    (c.receive p length now).2.tracker.seen = c.tracker.seen
  /-- Between two acceptances of a number, so many others were accepted, all of them different. -/
  between : ∀ l₁ n mid l₂, accepted = l₁ ++ n :: mid ++ n :: l₂ →
    ∃ t, t <:+ mid ∧ t.length = capacity ∧ t.Nodup ∧ n ∉ t

/-- **A circuit recognises what it accepted last,** as many numbers as its window has room for,
whatever it did since it was opened. -/
theorem recognises_of_chronicle {session : Session} {address : Address} {root : BucketId}
    {f f' : Forest} {c₀ : Circuit} {ops : List (Operation × Forest)} {m : List Moment}
    (hcapacity : 1 ≤ config.seenCapacity)
    (hopened : opened session address config root now f = .ok (c₀, f'))
    (hrun : chronicle ops c₀ = .ok (m, c)) :
    Recognises config.seenCapacity (acceptedNumbers (history m)) c := by
  have h := (recalls_of_opened hopened).chronicle hrun
  rw [List.nil_append] at h
  have hmax := Nat.max_eq_right hcapacity
  have hknown : ∀ n, c.tracker.seen.members.contains n = true ↔
      n ∈ (acceptedNumbers (history m)).rtake config.seenCapacity := by
    intro n
    rw [← hmax]
    exact h.contains_iff_mem
  refine ⟨h.nodup, h.contains_iff, ?_, fun p length now hopen hp hbytes hmtu ↦ ?_,
    fun p length now resent ↦ seen_of_receive_duplicate, fun l₁ n mid l₂ hl ↦ ?_⟩
  · simpa [h.capacity_eq, hmax] using h.length_le
  · rw [receive_fst hopen hp hbytes hmtu]
    simp only [hknown]
  · rw [← hmax]
    exact h.exists_between hl

/-- The arrival of reliable datagrams with the given numbers, one after the other. -/
def arrivingNumbers (numbers : List UInt32) : List (Operation × Forest) :=
  numbers.map fun n ↦
    (.receive ⟨{ flags := { reliable := true }, sequence := n }, .high 9, [], []⟩ 7 0, {})

/-- With room for three numbers, the first one comes back as a new one after three others. -/
theorem recognises_of_arrivingNumbers :
    ∃ c₀ f' m c, opened ⟨.ofNat 7, .ofNat 8, 99, none⟩ (.loopback 5) { seenCapacity := 3 } 0 0 {} =
        .ok (c₀, f') ∧
      chronicle (arrivingNumbers [1, 1, 2, 3, 4, 1, 4]) c₀ = .ok (m, c) ∧
      m.map Moment.answer = [.received (.accept false), .received (.duplicate false),
        .received (.accept false), .received (.accept false), .received (.accept false),
        .received (.accept false), .received (.duplicate false)] ∧
      acceptedNumbers (history m) = [1, 2, 3, 4, 1] ∧ Recognises 3 [1, 2, 3, 4, 1] c := by
  obtain ⟨⟨c₀, f'⟩, hopened, htest⟩ := exists_eq_ok_of_any
    (x := opened ⟨.ofNat 7, .ofNat 8, 99, none⟩ (.loopback 5) { seenCapacity := 3 } 0 0 {})
    (p := fun r ↦ (chronicle (arrivingNumbers [1, 1, 2, 3, 4, 1, 4]) r.1).toOption.any
      fun (r : List Moment × Circuit) ↦
        decide (r.1.map Moment.answer = [.received (.accept false), .received (.duplicate false),
          .received (.accept false), .received (.accept false), .received (.accept false),
          .received (.accept false), .received (.duplicate false)] ∧
          acceptedNumbers (history r.1) = [1, 2, 3, 4, 1])) (by decide +kernel)
  obtain ⟨⟨m, c⟩, hrun, htest⟩ := exists_eq_ok_of_any htest
  obtain ⟨hanswers, haccepted⟩ := of_decide_eq_true htest
  have hcapacity : 1 ≤ Config.seenCapacity { seenCapacity := 3 } := by decide
  have h := recognises_of_chronicle hcapacity hopened hrun
  rw [haccepted] at h
  exact ⟨c₀, f', m, c, hopened, hrun, hanswers, haccepted, h⟩

/-- Where twice the MTU leaves 64 bits, a reliable datagram that arrives first is neither accepted
nor found to be a duplicate, under settings that are valid. -/
theorem unanswered_of_excessiveMtu :
    Config.Valid { mtu := 2 ^ 63 } ∧
    ∃ c f', opened ⟨.ofNat 7, .ofNat 8, 99, none⟩ (.loopback 5) { mtu := 2 ^ 63 } 0 0 {} =
        .ok (c, f') ∧ c.isClosed = false ∧ c.tracker.seen.order = [] ∧
      (c.receive ⟨{ flags := { reliable := true }, sequence := 1 }, .high 5, [1], []⟩ 8 0).1 =
        .error .overflow := by
  refine ⟨Config.valid_iff _ |>.2 (by decide +kernel), ?_⟩
  obtain ⟨⟨c, f'⟩, hopened, htest⟩ := exists_eq_ok_of_any
    (x := opened ⟨.ofNat 7, .ofNat 8, 99, none⟩ (.loopback 5) { mtu := 2 ^ 63 } 0 0 {})
    (p := fun r ↦ decide (r.1.isClosed = false ∧ r.1.tracker.seen.order = [] ∧
      (r.1.receive ⟨{ flags := { reliable := true }, sequence := 1 }, .high 5, [1], []⟩ 8 0).1 =
        .error .overflow)) (by decide +kernel)
  exact ⟨c, f', hopened, of_decide_eq_true htest⟩

end Circuit

end DatagramCircuits
