import DatagramCircuits.Proofs.Outcomes
import DatagramCircuits.Proofs.Phases
/-!
# Queues are first in, first out

**What was put into a queue is sent in that order, and nothing is lost,** as long as the circuit is not
closed (`Traced.lossless`): what a lane was given is what was sent out of it for the first time, and
behind that what is in its queue and was never sent. A datagram that has to wait is held back in front of
the others, so its turn does not change.

The lane of resent datagrams holds copies of datagrams that were sent before, and those may be dropped. A
copy has the number of its first transmission, so it is told from what was never sent by that number
(`Outgoing.isNew`). A message may be sent under this lane as well, and its datagrams keep their order
among the copies.
-/

namespace DatagramCircuits

/-- The datagram was never sent: it gets its number at the first transmission. -/
def Outgoing.isNew (p : Outgoing) : Bool :=
  p.sequence == 0

/-- The datagram belongs to a lane. -/
def Outgoing.isOf (lane : Lane) (p : Outgoing) : Bool :=
  p.category == .throttled lane

namespace Circuit

variable {P : Message → Prop} {config : Config} {l k : List Event} {c c' : Circuit} {lane : Lane}

/-- What was sent for the first time, as it was taken out of a queue. -/
def newlySent (l : List Event) : List Outgoing :=
  ((transmissions l).map Prod.fst).filter Outgoing.isNew

@[simp] theorem newlySent_append (l k : List Event) :
    newlySent (l ++ k) = newlySent l ++ newlySent k := by
  simp [newlySent]

@[simp] theorem queued_append (l k : List Event) : queued (l ++ k) = queued l ++ queued k :=
  List.filterMap_append

theorem newlySent_eq_nil (h : transmissions k = []) : newlySent k = [] := by
  rw [newlySent, h]
  rfl

/-- A transmission is new if its datagram never had a number. -/
theorem newlySent_transmitted (p : Outgoing) (d : Octets) (now : Instant) :
    newlySent [.transmitted p d now] = [p].filter Outgoing.isNew :=
  rfl

/-! ### The invariant -/

/-- The queues fit the record. -/
structure Lossless (l : List Event) (c : Circuit) : Prop where
  /-- What is put into a queue was never sent. -/
  fresh : ∀ p ∈ queued l, p.isNew = true
  /-- A queue holds datagrams of its own lane. -/
  category : ∀ lane, ∀ p ∈ (c.queues.get lane).toList, p.category = .throttled lane
  /-- What was put into a queue was sent in that order, and the rest of it is still there. -/
  order : ∀ lane, (queued l).filter (Outgoing.isOf lane) =
    (newlySent l).filter (Outgoing.isOf lane) ++ (c.queues.get lane).toList.filter Outgoing.isNew

/-- What is of no use any more was sent before. -/
theorem filter_isNew_of_useless {s : List Outgoing} (h : ∀ p ∈ s, c.isUseful p = false) :
    s.filter Outgoing.isNew = [] := by
  refine List.filter_eq_nil_iff.2 fun p hp hnew ↦ ?_
  have huseless := h p hp
  rw [isUseful, Bool.or_eq_false_iff] at huseless
  exact absurd huseless.1 (by simpa [Outgoing.isNew] using hnew)

/-- Datagrams of one lane belong to no other. -/
theorem filter_isOf {s : List Outgoing} (h : ∀ p ∈ s, p.category = .throttled lane) (lane' : Lane) :
    s.filter (Outgoing.isOf lane') = if lane = lane' then s else [] := by
  split
  · rename_i heq
    subst heq
    exact List.filter_eq_self.2 fun p hp ↦ by simp [Outgoing.isOf, h p hp]
  · rename_i hne
    exact List.filter_eq_nil_iff.2 fun p hp ↦ by simpa [Outgoing.isOf, h p hp] using hne

/-- **A queue takes the place of another one,** if what is missing in front of it was sent. -/
theorem Lossless.requeue (h : Lossless l c) (lane : Lane) {q : LaneQueue}
    (hqueues : c'.queues = c.queues.set lane q) (hqueued : queued k = [])
    (hsent : ∀ p ∈ newlySent k, p.category = .throttled lane)
    (hcategory : ∀ p ∈ q.toList, p.category = .throttled lane)
    (hrest : (c.queues.get lane).toList.filter Outgoing.isNew =
      newlySent k ++ q.toList.filter Outgoing.isNew) : Lossless (l ++ k) c' := by
  refine ⟨?_, fun lane' p hp ↦ ?_, fun lane' ↦ ?_⟩
  · rw [queued_append, hqueued, List.append_nil]
    exact h.fresh
  · rw [hqueues, PerLane.get_set] at hp
    split at hp
    · rename_i heq
      exact heq ▸ hcategory p hp
    · exact h.category lane' p hp
  · rw [queued_append, hqueued, List.append_nil, newlySent_append, List.filter_append,
      filter_isOf hsent, h.order lane', hqueues, PerLane.get_set]
    split
    · rename_i heq
      rw [← heq, hrest, List.append_assoc]
    · rw [List.append_nil]

/-- What leaves the queues alone, and neither queues nor sends, changes nothing. -/
theorem Lossless.keep (h : Lossless l c) (hqueues : c'.queues = c.queues) (hqueued : queued k = [])
    (hk : transmissions k = []) : Lossless (l ++ k) c' := by
  have hnone := newlySent_eq_nil hk
  refine h.requeue .resend (q := c.queues.get .resend) ?_ hqueued ?_
    (h.category .resend) ?_
  · rw [hqueues, PerLane.set_get_self]
  · rw [hnone]
    exact fun p hp ↦ absurd hp List.not_mem_nil
  · rw [hnone, List.nil_append]

/-! ### Moves -/

/-- What is queued waits behind the others. -/
theorem Lossless.queue (h : Lossless l c) {p : Outgoing} (hnew : p.isNew = true)
    (hp : p.category = .throttled lane) : Lossless (l ++ [.queued p]) (c.push lane p) := by
  have hone : queued [.queued p] = [p] := rfl
  have hnone : newlySent [.queued p] = [] := rfl
  have hof : ∀ x ∈ [p], x.category = .throttled lane := fun x hx ↦ List.mem_singleton.1 hx ▸ hp
  refine ⟨fun x hx ↦ ?_, fun lane' x hx ↦ ?_, fun lane' ↦ ?_⟩
  · rw [queued_append, hone] at hx
    rcases List.mem_append.1 hx with hx | hx
    · exact h.fresh x hx
    · exact List.mem_singleton.1 hx ▸ hnew
  · rw [push, PerLane.get_modify] at hx
    split at hx
    · rename_i heq
      rw [LaneQueue.toList_push] at hx
      rcases List.mem_append.1 hx with hx | hx
      · exact h.category lane' x hx
      · exact heq ▸ hof x hx
    · exact h.category lane' x hx
  · rw [queued_append, hone, newlySent_append, hnone, List.append_nil, List.filter_append,
      filter_isOf hof, h.order lane', push, PerLane.get_modify, List.append_assoc]
    split
    · rw [LaneQueue.toList_push, List.filter_append, List.filter_singleton, hnew]
      rfl
    · rw [List.append_nil]

/-- Serving the queues sends what comes first. -/
theorem Lossless.service {now : Instant} (h : Lossless l c) (hs : Service now c k c') :
    Lossless (l ++ k) c' := by
  cases hs with
  | quiet hq => exact h.keep hq.sameBooks.queues hq.queued_eq_nil hq.transmissions_eq_nil
  | @discard lane q htake =>
    obtain ⟨hnil, huseless⟩ := LaneQueue.take?_eq_none htake
    refine h.requeue lane rfl rfl (fun p hp ↦ nomatch hp) (fun p hp ↦ ?_) ?_
    · rw [hnil] at hp
      exact absurd hp List.not_mem_nil
    · rw [filter_isNew_of_useless huseless, hnil]
      rfl
  | @holdBack lane p q htake =>
    obtain ⟨-, hheld, dropped, hq, huseless⟩ := LaneQueue.take?_eq_some htake
    have hlist := LaneQueue.toList_holdBack (p := p) hheld
    refine h.requeue lane rfl rfl (fun p hp ↦ nomatch hp) (fun x hx ↦ ?_) ?_
    · rw [hlist] at hx
      refine h.category lane x ?_
      rw [hq]
      exact List.mem_append_right _ hx
    · rw [hq, List.filter_append, filter_isNew_of_useless huseless, hlist]
      rfl
  | @transmit _ lane p q d htake hsent =>
    obtain ⟨-, -, dropped, hq, huseless⟩ := LaneQueue.take?_eq_some htake
    obtain ⟨hp, hrest⟩ := mem_of_take? htake
    refine h.requeue lane (queues_transmit hsent) rfl (fun x hx ↦ ?_)
      (fun x hx ↦ h.category lane x (hrest x hx)) ?_
    · obtain rfl := List.mem_singleton.1 (List.mem_filter.1 hx).1
      exact h.category lane x hp
    · rw [hq, List.filter_append, filter_isNew_of_useless huseless, newlySent_transmitted,
        List.nil_append, ← List.singleton_append, List.filter_append]

/-- Copies that are to be sent again are not new. -/
theorem Lossless.expire (h : Lossless l c) (hbooks : Books P config l c) (now : Instant) :
    Lossless (l ++ (c.collectExpired now).1.map .unacknowledged) (c.collectExpired now).2 := by
  obtain ⟨-, q, hsnd, hq⟩ := collectExpired_eq now hbooks.ordered rfl
  generalize hcopies : (c.tracker.unacked.filter fun e ↦ _).map (fun e ↦ resendCopy e.packet) =
    copies at hq
  -- copies belong to the lane of resent datagrams, and have a number
  have hcopy : ∀ p ∈ copies, p.category = .throttled .resend ∧ ¬ p.isNew = true := by
    rw [← hcopies]
    intro p hp
    obtain ⟨e, he, rfl⟩ := List.mem_map.1 hp
    have hnumbered := (hbooks.entries e (List.mem_filter.1 he).1).kept.numbered
    exact ⟨rfl, by simpa [Outgoing.isNew, resendCopy] using hnumbered⟩
  have hnone : newlySent ((c.collectExpired now).1.map .unacknowledged) = [] :=
    newlySent_eq_nil (filterMap_map_eq_nil (fun _ ↦ rfl) _)
  refine h.requeue .resend (q := q) ?_ (filterMap_map_eq_nil (fun _ ↦ rfl) _) ?_
    (fun p hp ↦ ?_) ?_
  · rw [hsnd]
  · rw [hnone]
    exact fun p hp ↦ absurd hp List.not_mem_nil
  · rw [hq] at hp
    rcases List.mem_append.1 hp with hp | hp
    · exact h.category .resend p hp
    · exact (hcopy p hp).1
  · have hnil : copies.filter Outgoing.isNew = [] :=
      List.filter_eq_nil_iff.2 fun p hp ↦ (hcopy p hp).2
    rw [hnone, hq, List.filter_append, hnil, List.append_nil, List.nil_append]

/-- **Every move keeps the order,** but for closing. -/
theorem Lossless.move (h : Lossless l c) (hbooks : Books P config l c) (hm : Move P c k c')
    (hopen : c'.isClosed = false) : Lossless (l ++ k) c' := by
  cases hm with
  | service hs => exact h.service hs
  | arrival ha =>
    obtain ⟨q, disposition, rfl⟩ := ha.exists_arrived
    exact h.keep ha.sameBooks.queues rfl rfl
  | queue => exact h.queue rfl rfl
  | acknowledge =>
    exact h.keep rfl (filterMap_map_eq_nil (fun _ ↦ rfl) _) (filterMap_map_eq_nil (fun _ ↦ rfl) _)
  | sample => exact h.keep rfl rfl rfl
  | outdate _ now =>
    refine h.keep ?_ (filterMap_map_eq_nil (fun _ ↦ rfl) _) (filterMap_map_eq_nil (fun _ ↦ rfl) _)
    rw [dropOutdated]
    split <;> rfl
  | expire _ now => exact h.expire hbooks now
  | close => exact absurd hopen Bool.noConfusion

theorem Fresh.lossless (h : Fresh config c) : Lossless [] c := by
  have hnil : ∀ lane, (c.queues.get lane).toList = [] := fun lane ↦ by
    rw [h.queues, PerLane.get_replicate]
    rfl
  refine ⟨fun p hp ↦ absurd hp List.not_mem_nil, fun lane p hp ↦ ?_, fun lane ↦ ?_⟩
  · rw [hnil] at hp
    exact absurd hp List.not_mem_nil
  · rw [hnil]
    rfl

/-- **The queues of an open circuit are in order,** whatever it did. -/
theorem Traced.lossless (h : Traced P config l c) (hopen : c.isClosed = false) : Lossless l c := by
  refine h.invariant (motive := fun l c ↦ c.isClosed = false → Lossless l c)
    (fun hfresh _ ↦ hfresh.lossless) (fun {l k c c'} hbooks hl hm hopen' ↦ ?_) hopen
  have hwasOpen : c.isClosed = false := by
    cases hclosed : c.isClosed with
    | false => rfl
    | true => rw [hm.isClosed hclosed] at hopen'; cases hopen'
  exact (hl hwasOpen).move hbooks hm hopen'

/-! ### First transmissions -/

/-- **A datagram is sent without the flag for another transmission if it is new.** Then it is what was
queued under the next number, apart from the acknowledgements behind it. -/
theorem Traced.first_iff (h : Traced P config l c) {p : Outgoing} {d : Octets}
    (hmem : (p, d) ∈ transmissions l) :
    ((Datagram.flags d).resent = false ↔ p.isNew = true) ∧
      (p.isNew = true → Datagram.setSequence (Datagram.sequence d) p.buffer = .ok (Datagram.bare d)) := by
  obtain ⟨now, hev⟩ := mem_transmissions.1 hmem
  obtain ⟨before, after, hl⟩ := List.append_of_mem hev
  obtain ⟨u, v, lane, q, hbooks, -, htake, hsent⟩ := h.at_transmission hl
  obtain ⟨m, reliable, piece, k, bytes, -, -, hbuffer, hk, ⟨h0, hd, -⟩ | ⟨h0, e, retries, -, -, hd, -⟩⟩ :=
    transmit_cases (c := { u with queues := u.queues.set lane q })
      (hbooks.queues lane p (mem_of_take? htake).1).carries (LaneQueue.take?_eq_some htake).1 hsent
  · have hnew : p.isNew = true := beq_iff_eq.2 h0
    refine ⟨iff_of_true ?_ hnew, fun _ ↦ ?_⟩
    · rw [hd, Datagram.flags_wire rfl]
    · rw [hd, Datagram.sequence_wire, Datagram.bare_wire rfl _ _
        (Nat.le_trans (List.length_take_le ..) hk), hbuffer]
      exact Datagram.setSequence_plain ..
  · have hold : ¬ p.isNew = true := fun hnew ↦ h0 (beq_iff_eq.1 hnew)
    refine ⟨iff_of_false ?_ hold, fun hnew ↦ absurd hnew hold⟩
    rw [hd, Datagram.flags_wire rfl]
    exact Bool.noConfusion

end Circuit

end DatagramCircuits
