import DatagramCircuits.Proofs.Ended
import DatagramCircuits.Proofs.Queues
/-!
# Rounds

A tick ends with a **round** of the lanes, from the first to the last in the order of priority. In a round
the allowance is asked for the next datagram of each lane once (`Allowance.bids`): what it affords is
sent, and what it does not is held back. So a lane sends one datagram at most, and none has to wait for
another one to be empty. `Turn.Round` says what a round does, from what there was before it.

**What is next in a lane does not depend on the lanes before it.** Only the lane of resent datagrams holds
some that may be of no use any more, and it comes first (`Turn.Round.cons`).

When too many datagrams wait for an acknowledgement, the round ends with the first lane
(`Circuit.round_of_tick`).
-/

namespace DatagramCircuits

/-- The next datagram of a lane, and whether the allowance affords it. -/
structure Bid where
  /-- The lane. -/
  lane : Lane
  /-- The datagram. -/
  packet : Outgoing
  /-- Whether the allowance affords it. -/
  afforded : Bool
deriving DecidableEq, Repr

namespace Allowance

variable {a : Allowance} {now : Instant} {f : Forest}

/-- Asks the allowance for the next datagram of a lane, if there is one. -/
def bid (a : Allowance) (next : Option Outgoing) (lane : Lane) (now : Instant) (f : Forest) :
    Option Bid × Forest :=
  match next with
  | none => (none, f)
  | some p =>
    let (afforded, f) := a.withdraw (.throttled lane) p.length now f
    (some ⟨lane, p, afforded⟩, f)

/-- Asks the allowance for the next datagrams of some lanes, one lane after another. -/
def bids (a : Allowance) (next : Lane → Option Outgoing) (now : Instant) :
    List Lane → Forest → List Bid × Forest
  | [], f => ([], f)
  | lane :: lanes, f =>
    let (b, f) := a.bid (next lane) lane now f
    let (rest, f) := a.bids next now lanes f
    (b.toList ++ rest, f)

theorem bids_cons (a : Allowance) (next : Lane → Option Outgoing) (now : Instant) (lane : Lane)
    (lanes : List Lane) (f : Forest) :
    a.bids next now (lane :: lanes) f =
      ((a.bids next now [lane] f).1 ++ (a.bids next now lanes (a.bids next now [lane] f).2).1,
        (a.bids next now lanes (a.bids next now [lane] f).2).2) := by
  simp only [bids, List.append_nil]

/-- Only the next datagrams of the lanes asked about matter. -/
theorem bids_congr {next next' : Lane → Option Outgoing} {lanes : List Lane}
    (h : ∀ lane ∈ lanes, next lane = next' lane) (f : Forest) :
    a.bids next now lanes f = a.bids next' now lanes f := by
  induction lanes generalizing f with
  | nil => rfl
  | cons lane lanes ih =>
    have hrest := ih fun lane hlane ↦ h lane (List.mem_cons_of_mem _ hlane)
    simp only [bids, h lane List.mem_cons_self, hrest]

/-- **No lane is asked about twice,** and the order is kept. -/
theorem lanes_bids (a : Allowance) (next : Lane → Option Outgoing) (now : Instant) (lanes : List Lane)
    (f : Forest) : ((a.bids next now lanes f).1.map Bid.lane).Sublist lanes := by
  induction lanes generalizing f with
  | nil => exact List.Sublist.slnil
  | cons lane lanes ih =>
    simp only [bids, bid]
    cases next lane with
    | none => exact (ih f).cons lane
    | some p => exact (ih _).cons_cons lane

end Allowance

namespace LaneQueue

/-- What becomes of the queue of a lane that is served. If nothing in it is of use, it is empty
afterwards. Otherwise the first datagram that is of use is offered, and what was in front of it is
dropped; it is held back if it is not afforded, and what waits behind it goes on waiting. -/
inductive Served (useful : Outgoing → Bool) (bids : List Bid) (lane : Lane) :
    LaneQueue → LaneQueue → Prop
  /-- There is nothing to be sent. -/
  | idle {q : LaneQueue} (h : ∀ x ∈ q.toList, useful x = false) : Served useful bids lane q {}
  /-- The next datagram is offered. -/
  | offered {q : LaneQueue} {dropped rest : List Outgoing} {p : Outgoing} {afforded : Bool}
      (hq : q.toList = dropped ++ p :: rest) (hdropped : ∀ x ∈ dropped, useful x = false)
      (hp : useful p = true) (hbid : ⟨lane, p, afforded⟩ ∈ bids) :
    Served useful bids lane q { held := if afforded then none else some p, waiting := rest }

theorem Served.mono {useful useful' : Outgoing → Bool} {bids bids' : List Bid} {lane : Lane}
    {q q' : LaneQueue} (h : Served useful bids lane q q')
    (huseful : ∀ x ∈ q.toList, useful' x = useful x) (hbids : bids ⊆ bids') :
    Served useful' bids' lane q q' := by
  cases h with
  | idle h => exact .idle fun x hx ↦ (huseful x hx).trans (h x hx)
  | offered hq hdropped hp hbid =>
    rw [hq] at huseful
    exact .offered hq (fun x hx ↦ (huseful x (by simp [hx])).trans (hdropped x hx))
      ((huseful _ (by simp)).trans hp) (hbids hbid)

theorem eq_empty {q : LaneQueue} (h : q.toList = []) : q = {} := by
  obtain ⟨held, waiting⟩ := q
  obtain ⟨hheld, rfl⟩ := List.append_eq_nil_iff.1 h
  cases held with
  | none => rfl
  | some p => exact absurd hheld (by simp)

end LaneQueue

namespace Circuit

/-- The next datagram of a lane: the first one in its queue that is of use. -/
def next? (c : Circuit) (lane : Lane) : Option Outgoing :=
  (c.queues.get lane).toList.find? c.isUseful

theorem isUseful_of_isNew {p : Outgoing} (h : p.isNew = true) (c : Circuit) : c.isUseful p = true := by
  rw [isUseful, show (p.sequence == 0) = true from h, Bool.true_or]

/-- Where nothing was sent before, the first datagram is the next. -/
theorem next?_of_isNew {c : Circuit} {lane : Lane}
    (h : ∀ p ∈ (c.queues.get lane).toList, p.isNew = true) :
    c.next? lane = (c.queues.get lane).toList.head? := by
  rw [next?]
  cases hq : (c.queues.get lane).toList with
  | nil => rfl
  | cons p rest =>
    rw [hq] at h
    exact List.find?_cons_of_pos (isUseful_of_isNew (h p List.mem_cons_self) c)

end Circuit

namespace Turn

open Circuit

variable {now : Instant} {t t' t'' : Turn} {lane : Lane} {lanes : List Lane}

/-- What the lanes ask the allowance for, in a round that begins now. -/
def bids (now : Instant) (lanes : List Lane) (t : Turn) : List Bid :=
  (t.circuit.allowance.bids t.circuit.next? now lanes t.forest).1

/-- **A round of some lanes.** -/
structure Round (now : Instant) (lanes : List Lane) (t t' : Turn) : Prop where
  /-- Each lane is asked about once at most, in the order of the lanes. -/
  ordered : ((t.bids now lanes).map Bid.lane).Sublist lanes
  /-- What is afforded is taken from the buckets. -/
  forest : t'.forest = (t.circuit.allowance.bids t.circuit.next? now lanes t.forest).2
  /-- What is afforded is sent, and nothing else is. -/
  sent : ∃ sent : List (Outgoing × Octets),
    sent.map Prod.fst = ((t.bids now lanes).filter Bid.afforded).map Bid.packet ∧
      t'.output.datagrams = t.output.datagrams ++ sent.map Prod.snd ∧
      t'.log = t.log ++ sent.map fun s ↦ .transmitted s.1 s.2 now
  /-- The lanes of the round are served. -/
  served : ∀ lane ∈ lanes, LaneQueue.Served t.circuit.isUseful (t.bids now lanes) lane
    (t.circuit.queues.get lane) (t'.circuit.queues.get lane)
  /-- The other lanes are left alone. -/
  unserved : ∀ lane ∉ lanes, t'.circuit.queues.get lane = t.circuit.queues.get lane
  /-- What the lane of resent datagrams sends is counted. -/
  resent : t'.output.resent = t.output.resent +
    ((t.bids now lanes).filter Bid.afforded).countP (·.lane == .resend)

/-- A round over no lanes does nothing. -/
theorem Round.nil (t : Turn) : Round now [] t t where
  ordered := List.Sublist.slnil
  forest := rfl
  sent := ⟨[], rfl, by simp, by simp⟩
  served lane hlane := absurd hlane List.not_mem_nil
  unserved _ _ := rfl
  resent := rfl

/-- Nothing but the queues, the buckets and what was put out so far matters. -/
theorem Round.congr (h : Round now lanes t t') (hqueues : t''.circuit.queues = t'.circuit.queues)
    (hforest : t''.forest = t'.forest) (hdatagrams : t''.output.datagrams = t'.output.datagrams)
    (hlog : t''.log = t'.log) (hresent : t''.output.resent = t'.output.resent) :
    Round now lanes t t'' where
  ordered := h.ordered
  forest := hforest.trans h.forest
  sent := by
    rw [hdatagrams, hlog]
    exact h.sent
  served := by
    rw [hqueues]
    exact h.served
  unserved := by
    rw [hqueues]
    exact h.unserved
  resent := hresent.trans h.resent

/-- **A round of one lane more.** What is next in the other lanes is not changed by the first one, as
nothing in them was sent before. -/
theorem Round.cons (h : Round now [lane] t t') (h' : Round now lanes t' t'') (hlane : lane ∉ lanes)
    (hallowance : t'.circuit.allowance = t.circuit.allowance)
    (hnew : ∀ k ∈ lanes, ∀ p ∈ (t.circuit.queues.get k).toList, p.isNew = true) :
    Round now (lane :: lanes) t t'' := by
  have hqueues : ∀ k ∈ lanes, t'.circuit.queues.get k = t.circuit.queues.get k := fun k hk ↦
    h.unserved k fun hmem ↦ hlane (List.mem_singleton.1 hmem ▸ hk)
  -- what was sent meanwhile can not make a datagram useless that never had a number
  have hnext : ∀ k ∈ lanes, t'.circuit.next? k = t.circuit.next? k := by
    intro k hk
    rw [next?_of_isNew (hnew k hk), next?_of_isNew (by rw [hqueues k hk]; exact hnew k hk), hqueues k hk]
  have hrest : t'.circuit.allowance.bids t'.circuit.next? now lanes t'.forest =
      t.circuit.allowance.bids t.circuit.next? now lanes
        (t.circuit.allowance.bids t.circuit.next? now [lane] t.forest).2 := by
    rw [hallowance, Allowance.bids_congr hnext, h.forest]
  have hboth := Allowance.bids_cons t.circuit.allowance t.circuit.next? now lane lanes t.forest
  rw [← hrest] at hboth
  have hbids : t.bids now (lane :: lanes) = t.bids now [lane] ++ t'.bids now lanes :=
    congrArg Prod.fst hboth
  refine ⟨Allowance.lanes_bids .., ?_, ?_, fun k hk ↦ ?_, fun k hk ↦ ?_, ?_⟩
  · exact h'.forest.trans (congrArg Prod.snd hboth).symm
  · obtain ⟨first, hfirst, hdatagrams, hlog⟩ := h.sent
    obtain ⟨second, hsecond, hdatagrams', hlog'⟩ := h'.sent
    refine ⟨first ++ second, ?_, ?_, ?_⟩
    · rw [hbids, List.filter_append, List.map_append, List.map_append, hfirst, hsecond]
    · rw [hdatagrams', hdatagrams, List.map_append, List.append_assoc]
    · rw [hlog', hlog, List.map_append, List.append_assoc]
  · rw [hbids]
    rcases List.mem_cons.1 hk with rfl | hk
    · rw [h'.unserved k hlane]
      exact (h.served k List.mem_cons_self).mono (fun _ _ ↦ rfl) (List.subset_append_left ..)
    · have hserved := h'.served k hk
      rw [hqueues k hk] at hserved
      refine hserved.mono (fun x hx ↦ ?_) (List.subset_append_right ..)
      rw [isUseful_of_isNew (hnew k hk x hx), isUseful_of_isNew (hnew k hk x hx)]
  · rw [List.mem_cons, not_or] at hk
    rw [h'.unserved k hk.2, h.unserved k fun hmem ↦ hk.1 (List.mem_singleton.1 hmem)]
  · rw [h'.resent, h.resent, hbids, List.filter_append, List.countP_append, Nat.add_assoc]

/-! ### Serving a lane -/

/-- The bid of a lane with a datagram of use. -/
theorem bids_of_withdraw {p : Outgoing} {q : LaneQueue} {granted : Bool} {forest : Forest}
    (htake : (t.circuit.queues.get lane).take? t.circuit.isUseful = (some p, q))
    (hwithdraw : t.circuit.allowance.withdraw (.throttled lane) p.length now t.forest =
      (granted, forest)) :
    t.circuit.allowance.bids t.circuit.next? now [lane] t.forest =
      ([⟨lane, p, granted⟩], forest) := by
  have hfst := LaneQueue.take?_fst t.circuit.isUseful (t.circuit.queues.get lane)
  rw [htake] at hfst
  rw [Allowance.bids, next?, ← hfst]
  simp only [Allowance.bid, hwithdraw]
  rfl

/-- **A lane is served.** What it sends is what it asked for. -/
theorem bids_of_serveLane {d : Option Octets} (h : t.serveLane lane now = .ok (d, t')) :
    t'.forest = (t.circuit.allowance.bids t.circuit.next? now [lane] t.forest).2 ∧
    ∃ sent : List (Outgoing × Octets),
      sent.map Prod.fst = ((t.bids now [lane]).filter Bid.afforded).map Bid.packet ∧
        d.toList = sent.map Prod.snd ∧ t'.log = t.log ++ sent.map (fun s ↦ .transmitted s.1 s.2 now) ∧
      ∃ q, t'.circuit.queues = t.circuit.queues.set lane q ∧
        LaneQueue.Served t.circuit.isUseful (t.bids now [lane]) lane (t.circuit.queues.get lane) q := by
  have hfst := LaneQueue.take?_fst t.circuit.isUseful (t.circuit.queues.get lane)
  obtain ⟨q, htake, rfl, rfl⟩ | ⟨p, q, forest, htake, hwithdraw, rfl, rfl⟩ |
    ⟨p, q, forest, datagram, c', htake, hwithdraw, hsent, rfl, rfl⟩ := serveLane_eq_ok h
  -- there is nothing to be sent
  · rw [htake] at hfst
    have hbid : t.circuit.allowance.bids t.circuit.next? now [lane] t.forest = ([], t.forest) := by
      rw [Allowance.bids, next?, ← hfst]
      rfl
    obtain ⟨hnil, huseless⟩ := LaneQueue.take?_eq_none htake
    refine ⟨by rw [hbid], [], by rw [bids, hbid]; rfl, rfl, (List.append_nil _).symm, q, rfl, ?_⟩
    rw [LaneQueue.eq_empty hnil]
    exact .idle huseless
  -- what comes first can not be afforded in the one case, and is sent in the other
  · obtain ⟨huseful, hheld, dropped, hq, hdropped⟩ := LaneQueue.take?_eq_some htake
    have hbid := bids_of_withdraw htake hwithdraw
    refine ⟨by rw [hbid], [], by rw [bids, hbid]; rfl, rfl, (List.append_nil _).symm, _, rfl, ?_⟩
    have hback : q.holdBack p = { held := if false then none else some p, waiting := q.toList } := by
      rw [LaneQueue.toList, hheld]
      rfl
    rw [hback, bids, hbid]
    exact .offered hq hdropped huseful List.mem_cons_self
  · obtain ⟨huseful, hheld, dropped, hq, hdropped⟩ := LaneQueue.take?_eq_some htake
    have hbid := bids_of_withdraw htake hwithdraw
    refine ⟨by rw [hbid]; rfl, [(p, datagram)], by rw [bids, hbid]; rfl, rfl, rfl, q,
      queues_transmit hsent, ?_⟩
    have hrest : q = { held := if true then none else some p, waiting := q.toList } := by
      rw [LaneQueue.toList, hheld]
      obtain ⟨held, waiting⟩ := q
      cases hheld
      rfl
    rw [hrest, bids, hbid]
    exact .offered hq hdropped huseful List.mem_cons_self

/-- What is put out after a lane was served makes a round of that lane. -/
theorem round_of_serveLane {d : Option Octets} (h : t.serveLane lane now = .ok (d, t'))
    (hqueues : t''.circuit.queues = t'.circuit.queues) (hforest : t''.forest = t'.forest)
    (hdatagrams : t''.output.datagrams = t'.output.datagrams ++ d.toList) (hlog : t''.log = t'.log)
    (hresent : t''.output.resent =
      t'.output.resent + if lane = .resend then d.toList.length else 0) :
    Round now [lane] t t'' := by
  obtain ⟨houtput, -⟩ := service_of_serveLane h
  obtain ⟨hbids, sent, hsent, hd, hlog', q, hq, hserved⟩ := bids_of_serveLane h
  have hlanes : ∀ b ∈ (t.bids now [lane]).filter Bid.afforded, b.lane = lane := fun b hb ↦
    List.mem_singleton.1 ((Allowance.lanes_bids ..).subset
      (List.mem_map_of_mem (List.mem_filter.1 hb).1))
  refine ⟨Allowance.lanes_bids .., hforest.trans hbids, ⟨sent, hsent, ?_, hlog.trans hlog'⟩,
    fun k hk ↦ ?_, fun k hk ↦ ?_, ?_⟩
  · rw [hdatagrams, houtput, hd]
  · obtain rfl := List.mem_singleton.1 hk
    rw [hqueues, hq, PerLane.get_set_self]
    exact hserved
  · rw [hqueues, hq, PerLane.get_set, if_neg fun heq ↦ hk (List.mem_singleton.2 heq.symm)]
  · have hlength := congrArg List.length hsent
    rw [List.length_map, List.length_map] at hlength
    rw [hresent, houtput, hd, List.length_map, hlength]
    split
    · rename_i heq
      rw [List.countP_eq_length.2 fun b hb ↦ beq_iff_eq.2 ((hlanes b hb).trans heq)]
    · rename_i hne
      rw [List.countP_eq_zero.2 fun b hb heq ↦ hne ((hlanes b hb).symm.trans (beq_iff_eq.1 heq))]

/-- Serving the lane of resends is a round over this lane. -/
theorem round_of_serveResends (h : t.serveResends now = .ok t') : Round now [.resend] t t' := by
  obtain ⟨⟨d, t₁⟩, hlane, h⟩ := bind_eq_ok_iff.1 h
  cases d with
  | none =>
    obtain rfl := Except.ok.inj h
    exact round_of_serveLane hlane rfl rfl (List.append_nil _).symm rfl rfl
  | some d =>
    obtain rfl := Except.ok.inj h
    exact round_of_serveLane hlane rfl rfl rfl rfl rfl

/-- Serving another lane is a round over it. -/
theorem round_of_serveOrdinary (h : t.serveOrdinary now lane = .ok t') (hlane : lane ≠ .resend) :
    Round now [lane] t t' := by
  obtain ⟨⟨d, t₁⟩, hserve, h⟩ := bind_eq_ok_iff.1 h
  dsimp only at h
  split at h <;> cases h <;> exact round_of_serveLane hserve rfl rfl rfl rfl (by rw [if_neg hlane]; rfl)

/-- **The ordinary lanes make a round** of all of them. -/
theorem round_of_foldlM (h : lanes.foldlM (serveOrdinary now) t = .ok t') (hnodup : lanes.Nodup)
    (hordinary : ∀ k ∈ lanes, k ≠ .resend)
    (hnew : ∀ k ∈ lanes, ∀ p ∈ (t.circuit.queues.get k).toList, p.isNew = true) :
    Round now lanes t t' := by
  induction lanes generalizing t with
  | nil =>
    obtain rfl := Except.ok.inj h
    exact .nil _
  | cons lane lanes ih =>
    rw [List.foldlM_cons] at h
    obtain ⟨t₁, hserve, h⟩ := bind_eq_ok_iff.1 h
    obtain ⟨hlane, hnodup⟩ := List.nodup_cons.1 hnodup
    have hfirst := round_of_serveOrdinary hserve (hordinary lane List.mem_cons_self)
    have hnew' : ∀ k ∈ lanes, ∀ p ∈ (t.circuit.queues.get k).toList, p.isNew = true :=
      fun k hk ↦ hnew k (List.mem_cons_of_mem _ hk)
    have hrest := ih h hnodup (fun k hk ↦ hordinary k (List.mem_cons_of_mem _ hk)) fun k hk ↦ by
      rw [hfirst.unserved k fun hmem ↦ hlane (List.mem_singleton.1 hmem ▸ hk)]
      exact hnew' k hk
    exact hfirst.cons hrest hlane (allowance_of_standing (keeps_of_serveOrdinary hserve).standing)
      hnew'

/-! ### What comes before the round -/

/-- The regular work of a tick before the round: the look for datagrams to be sent again, the sending of
acknowledgements, and the sending of a ping, each when it is due. -/
def upkeep (now : Instant) (t : Turn) : Turn :=
  ((t.checkResends now).checkAcks now).checkPing now

/-- What a tick says about its round: whether it ended early, and how much was sent again. -/
def verdict (t : Turn) : Bool × Nat :=
  (t.output.stalled, t.output.resent)

theorem verdict_upkeep (now : Instant) (t : Turn) : (t.upkeep now).verdict = t.verdict := by
  have hresends : (t.checkResends now).verdict = t.verdict := by
    rw [checkResends]
    dsimp only
    split <;> rfl
  have hacks : ((t.checkResends now).checkAcks now).verdict = (t.checkResends now).verdict := by
    unfold checkAcks
    dsimp only
    split <;> rfl
  have hping : (t.upkeep now).verdict = ((t.checkResends now).checkAcks now).verdict := by
    rw [upkeep, checkPing]
    dsimp only
    split <;> rfl
  rw [hping, hacks, hresends]

/-- Serving a lane does not decide whether the round ends early. -/
theorem stalled_of_serveResends (h : t.serveResends now = .ok t') :
    t'.output.stalled = t.output.stalled := by
  obtain ⟨⟨d, t₁⟩, hlane, h⟩ := bind_eq_ok_iff.1 h
  have houtput := congrArg TickOutput.stalled (service_of_serveLane hlane).1
  cases d <;> obtain rfl := Except.ok.inj h <;> exact houtput

theorem stalled_of_serveOrdinary (h : t.serveOrdinary now lane = .ok t') :
    t'.output.stalled = t.output.stalled := by
  obtain ⟨⟨d, t₁⟩, hlane, h⟩ := bind_eq_ok_iff.1 h
  have houtput := congrArg TickOutput.stalled (service_of_serveLane hlane).1
  dsimp only at h
  split at h <;> cases h <;> exact houtput

theorem stalled_of_foldlM (h : lanes.foldlM (serveOrdinary now) t = .ok t') :
    t'.output.stalled = t.output.stalled := by
  induction lanes generalizing t with
  | nil =>
    obtain rfl := Except.ok.inj h
    rfl
  | cons lane lanes ih =>
    rw [List.foldlM_cons] at h
    obtain ⟨t₁, hlane, h⟩ := bind_eq_ok_iff.1 h
    exact (ih h).trans (stalled_of_serveOrdinary hlane)

end Turn

namespace Circuit

variable {P : Message → Prop} {config : Config} {l : List Event} {c : Circuit} {now : Instant}
  {f : Forest} {t : Turn}

/-- A circuit at the beginning of the round of a tick. -/
def prepared (now : Instant) (c : Circuit) (f : Forest) : Turn :=
  Turn.upkeep now { circuit := c, forest := f }

/-- What is due before the round keeps the background and the terms. -/
theorem keeps_prepared (now : Instant) (c : Circuit) (f : Forest) :
    Turn.Keeps { circuit := c, forest := f } (c.prepared now f) :=
  keeps_checks now c f

/-- What is due before the round is a chain of moves. -/
theorem chain_prepared (now : Instant) (c : Circuit) (f : Forest) :
    Chain (Move P) c (c.prepared now f).log (c.prepared now f).circuit := by
  have hserves : Turn.Serves now (Turn.checkResends now { circuit := c, forest := f })
      (c.prepared now f) := (Turn.serves_checkAcks _).trans (Turn.serves_checkPing _)
  obtain ⟨⟨k, hchain, hlog, -⟩, -, -⟩ := hserves
  rw [hlog]
  exact (chain_checkResends now c f).trans (hchain.mono .service)

/-- What is due anyway keeps the books. -/
theorem Books.prepared (h : Books P config l c) (now : Instant) (f : Forest) :
    Books P config (l ++ (c.prepared now f).log) (c.prepared now f).circuit :=
  (chain_prepared now c f).preserves h Books.move

theorem Traced.prepared (h : Traced P config l c) (now : Instant) (f : Forest) :
    Traced P config (l ++ (c.prepared now f).log) (c.prepared now f).circuit := by
  obtain ⟨c₀, hfresh, hchain⟩ := h
  exact ⟨c₀, hfresh, hchain.trans (chain_prepared now c f)⟩

theorem Traced.resends (h : Traced P config l c) {t₁ : Turn}
    (hresends : (c.prepared now f).serveResends now = .ok t₁) :
    Traced P config (l ++ t₁.log) t₁.circuit := by
  obtain ⟨⟨k, hchain, hlog, -⟩, -, -⟩ := Turn.serves_of_serveResends hresends
  obtain ⟨c₀, hfresh, hprepared⟩ := h.prepared now f
  rw [hlog, ← List.append_assoc]
  exact ⟨c₀, hfresh, hprepared.trans (hchain.mono .service)⟩

/-- The record goes on with the log of a tick. -/
theorem Traced.tick (h : Traced P config l c) (ht : c.tick now f = .ok t) :
    Traced P config (l ++ t.log) t.circuit := by
  obtain ⟨c₀, hfresh, hchain⟩ := h
  exact ⟨c₀, hfresh, hchain.trans (chain_of_tick ht)⟩

/-- In ordinary lanes nothing waits that was sent before. -/
theorem Books.isNew_of_ordinary (h : Books P config l c) {lane : Lane} (hlane : lane ≠ .resend) :
    ∀ p ∈ (c.queues.get lane).toList, p.isNew = true := by
  intro p hp
  by_contra hold
  exact hlane ((h.queues lane p hp).again fun h0 ↦ hold (beq_iff_eq.2 h0)).1

/-- **A tick** serves the lane of resent datagrams. Then it says that it stalls, if too many datagrams wait
for an acknowledgement, or serves the ordinary lanes. -/
theorem tick_cases (h : c.tick now f = .ok t) (hopen : c.isClosed = false) :
    ∃ t₁, (c.prepared now f).serveResends now = .ok t₁ ∧
      (t₁.isStalled = true ∧ t = Turn.count { t₁ with output := { t₁.output with stalled := true } } ∨
        t₁.isStalled = false ∧ ∃ t₂, Lane.ordinary.foldlM (Turn.serveOrdinary now) t₁ = .ok t₂ ∧
          t = t₂.count) := by
  obtain ⟨hclosed, -⟩ | ⟨-, t', hlanes, rfl⟩ := tick_eq_ok h
  · simp [hopen] at hclosed
  obtain ⟨t₁, hresends, hlanes⟩ := bind_eq_ok_iff.1 hlanes
  refine ⟨t₁, hresends, ?_⟩
  split at hlanes
  · rename_i hstalled
    obtain rfl := Except.ok.inj hlanes
    exact .inl ⟨hstalled, rfl⟩
  · rename_i hstalled
    exact .inr ⟨Bool.eq_false_of_not_eq_true hstalled, t', hlanes, rfl⟩

/-- **A tick stalls** if too many datagrams wait for an acknowledgement once the lane of resent datagrams
is served. -/
theorem stalled_iff_of_tick (h : c.tick now f = .ok t) (hopen : c.isClosed = false) :
    ∃ t₁, (c.prepared now f).serveResends now = .ok t₁ ∧ t.output.stalled = t₁.isStalled := by
  obtain ⟨t₁, hresends, ⟨hstalled, rfl⟩ | ⟨hstalled, t₂, hordinary, rfl⟩⟩ := tick_cases h hopen
  · exact ⟨t₁, hresends, hstalled.symm⟩
  · have hverdict := congrArg Prod.fst (Turn.verdict_upkeep now { circuit := c, forest := f })
    refine ⟨t₁, hresends, ?_⟩
    rw [hstalled]
    exact (Turn.stalled_of_foldlM hordinary).trans ((Turn.stalled_of_serveResends hresends).trans hverdict)

/-- **A tick ends with a round,** of all lanes unless it stalls. -/
theorem round_of_tick (hbooks : Books P config l c) (h : c.tick now f = .ok t)
    (hopen : c.isClosed = false) :
    Turn.Round now (if t.output.stalled then [.resend] else Lane.all) (c.prepared now f) t := by
  obtain ⟨t₁', hresends', heq⟩ := stalled_iff_of_tick h hopen
  obtain ⟨t₁, hresends, hcases⟩ := tick_cases h hopen
  obtain rfl := Except.ok.inj (hresends.symm.trans hresends')
  have hfirst := Turn.round_of_serveResends hresends
  rcases hcases with ⟨hstalled, rfl⟩ | ⟨hstalled, t₂, hordinary, rfl⟩
  · rw [heq, hstalled, if_pos rfl]
    exact hfirst.congr rfl rfl rfl rfl rfl
  · rw [heq, hstalled, if_neg Bool.false_ne_true, Lane.all_eq_cons]
    have hlanes : ∀ lane ∈ Lane.ordinary, lane ≠ .resend := by decide
    have hnew : ∀ lane ∈ Lane.ordinary,
        ∀ p ∈ ((c.prepared now f).circuit.queues.get lane).toList, p.isNew = true :=
      fun lane hlane ↦ (hbooks.prepared now f).isNew_of_ordinary (hlanes lane hlane)
    have hrest := Turn.round_of_foldlM hordinary (by decide) hlanes fun lane hlane ↦ by
      rw [hfirst.unserved lane fun hmem ↦ hlanes lane hlane (List.mem_singleton.1 hmem)]
      exact hnew lane hlane
    exact (hfirst.cons hrest (by decide)
      (allowance_of_standing (Turn.keeps_of_serveResends hresends).standing) hnew).congr
      rfl rfl rfl rfl rfl

end Circuit

end DatagramCircuits
