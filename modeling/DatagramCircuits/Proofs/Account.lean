import DatagramCircuits.Delivery.Tracker
import Mathlib.Data.List.Basic
import Mathlib.Data.List.Nodup
/-!
# The account of what was sent

Laws of the operations on the entries of an account. The entries are in ascending order of their
sequence numbers (`Tracker.Ordered`), so a number names at most one of them. **An operation takes entries
out, puts one in, or marks some,** and each law here says which entries there are afterwards, as far as
order does not matter: a list of entries is the same up to `List.Perm`.
-/

namespace DatagramCircuits

namespace Tracker

/-- The entries are in ascending order of their sequence numbers. -/
def Ordered (l : List Tracked) : Prop :=
  l.Pairwise (·.sequence < ·.sequence)

theorem Ordered.nodup {l : List Tracked} (h : Ordered l) : (l.map Tracked.sequence).Nodup := by
  refine List.pairwise_map.2 (h.imp ?_)
  intro x y hlt heq
  rw [heq] at hlt
  exact UInt32.lt_irrefl _ hlt

/-- A sequence number names at most one entry. -/
theorem Ordered.eq_of_sequence_eq {l : List Tracked} (h : Ordered l) {x y : Tracked} (hx : x ∈ l)
    (hy : y ∈ l) (heq : x.sequence = y.sequence) : x = y :=
  List.inj_on_of_nodup_map h.nodup hx hy heq

theorem Ordered.filter {l : List Tracked} (h : Ordered l) (keep : Tracked → Bool) :
    Ordered (l.filter keep) :=
  List.Pairwise.filter keep h

/-- Changing entries without changing their numbers keeps the order. -/
theorem Ordered.map {l : List Tracked} (h : Ordered l) {f : Tracked → Tracked}
    (hf : ∀ e, (f e).sequence = e.sequence) : Ordered (l.map f) := by
  refine List.pairwise_map.2 (h.imp ?_)
  intro x y hlt
  rwa [hf, hf]

/-! ### Finding -/

theorem mem_of_find? {t : Tracker} {n : UInt32} {e : Tracked} (h : t.find? n = some e) :
    e ∈ t.unacked ∧ e.sequence = n := by
  refine ⟨List.mem_of_find?_eq_some h, ?_⟩
  simpa using List.find?_some h

theorem find?_eq_none {t : Tracker} {n : UInt32} (h : t.find? n = none) :
    ∀ e ∈ t.unacked, e.sequence ≠ n := by
  simpa [find?] using h

theorem isUnacked_iff {t : Tracker} {n : UInt32} :
    t.isUnacked n = true ↔ ∃ e ∈ t.unacked, e.sequence = n := by
  simp [isUnacked, find?]

/-- Without the entry of a number, and with it. -/
theorem perm_cons_filter_ne {l : List Tracked} (h : Ordered l) {e : Tracked} (he : e ∈ l) :
    l.Perm (e :: l.filter (·.sequence != e.sequence)) := by
  induction l with
  | nil => simp at he
  | cons x l ih =>
    obtain ⟨hx, hl⟩ := List.pairwise_cons.1 h
    rcases List.mem_cons.1 he with rfl | he
    · have hkeep : l.filter (·.sequence != e.sequence) = l := by
        refine List.filter_eq_self.2 ?_
        intro y hy
        simpa using (UInt32.ne_of_lt (hx y hy)).symm
      simp [hkeep]
    · have hne : (x.sequence != e.sequence) = true := by
        simpa using UInt32.ne_of_lt (hx e he)
      rw [List.filter_cons, if_pos hne]
      exact ((ih hl he).cons x).trans (List.Perm.swap e x _)

/-- A number is counted once, if its entry is among those that are kept. -/
theorem countP_filter {l : List Tracked} (h : Ordered l) {e : Tracked} (he : e ∈ l)
    (keep : Tracked → Bool) :
    (l.filter keep).countP (·.sequence == e.sequence) = if keep e then 1 else 0 := by
  have hothers : ((l.filter (·.sequence != e.sequence)).filter keep).countP
      (·.sequence == e.sequence) = 0 := by
    refine List.countP_eq_zero.2 ?_
    intro x hx heq
    have hne := (List.mem_filter.1 (List.mem_filter.1 hx).1).2
    rw [bne, heq] at hne
    exact absurd hne (by simp)
  rw [((perm_cons_filter_ne h he).filter keep).countP_eq, List.filter_cons]
  split
  · rw [List.countP_cons, hothers, if_pos (beq_self_eq_true _)]
  · exact hothers

/-! ### Putting in -/

theorem mem_insert {x e : Tracked} {l : List Tracked} :
    x ∈ insert e l ↔ x = e ∨ (x ∈ l ∧ x.sequence ≠ e.sequence) := by
  have htri : x.sequence ≠ e.sequence ↔ x.sequence < e.sequence ∨ e.sequence < x.sequence := by
    rw [ne_eq, ← UInt32.toNat_inj, UInt32.lt_iff_toNat_lt, UInt32.lt_iff_toNat_lt]
    omega
  simp only [insert, List.mem_append, List.mem_cons, List.mem_filter, decide_eq_true_eq, htri]
  tauto

theorem Ordered.insert {l : List Tracked} (h : Ordered l) (e : Tracked) :
    Ordered (Tracker.insert e l) := by
  refine List.pairwise_append.2 ⟨h.filter _, List.pairwise_cons.2 ⟨?_, h.filter _⟩, ?_⟩
  · intro y hy
    simpa using (List.mem_filter.1 hy).2
  · intro x hx y hy
    have hxe : x.sequence < e.sequence := by simpa using (List.mem_filter.1 hx).2
    rcases List.mem_cons.1 hy with rfl | hy
    · exact hxe
    · exact UInt32.lt_trans hxe (by simpa using (List.mem_filter.1 hy).2)

/-- An entry that is put in takes the place of any with its number. -/
theorem insert_perm (e : Tracked) {l : List Tracked} (h : Ordered l) :
    (insert e l).Perm (e :: l.filter (·.sequence != e.sequence)) := by
  refine (List.perm_ext_iff_of_nodup ?_ ?_).2 fun x ↦ ?_
  · exact List.Nodup.of_map _ (h.insert e).nodup
  · refine List.nodup_cons.2 ⟨by simp, List.Nodup.of_map _ (h.filter _).nodup⟩
  · rw [mem_insert, List.mem_cons, List.mem_filter, bne_iff_ne]

/-- Noting another transmission puts the entry in again, with one retry more, nothing waiting and a new
time. -/
theorem noteResent_eq_ok {t t' : Tracker} {n : UInt32} {now : Instant} {known : Bool} {e : Tracked}
    (h : t.noteResent n now = .ok (known, t')) (he : t.find? n = some e) :
    ∃ retries, retries.toNat = e.packet.retries.toNat + 1 ∧ t' =
      { t with
        unacked := insert { packet := { e.packet with retries, lastSend := some now } } t.unacked } := by
  rw [noteResent, he] at h
  dsimp only at h
  split at h
  · rename_i hroom
    obtain ⟨rfl, rfl⟩ := Prod.mk.inj (Except.ok.inj h)
    exact ⟨_, (UInt32.toNat_add ..).trans (Nat.mod_eq_of_lt hroom), rfl⟩
  · exact absurd h (by simp)

/-- Noting another transmission leaves alone what waits to be acknowledged. -/
theorem acks_of_noteResent {t t' : Tracker} {n : UInt32} {now : Instant} {known : Bool}
    (h : t.noteResent n now = .ok (known, t')) :
    t'.pendingAcks = t.pendingAcks ∧ t'.ackBytes = t.ackBytes := by
  cases he : t.find? n with
  | none =>
    rw [noteResent, he] at h
    cases h
    exact ⟨rfl, rfl⟩
  | some e =>
    obtain ⟨retries, -, rfl⟩ := noteResent_eq_ok h he
    exact ⟨rfl, rfl⟩

/-! ### Taking out -/

@[simp] theorem acknowledge_fst (n : UInt32) (now : Instant) (t : Tracker) :
    (t.acknowledge n now).1 = (t.find? n).map Tracked.packet := by
  rw [acknowledge, remove]
  cases t.find? n with
  | none => rfl
  | some e => cases h : e.packet.lastSend <;> simp [h]

/-- What acknowledging changes apart from the entries is the estimate of the round trip. -/
theorem acknowledge_snd (n : UInt32) (now : Instant) (t : Tracker) :
    ∃ r, (t.acknowledge n now).2 =
      { t with unacked := t.unacked.filter (·.sequence != n), roundTrip := r } ∧
      (r = t.roundTrip ∨ ∃ d, r = t.roundTrip.sample d) := by
  rw [acknowledge, remove]
  cases t.find? n with
  | none => exact ⟨t.roundTrip, rfl, .inl rfl⟩
  | some e =>
    cases h : e.packet.lastSend with
    | none => exact ⟨t.roundTrip, by simp [h], .inl rfl⟩
    | some sent =>
      by_cases h0 : e.packet.retries = 0
      · exact ⟨t.roundTrip.sample (now - sent), by simp [h, h0, sample], .inr ⟨_, rfl⟩⟩
      · exact ⟨t.roundTrip, by simp [h, h0], .inl rfl⟩

/-- **What is acknowledged leaves the account, and nothing else does.** -/
theorem acknowledge_perm (n : UInt32) (now : Instant) {t : Tracker} (h : Ordered t.unacked) :
    (t.unacked.map Tracked.packet).Perm
      ((t.acknowledge n now).2.unacked.map Tracked.packet ++ (t.acknowledge n now).1.toList) := by
  obtain ⟨r, hr, -⟩ := acknowledge_snd n now t
  rw [hr, acknowledge_fst]
  cases hf : t.find? n with
  | none =>
    have hkeep : t.unacked.filter (·.sequence != n) = t.unacked :=
      List.filter_eq_self.2 fun e he ↦ by simpa using find?_eq_none hf e he
    simp [hkeep]
  | some e =>
    obtain ⟨he, rfl⟩ := mem_of_find? hf
    have hp := (perm_cons_filter_ne h he).map Tracked.packet
    exact hp.trans (List.perm_append_singleton ..).symm

/-- **What is too old leaves the account, and nothing else does.** -/
theorem dropOlder_perm (age : Span) (now : Instant) (t : Tracker) :
    (t.unacked.map Tracked.packet).Perm
      ((t.dropOlder age now).2.unacked.map Tracked.packet ++ (t.dropOlder age now).1) := by
  have hp := (List.filter_append_perm (isOutdated age now) t.unacked).symm.map Tracked.packet
  rw [List.map_append] at hp
  exact hp.trans List.perm_append_comm

end Tracker

end DatagramCircuits
