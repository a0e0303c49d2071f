import DatagramCircuits.Message.Checked
import DatagramCircuits.Proofs.Acceptance
import DatagramCircuits.Proofs.Formats
/-!
# Bodies of control messages

A body can be any octets, for whatever id. A reader never goes outside of it
(`Control.readChecked_eq_read`): where numbers are taken without asking whether they are there, the
length that was looked at before has settled it. What is accepted, and what is left over then, is settled
by the formats (`Control.reads_exactly`).
-/

namespace DatagramCircuits

/-! ### Checked access -/

namespace Octets

variable {s : Octets}

/-- Where there are enough octets, a number is read as it would be without a look. -/
theorem nextLittle_of_le {width : Nat} (h : width ≤ s.length) :
    nextLittle width s = .ok (ofLittleEndian (s.take width), s.drop width) := by
  rw [nextLittle, divide_of_le h]
  rfl

/-- As many numbers as there is room for are those that groups of four octets say. -/
theorem nextLittles_of_le (count : Nat) (h : 4 * count ≤ s.length) :
    nextLittles count s =
      .ok ((pieces 4 (s.take (4 * count))).map ofLittleEndian, s.drop (4 * count)) := by
  induction count generalizing s with
  | zero =>
    rw [Nat.mul_zero, List.take_zero, List.drop_zero]
    rfl
  | succ count ih =>
    have hgroup : s.take (4 * (count + 1)) = s.take 4 ++ (s.drop 4).take (4 * count) := by
      rw [Nat.mul_succ, Nat.add_comm, List.take_add]
    have hrest : s.drop (4 * (count + 1)) = (s.drop 4).drop (4 * count) := by
      rw [List.drop_drop, Nat.mul_succ, Nat.add_comm]
    have hnext : nextLittle 4 s = .ok (ofLittleEndian (s.take 4), s.drop 4) :=
      nextLittle_of_le (by omega)
    have hothers := ih (s := s.drop 4) (by rw [List.length_drop]; omega)
    rw [nextLittles, bind_of_eq_ok hnext, bind_of_eq_ok hothers, hgroup, hrest,
      pieces_append (by decide) (List.length_take_of_le (by omega))]
    rfl

/-- What is declared and not used is skipped, where it is there. -/
theorem skipRest_of_le {declared used : Nat} (hused : used ≤ declared)
    (h : declared - used ≤ s.length) :
    skipRest declared used s = .ok ((), s.drop (declared - used)) := by
  rw [skipRest, difference_of_le hused]
  show (divide (declared - used) s >>= fun p ↦ .ok ((), p.2)) = _
  rw [divide_of_le h]
  rfl

theorem ofFault_of_eq_ok {ε α : Type} {r : Reader Fault α} {p : α × Octets} (h : r s = .ok p) :
    (r.ofFault : Reader (Failure ε) α) s = .ok p := by
  show (r s).mapError _ = _
  rw [h]
  rfl

/-- A reader is the same with checked access if its parts are. -/
theorem bind_eq_ofRefusal {ε α β : Type} {r : Reader (Failure ε) α} {r' : Reader ε α}
    {f : α → Reader (Failure ε) β} {f' : α → Reader ε β} (hr : r s = Failure.ofRefusal (r' s))
    (hf : ∀ a t, f a t = Failure.ofRefusal (f' a t)) :
    (r >>= f) s = Failure.ofRefusal ((r' >>= f') s) := by
  show (r s >>= fun p ↦ f p.1 p.2) = Failure.ofRefusal (r' s >>= fun p ↦ f' p.1 p.2)
  rw [hr]
  cases r' s with
  | error e => rfl
  | ok p => exact hf p.1 p.2

end Octets

namespace Rates

/-- The rates that octets say, taken from the numbers in them one after the other. -/
theorem ofFn_pieces {s : Octets} (h : s.length = packedLength) :
    (PerLane.ofFn fun lane ↦ eighthOfBinary32
      (((Octets.pieces packedWidth s).map Octets.ofLittleEndian).getD lane.index 0)) = ofPacked s := by
  refine PerLane.ext fun lane ↦ ?_
  have hcount : Octets.pieceCount packedWidth s.length = Lane.all.length := by
    rw [h]
    decide
  have hlt : lane.index < Lane.all.length := by
    cases lane <;> decide
  rw [ofPacked, PerLane.get_ofFn, PerLane.get_ofFn, Octets.pieces, hcount, Octets.cut,
    List.getD_eq_getElem?_getD, List.getElem?_map, List.getElem?_map, List.getElem?_range hlt]
  rfl

/-- Octets that are enough for packed rates are read without a fault, and as the rates they say. -/
theorem unpackChecked_of_le {s : Octets} (h : packedLength ≤ s.length) :
    unpackChecked s = .ok (ofPacked s, s.drop packedLength) := by
  have hget : (get : Octets.Reader (Failure PackedTooShort) Octets) s = .ok (s, s) := rfl
  have hnumbers := Octets.nextLittles_of_le Lane.all.length h
  rw [unpackChecked, Octets.bind_of_eq_ok hget, if_neg (Nat.not_lt.2 h)]
  refine (Octets.bind_of_eq_ok (Octets.ofFault_of_eq_ok hnumbers)).trans ?_
  rw [← ofPacked_take, ← ofFn_pieces (List.length_take_of_le h)]
  rfl

end Rates

namespace Control

variable {b rest : Octets}

theorem ofRefusal_readLittle_cons (n : UInt8) (t : Octets) :
    ((Octets.readLittle 1).withError Error.underrun).ofRefusal (n :: t) = .ok (n.toNat, t) :=
  Octets.withError_eq_ok_iff.2 (Octets.withError_readLittle_cons _ n t)

/-- Reading acknowledgements never goes outside of the body. -/
theorem readAcksChecked_eq (b : Octets) : readAcksChecked b = Failure.ofRefusal (readAcks b) := by
  cases b with
  | nil => rfl
  | cons n t =>
    rw [readAcks_cons]
    refine (Octets.bind_get_of_eq_ok (ofRefusal_readLittle_cons n t)).trans ?_
    split
    · rfl
    · rename_i henough
      have hnumbers := Octets.nextLittles_of_le n.toNat (Nat.le_of_not_lt henough)
      refine (Octets.bind_of_eq_ok (Octets.ofFault_of_eq_ok hnumbers)).trans ?_
      rw [List.map_map]
      rfl

/-- Nor does reading rates. -/
theorem readThrottleChecked_eq (b : Octets) :
    readThrottleChecked b = Failure.ofRefusal (readThrottle b) := by
  cases b with
  | nil => rfl
  | cons n t =>
    rw [readThrottle_cons]
    refine (Octets.bind_get_of_eq_ok (ofRefusal_readLittle_cons n t)).trans ?_
    split
    · rfl
    · rename_i henough
      have hlong : Rates.packedLength ≤ n.toNat := by omega
      have hunpack : Rates.unpackChecked.withError (Failure.map Error.rates) t =
          .ok (Rates.ofPacked t, t.drop Rates.packedLength) :=
        Octets.withError_eq_ok_iff.2 (Rates.unpackChecked_of_le (by omega))
      have hskip := Octets.skipRest_of_le (s := t.drop Rates.packedLength) hlong
        (by rw [List.length_drop]; omega)
      refine (Octets.bind_of_eq_ok hunpack).trans
        ((Octets.bind_of_eq_ok (Octets.ofFault_of_eq_ok hskip)).trans ?_)
      rw [List.drop_drop, Nat.add_sub_cancel' hlong]
      rfl

/-- **The reader with checked access is the same.** -/
theorem readChecked_eq_read (id : MessageId) (b : Octets) :
    readChecked id b = Failure.ofRefusal (read id b) := by
  rw [readChecked]
  split
  · rename_i hid
    subst hid
    exact Octets.bind_eq_ofRefusal (readAcksChecked_eq b) fun _ _ ↦ rfl
  split
  · rename_i hid
    subst hid
    exact Octets.bind_eq_ofRefusal (readThrottleChecked_eq b) fun _ _ ↦ rfl
  · rfl

/-! ### What is accepted -/

/-- A message with few enough entries is written as its body. -/
theorem encode_eq_ok {c : Control} (h : c.entryCount ≤ maxAcks) : c.encode = .ok c.body := by
  rw [encode, Octets.countOctet, if_pos (show c.entryCount < 256 from Nat.lt_succ_of_le h)]
  rfl

theorem read_throttle_eq_ok_iff {m : Option Control} :
    read .throttle b = .ok (m, rest) ↔
      ∃ rates, readThrottle b = .ok (rates, rest) ∧ m = some (throttle rates) := by
  show (do return some (throttle (← readThrottle)) : Octets.Reader Error (Option Control)) b = _ ↔ _
  rw [Octets.reader_bind_eq_ok_iff]
  constructor
  · rintro ⟨rates, t, hread, h⟩
    cases h
    exact ⟨rates, hread, rfl⟩
  · rintro ⟨rates, hread, rfl⟩
    exact ⟨rates, rest, hread, rfl⟩

/-- **Bodies are read exactly as their formats say.** Nothing is read outside of a body. A message is read
where its id and its body are those that are written for it, and nothing is taken of what follows. A block
of rates is read when it is long enough and there is all of it, and its first octets are the rates. For
other ids there is no message, and all is left. -/
theorem reads_exactly (id : MessageId) (b rest : Octets) :
    readChecked id b = Failure.ofRefusal (read id b) ∧
      (∀ fault, readChecked id b ≠ .error (.fault fault)) ∧
      (∀ c : Control, (∀ rates, c ≠ throttle rates) → c.entryCount ≤ 255 →
        ∃ s, c.encode = .ok s ∧ (read id b = .ok (some c, rest) ↔ id = c.id ∧ b = s ++ rest)) ∧
      (∀ m, read .throttle b = .ok (m, rest) ↔
        ∃ n t, b = n :: t ∧ 28 ≤ n.toNat ∧ n.toNat ≤ t.length ∧ rest = t.drop n.toNat ∧
          m = some (throttle (Rates.ofPacked (t.take 28)))) ∧
      (read id b = .ok (none, rest) ↔ id ∉ ids ∧ rest = b) := by
  refine ⟨readChecked_eq_read id b, fun fault ↦ ?_, fun c hc hcount ↦ ?_, fun m ↦ ?_,
    read_eq_none_iff⟩
  · rw [readChecked_eq_read]
    exact Failure.ofRefusal_ne_fault _ _
  · refine ⟨c.body, encode_eq_ok hcount, fun h ↦ ?_, ?_⟩
    · obtain rfl := id_of_read h
      exact ⟨rfl, ((read_eq_ok_iff hc).1 h).2⟩
    · rintro ⟨rfl, hb⟩
      exact (read_eq_ok_iff hc).2 ⟨hcount, hb⟩
  · rw [read_throttle_eq_ok_iff]
    constructor
    · rintro ⟨rates, hread, rfl⟩
      obtain ⟨n, t, hb, hlong, henough, hrest, rfl⟩ := readThrottle_eq_ok_iff.1 hread
      exact ⟨n, t, hb, hlong, henough, hrest, rfl⟩
    · rintro ⟨n, t, hb, hlong, henough, hrest, rfl⟩
      exact ⟨_, readThrottle_eq_ok_iff.2 ⟨n, t, hb, hlong, henough, hrest, rfl⟩, rfl⟩

/-- Two acknowledgements are read where they are written, and the octet behind them is left. -/
theorem reads_exactly_two_acks :
    (∀ rates, acks [1, 258] ≠ throttle rates) ∧ (acks [1, 258]).entryCount ≤ 255 ∧
      (acks [1, 258]).encode = .ok [2, 1, 0, 0, 0, 2, 1, 0, 0] ∧
      read .acks [2, 1, 0, 0, 0, 2, 1, 0, 0, 9] = .ok (some (acks [1, 258]), [9]) := by
  have hacks : ∀ rates, acks [1, 258] ≠ throttle rates := by simp
  have hcount : (acks [1, 258]).entryCount ≤ 255 := by decide
  have hencode : (acks [1, 258]).encode = .ok [2, 1, 0, 0, 0, 2, 1, 0, 0] := by decide
  obtain ⟨-, -, hread, -⟩ := reads_exactly .acks [2, 1, 0, 0, 0, 2, 1, 0, 0, 9] [9]
  obtain ⟨s, hs, hiff⟩ := hread (acks [1, 258]) hacks hcount
  obtain rfl := Except.ok.inj (hencode.symm.trans hs)
  exact ⟨hacks, hcount, hencode, hiff.2 ⟨rfl, rfl⟩⟩

end Control

end DatagramCircuits
