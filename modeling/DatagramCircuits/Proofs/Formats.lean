import DatagramCircuits.Message.Control
import DatagramCircuits.Proofs.Grammar
/-!
# The formats of control messages

Each format of a control message has a reader and a writer, and the reader accepts exactly what the writer
makes, in front of whatever follows. The numbers are settled first (`Octets.readLittle_eq_ok_iff`,
`Octets.readBig_eq_ok_iff`), then the formats that are made of them, and then the reader that is told by
the id which format to expect (`Control.read_eq_ok_iff`).

The block of rates is different. It may be longer than the rates are, and different floats are read as
the same rate, so that it is settled only when it is accepted, where it ends, and that the rates in it are
those of its first octets (`Control.readThrottle_eq_ok_iff`).
-/

namespace DatagramCircuits

namespace Octets

variable {s t rest : Octets} {width n : Nat}

/-! ### Readers and what they leave -/

theorem reader_bind_eq_ok_iff {ε α β : Type} {r : Reader ε α} {f : α → Reader ε β} {b : β} :
    (r >>= f) s = .ok (b, t) ↔ ∃ a u, r s = .ok (a, u) ∧ f a u = .ok (b, t) := by
  refine ⟨exists_of_bind_eq_ok, ?_⟩
  rintro ⟨a, u, hr, hf⟩
  exact (bind_of_eq_ok hr).trans hf

theorem reader_map_eq_ok_iff {ε α β : Type} {r : Reader ε α} {f : α → β} {b : β} :
    (f <$> r) s = .ok (b, t) ↔ ∃ a, r s = .ok (a, t) ∧ f a = b := by
  show (r s >>= fun p ↦ .ok (f p.1, p.2)) = _ ↔ _
  rw [bind_eq_ok_iff]
  constructor
  · rintro ⟨⟨a, u⟩, hr, h⟩
    cases h
    exact ⟨a, hr, rfl⟩
  · rintro ⟨a, hr, rfl⟩
    exact ⟨(a, t), hr, rfl⟩

theorem withError_eq_ok_iff {ε ε' α : Type} {f : ε → ε'} {r : Reader ε α} {a : α} :
    r.withError f s = .ok (a, t) ↔ r s = .ok (a, t) :=
  mapError_eq_ok_iff

/-- A reader may look at all that is left, and leave it there. -/
theorem bind_get_of_eq_ok {ε α β : Type} {r : Reader ε α} {f : α → Octets → Reader ε β} {a : α}
    (h : r s = .ok (a, t)) : (do f (← r) (← get)) s = f a t t :=
  bind_of_eq_ok h

theorem exactly_eq_ok_iff : exactly n s = .ok (t, rest) ↔ t.length = n ∧ s = t ++ rest := by
  refine ⟨fun h ↦ ?_, fun h ↦ h.2 ▸ exactly_append h.1⟩
  rw [exactly] at h
  split at h
  · cases h
  · cases h
    exact ⟨List.length_take_of_le (by omega), (List.take_append_drop ..).symm⟩

/-! ### Numbers -/

theorem littleEndian_ofLittleEndian (s : Octets) : littleEndian s.length (ofLittleEndian s) = s := by
  have h := bigEndian_ofBigEndian s.reverse
  rw [List.length_reverse] at h
  rw [littleEndian, ofLittleEndian, h, List.reverse_reverse]

theorem ofLittleEndian_lt (s : Octets) : ofLittleEndian s < 256 ^ s.length := by
  rw [← List.length_reverse]
  exact ofBigEndian_lt s.reverse

/-- **A number is read exactly where it is written,** least significant octet first. -/
theorem readLittle_eq_ok_iff :
    readLittle width s = .ok (n, rest) ↔ n < 256 ^ width ∧ s = littleEndian width n ++ rest := by
  constructor
  · intro h
    obtain ⟨t, hexactly, rfl⟩ := reader_map_eq_ok_iff.1 h
    obtain ⟨rfl, rfl⟩ := exactly_eq_ok_iff.1 hexactly
    rw [littleEndian_ofLittleEndian]
    exact ⟨ofLittleEndian_lt t, rfl⟩
  · rintro ⟨hn, rfl⟩
    rw [readLittle_append (length_littleEndian ..), ofLittleEndian_littleEndian, Nat.mod_eq_of_lt hn]

/-- A first octet is there to be read. -/
theorem withError_readLittle_cons {ε : Type} (f : Underrun → ε) (b : UInt8) (s : Octets) :
    (readLittle 1).withError f (b :: s) = .ok (b.toNat, s) :=
  withError_eq_ok_iff.2 (readLittle_cons b s)

theorem littleEndian_one (n : Nat) : littleEndian 1 n = [UInt8.ofNat n] := by
  simp [littleEndian, bigEndian]

/-- Four octets are a sequence number. -/
theorem exists_littleEndian {s : Octets} (h : s.length = 4) :
    ∃ n : UInt32, s = littleEndian 4 n.toNat := by
  have hlt : ofLittleEndian s < 2 ^ 32 := by
    have hbound := ofLittleEndian_lt s
    rw [h] at hbound
    exact hbound
  refine ⟨UInt32.ofNat (ofLittleEndian s), ?_⟩
  rw [UInt32.toNat_ofNat_of_lt' hlt, ← h, littleEndian_ofLittleEndian]

/-- The same, most significant octet first. -/
theorem readBig_eq_ok_iff :
    readBig width s = .ok (n, rest) ↔ n < 256 ^ width ∧ s = bigEndian width n ++ rest := by
  constructor
  · intro h
    obtain ⟨t, rfl, rfl, rfl⟩ := readBig_eq_ok h
    rw [bigEndian_ofBigEndian]
    exact ⟨ofBigEndian_lt t, rfl⟩
  · rintro ⟨hn, rfl⟩
    rw [readBig_append (length_bigEndian ..), ofBigEndian_bigEndian, Nat.mod_eq_of_lt hn]

end Octets

/-! ### Requests for a circuit -/

theorem Uuid.toNat_lt (u : Uuid) : u.toNat < 256 ^ 16 :=
  u.bits.isLt

theorem Uuid.ofNat_toNat (u : Uuid) : ofNat u.toNat = u := by
  rw [ofNat, toNat, BitVec.ofNat_toNat]
  rfl

theorem Uuid.toNat_ofNat {n : Nat} (h : n < 256 ^ 16) : (ofNat n).toNat = n := by
  rw [ofNat, toNat, BitVec.toNat_ofNat]
  exact Nat.mod_eq_of_lt h

variable {s rest : Octets}

/-- **A request for a circuit is read exactly where it is written.** -/
theorem SetupRequest.read_eq_ok_iff {r : SetupRequest} :
    read s = .ok (r, rest) ↔ s = r.encode ++ rest := by
  simp only [read, Octets.reader_bind_eq_ok_iff, Octets.readLittle_eq_ok_iff,
    Octets.readBig_eq_ok_iff]
  constructor
  · rintro ⟨code, s₁, ⟨hcode, rfl⟩, session, s₂, ⟨hsession, rfl⟩, agent, s₃, ⟨hagent, rfl⟩, h⟩
    cases h
    have hback : (UInt32.ofNat code).toNat = code := UInt32.toNat_ofNat_of_lt' hcode
    rw [encode, hback, Uuid.toNat_ofNat hsession, Uuid.toNat_ofNat hagent]
    simp
  · rintro rfl
    refine ⟨r.code.toNat, _, ⟨r.code.toNat_lt, by rw [encode, List.append_assoc, List.append_assoc]⟩,
      r.session.toNat, _, ⟨r.session.toNat_lt, rfl⟩, r.agent.toNat, _, ⟨r.agent.toNat_lt, rfl⟩, ?_⟩
    rw [UInt32.ofNat_toNat, Uuid.ofNat_toNat, Uuid.ofNat_toNat]
    rfl

/-- The rates are those of the first octets, whatever stands behind them. -/
theorem Rates.ofPacked_take (s : Octets) : Rates.ofPacked (s.take Rates.packedLength) = Rates.ofPacked s := by
  refine PerLane.ext fun lane ↦ ?_
  have hplace : lane.index * Rates.packedWidth + Rates.packedWidth ≤ Rates.packedLength := by
    cases lane <;> decide
  rw [Rates.ofPacked, Rates.ofPacked, PerLane.get_ofFn, PerLane.get_ofFn, List.drop_take,
    List.take_take, Nat.min_eq_left (Nat.le_sub_of_add_le' hplace)]

namespace Control

/-! ### Acknowledgements and pings -/

/-- The numbers of acknowledgements are found again. -/
theorem map_pieces_littleEndian (l : List UInt32) :
    (Octets.pieces 4 (l.flatMap fun n ↦ Octets.littleEndian 4 n.toNat)).map
      (fun s ↦ UInt32.ofNat (Octets.ofLittleEndian s)) = l := by
  rw [List.flatMap, Octets.pieces_flatten (by decide), List.map_map]
  · refine (List.map_congr_left fun n _ ↦ ?_).trans (List.map_id l)
    exact Octets.ofNat_ofLittleEndian_littleEndian n
  · intro s hs
    obtain ⟨n, -, rfl⟩ := List.mem_map.1 hs
    exact Octets.length_littleEndian ..

theorem length_flatMap_littleEndian (l : List UInt32) :
    (l.flatMap fun n ↦ Octets.littleEndian 4 n.toNat).length = 4 * l.length := by
  simp [List.length_flatMap, Nat.mul_comm]

/-- Behind their count, acknowledgements are read if there are enough octets, and as those that the
octets say. -/
theorem readAcks_cons (b : UInt8) (s : Octets) :
    readAcks (b :: s) =
      if s.length < 4 * b.toNat then .error (.acksTooShort b.toNat (s.length / 4))
      else .ok ((Octets.pieces 4 (s.take (4 * b.toNat))).map fun t ↦
        UInt32.ofNat (Octets.ofLittleEndian t), s.drop (4 * b.toNat)) := by
  refine (Octets.bind_get_of_eq_ok (Octets.withError_readLittle_cons _ b s)).trans ?_
  split <;> rfl

/-- **Acknowledgements are read exactly where they are written,** and there are never more of them than
their count can say. -/
theorem readAcks_eq_ok_iff {l : List UInt32} :
    readAcks s = .ok (l, rest) ↔ l.length ≤ maxAcks ∧ s = encodeAcks l ++ rest := by
  constructor
  · intro h
    cases s with
    | nil => cases h
    | cons b s =>
      rw [readAcks_cons] at h
      split at h
      · cases h
      rename_i henough
      obtain ⟨k, hk, hs⟩ := Octets.exists_flatMap (f := fun n : UInt32 ↦ Octets.littleEndian 4 n.toNat)
        (fun t ht ↦ Octets.exists_littleEndian ht)
        (List.length_take_of_le (Nat.le_of_not_lt henough))
      rw [hs, map_pieces_littleEndian] at h
      obtain ⟨rfl, rfl⟩ := Prod.mk.inj (Except.ok.inj h)
      refine ⟨hk ▸ Nat.le_of_lt_succ b.toNat_lt, ?_⟩
      rw [encodeAcks, hk, UInt8.ofNat_toNat, ← hs, List.cons_append, List.take_append_drop]
  · rintro ⟨hl, rfl⟩
    have hcount : (UInt8.ofNat l.length).toNat = l.length := by
      rw [UInt8.toNat_ofNat']
      exact Nat.mod_eq_of_lt (Nat.lt_succ_of_le hl)
    have hlength := length_flatMap_littleEndian l
    have henough : ¬ ((l.flatMap fun n ↦ Octets.littleEndian 4 n.toNat) ++ rest).length <
        4 * l.length := by
      rw [List.length_append, hlength]
      omega
    rw [encodeAcks, List.cons_append, readAcks_cons, hcount, if_neg henough,
      List.take_left' hlength, List.drop_left' hlength, map_pieces_littleEndian]

/-- **A ping is read exactly where it is written.** -/
theorem readPing_eq_ok_iff {id : UInt8} {oldest : UInt32} :
    readPing s = .ok ((id, oldest), rest) ↔
      s = id :: (Octets.littleEndian 4 oldest.toNat ++ rest) := by
  simp only [readPing, Octets.reader_bind_eq_ok_iff, Octets.readLittle_eq_ok_iff]
  constructor
  · rintro ⟨n, s₁, ⟨hn, rfl⟩, m, s₂, ⟨hm, rfl⟩, h⟩
    cases h
    rw [UInt32.toNat_ofNat_of_lt' hm, Octets.littleEndian_one]
    rfl
  · rintro rfl
    refine ⟨id.toNat, _, ⟨id.toNat_lt, ?_⟩, oldest.toNat, rest, ⟨oldest.toNat_lt, rfl⟩, ?_⟩
    · rw [Octets.littleEndian_one, UInt8.ofNat_toNat]
      rfl
    · rw [UInt8.ofNat_toNat, UInt32.ofNat_toNat]
      rfl

/-! ### Rates -/

/-- Behind its length, a block of rates is read if it is long enough and there is all of it. The rates are
in front, and what is behind them says nothing. -/
theorem readThrottle_cons (b : UInt8) (s : Octets) :
    readThrottle (b :: s) =
      if b.toNat < Rates.packedLength ∨ s.length < b.toNat then
        .error (.throttleTooShort b.toNat s.length)
      else .ok (Rates.ofPacked s, s.drop b.toNat) := by
  refine (Octets.bind_get_of_eq_ok (Octets.withError_readLittle_cons _ b s)).trans ?_
  split
  · rfl
  · rename_i henough
    have hunpack : Rates.unpack.withError Error.rates s =
        .ok (Rates.ofPacked s, s.drop Rates.packedLength) := by
      refine Octets.withError_eq_ok_iff.2 ?_
      rw [Rates.unpack, if_neg (by omega)]
    refine (Octets.bind_of_eq_ok hunpack).trans ?_
    show Except.ok (Rates.ofPacked s, (s.drop Rates.packedLength).drop _) = _
    rw [List.drop_drop, Nat.add_sub_cancel' (by omega)]

/-- **A block of rates is read when there is one,** to its end, and the rates are those of its first
octets. -/
theorem readThrottle_eq_ok_iff {rates : Rates} :
    readThrottle s = .ok (rates, rest) ↔
      ∃ b t, s = b :: t ∧ Rates.packedLength ≤ b.toNat ∧ b.toNat ≤ t.length ∧
        rest = t.drop b.toNat ∧ rates = Rates.ofPacked (t.take Rates.packedLength) := by
  cases s with
  | nil => exact ⟨fun h ↦ (by cases h), fun ⟨_, _, h, _⟩ ↦ (by cases h)⟩
  | cons b t =>
    rw [readThrottle_cons]
    constructor
    · intro h
      split at h
      · cases h
      · rename_i henough
        obtain ⟨rfl, rfl⟩ := Prod.mk.inj (Except.ok.inj h)
        exact ⟨b, t, rfl, by omega, by omega, rfl, (Rates.ofPacked_take t).symm⟩
    · rintro ⟨b', t', hcons, hlong, henough, rfl, rfl⟩
      obtain ⟨rfl, rfl⟩ := List.cons.inj hcons
      rw [if_neg (by omega), Rates.ofPacked_take]

/-- An octet behind the rates is part of the block, one behind the block is left. -/
example : readThrottle (29 :: (List.replicate 28 0 ++ [7, 9])) = .ok (PerLane.replicate 0, [9]) := by
  decide +kernel

/-! ### Messages, by their ids -/

/-- A message of the given kind is read where its content is. -/
theorem read_some_iff {ε α : Type} {r : Octets.Reader ε α} {f : α → Control}
    (hf : Function.Injective f) {a : α} :
    (do return some (f (← r)) : Octets.Reader ε (Option Control)) s = .ok (some (f a), rest) ↔
      r s = .ok (a, rest) := by
  rw [Octets.reader_bind_eq_ok_iff]
  constructor
  · rintro ⟨a', t, hr, h⟩
    obtain ⟨ha, rfl⟩ := Prod.mk.inj (Except.ok.inj h)
    rwa [← hf (Option.some.inj ha)]
  · intro hr
    exact ⟨a, rest, hr, rfl⟩

theorem id_of_bind {ε α : Type} {r : Octets.Reader ε α} {f : α → Control} {id : MessageId}
    (hf : ∀ a, (f a).id = id) {s t : Octets} {c : Control}
    (h : (do return some (f (← r)) : Octets.Reader ε (Option Control)) s = .ok (some c, t)) :
    c.id = id := by
  obtain ⟨a, u, -, h⟩ := Octets.exists_of_bind_eq_ok h
  cases h
  exact hf a

theorem ne_none_of_bind {ε α : Type} {r : Octets.Reader ε α} (f : α → Control) :
    (do return some (f (← r)) : Octets.Reader ε (Option Control)) s ≠ .ok (none, rest) := by
  intro h
  obtain ⟨a, u, -, h⟩ := Octets.exists_of_bind_eq_ok h
  cases h

/-- A message that is read has the id that it was read for. -/
theorem id_of_read {id : MessageId} {s t : Octets} {c : Control}
    (h : read id s = .ok (some c, t)) : c.id = id := by
  rw [read] at h
  split at h
  · rename_i hid
    exact (id_of_bind (f := setup) (fun _ ↦ rfl) h).trans hid.symm
  split at h
  · rename_i hid
    exact (id_of_bind (f := acks) (fun _ ↦ rfl) h).trans hid.symm
  split at h
  · rename_i hid
    obtain ⟨⟨ping, oldest⟩, u, -, h⟩ := Octets.exists_of_bind_eq_ok h
    cases h
    exact hid.symm
  split at h
  · rename_i hid
    exact (id_of_bind (f := fun n ↦ pong (UInt8.ofNat n)) (fun _ ↦ rfl) h).trans hid.symm
  split at h
  · rename_i hid
    exact (id_of_bind (f := throttle) (fun _ ↦ rfl) h).trans hid.symm
  split at h
  · rename_i hid
    cases h
    exact hid.symm
  · cases h

/-- **Nothing is read for other ids,** and nothing is consumed then. -/
theorem read_eq_none_iff {id : MessageId} : read id s = .ok (none, rest) ↔ id ∉ ids ∧ rest = s := by
  constructor
  · intro h
    rw [read] at h
    split at h
    · exact absurd h (ne_none_of_bind setup)
    split at h
    · exact absurd h (ne_none_of_bind acks)
    split at h
    · exact absurd h (ne_none_of_bind fun p : UInt8 × UInt32 ↦ ping p.1 p.2)
    split at h
    · exact absurd h (ne_none_of_bind fun n ↦ pong (UInt8.ofNat n))
    split at h
    · exact absurd h (ne_none_of_bind throttle)
    split at h
    · cases h
    · cases h
      exact ⟨by simp [ids, *], rfl⟩
  · rintro ⟨hid, rfl⟩
    simp only [ids, List.mem_cons, List.not_mem_nil, or_false, not_or] at hid
    obtain ⟨hsetup, hacks, hping, hpong, hthrottle, hclose⟩ := hid
    rw [read, if_neg hsetup, if_neg hacks, if_neg hping, if_neg hpong, if_neg hthrottle,
      if_neg hclose]
    rfl

/-- **A message is read exactly where it is written,** if it can be written. Only rates are different. -/
theorem read_eq_ok_iff {c : Control} (hc : ∀ rates, c ≠ throttle rates) :
    read c.id s = .ok (some c, rest) ↔ c.entryCount ≤ maxAcks ∧ s = c.body ++ rest := by
  have hnone : (0 : Nat) ≤ maxAcks := Nat.zero_le _
  cases c with
  | setup r =>
    calc read .setup s = .ok (some (setup r), rest)
        ↔ SetupRequest.read.withError Error.underrun s = .ok (r, rest) :=
          read_some_iff fun _ _ ↦ setup.inj
      _ ↔ SetupRequest.read s = .ok (r, rest) := Octets.withError_eq_ok_iff
      _ ↔ s = r.encode ++ rest := SetupRequest.read_eq_ok_iff
      _ ↔ _ := (and_iff_right hnone).symm
  | acks l => exact (read_some_iff fun _ _ ↦ acks.inj).trans readAcks_eq_ok_iff
  | ping id oldest =>
    have hinj : Function.Injective fun p : UInt8 × UInt32 ↦ ping p.1 p.2 := fun p q h ↦
      Prod.ext (ping.inj h).1 (ping.inj h).2
    calc read .ping s = .ok (some (ping id oldest), rest)
        ↔ readPing.withError Error.underrun s = .ok ((id, oldest), rest) :=
          read_some_iff (a := (id, oldest)) hinj
      _ ↔ readPing s = .ok ((id, oldest), rest) := Octets.withError_eq_ok_iff
      _ ↔ s = id :: (Octets.littleEndian 4 oldest.toNat ++ rest) := readPing_eq_ok_iff
      _ ↔ _ := (and_iff_right hnone).symm
  | pong id =>
    refine Iff.trans ?_ (and_iff_right hnone).symm
    show (do return some (pong (UInt8.ofNat (← (Octets.readLittle 1).withError Error.underrun))) :
      Octets.Reader Error (Option Control)) s = _ ↔ s = id :: rest
    simp only [Octets.reader_bind_eq_ok_iff, Octets.withError_eq_ok_iff, Octets.readLittle_eq_ok_iff,
      Octets.littleEndian_one]
    constructor
    · rintro ⟨n, u, ⟨-, rfl⟩, h⟩
      cases h
      rfl
    · rintro rfl
      refine ⟨id.toNat, rest, ⟨id.toNat_lt, ?_⟩, ?_⟩
      · rw [UInt8.ofNat_toNat]
        rfl
      · rw [UInt8.ofNat_toNat]
        rfl
  | throttle rates => exact absurd rfl (hc rates)
  | close =>
    show Except.ok (some close, s) = _ ↔ _
    simp [entryCount, body, maxAcks]

end Control

end DatagramCircuits
