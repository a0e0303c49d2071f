import DatagramCircuits.Datagram.Packet
import DatagramCircuits.Proofs.Wire
/-!
# The grammar of datagrams

What a reader accepts, and what it finds in there. A datagram consists of flags, a sequence number,
counted extra octets, a body and a trailer of acknowledgements, and `Datagram.Writes` says that octets
are this written form of a packet. Reading a packet and being its written form is the same
(`Datagram.parse_eq_ok_iff`): each reader on the way accepts what the writer beside it makes, and nothing
else.
-/

namespace DatagramCircuits

/-! ### Readers -/

namespace Octets

/-- A reader in two parts goes on where the first part ended. -/
theorem bind_of_eq_ok {ε α β : Type} {r : Reader ε α} {f : α → Reader ε β} {s t : Octets} {a : α}
    (h : r s = .ok (a, t)) : (r >>= f) s = f a t := by
  show (r s >>= fun p ↦ f p.1 p.2) = _
  rw [h]
  rfl

theorem exists_of_bind_eq_ok {ε α β : Type} {r : Reader ε α} {f : α → Reader ε β} {s t : Octets}
    {b : β} (h : (r >>= f) s = .ok (b, t)) : ∃ a u, r s = .ok (a, u) ∧ f a u = .ok (b, t) := by
  obtain ⟨⟨a, u⟩, hr, hf⟩ := bind_eq_ok_iff.1 h
  exact ⟨a, u, hr, hf⟩

theorem exactly_append {s t : Octets} {n : Nat} (h : s.length = n) :
    exactly n (s ++ t) = .ok (s, t) := by
  have hlong : ¬ (s ++ t).length < n := by
    rw [List.length_append, h]
    omega
  rw [exactly, if_neg hlong, List.take_left' h, List.drop_left' h]

theorem readBig_append {s t : Octets} {n : Nat} (h : s.length = n) :
    readBig n (s ++ t) = .ok (ofBigEndian s, t) := by
  show ((exactly n (s ++ t)).bind fun r ↦ .ok (ofBigEndian r.1, r.2)) = _
  rw [exactly_append h]
  rfl

theorem readLittle_append {s t : Octets} {n : Nat} (h : s.length = n) :
    readLittle n (s ++ t) = .ok (ofLittleEndian s, t) := by
  show ((exactly n (s ++ t)).bind fun r ↦ .ok (ofLittleEndian r.1, r.2)) = _
  rw [exactly_append h]
  rfl

/-- One octet is read as it is. -/
theorem readBig_cons (b : UInt8) (s : Octets) : readBig 1 (b :: s) = .ok (b.toNat, s) := by
  have h := readBig_append (s := [b]) (t := s) (n := 1) rfl
  rwa [show ofBigEndian [b] = b.toNat by simp [ofBigEndian]] at h

theorem readLittle_cons (b : UInt8) (s : Octets) : readLittle 1 (b :: s) = .ok (b.toNat, s) := by
  have h := readLittle_append (s := [b]) (t := s) (n := 1) rfl
  rwa [show ofLittleEndian [b] = b.toNat by simp [ofLittleEndian, ofBigEndian]] at h

theorem ofBigEndian_lt (s : Octets) : ofBigEndian s < 256 ^ s.length := by
  induction s with
  | nil => exact Nat.zero_lt_one
  | cons b s ih =>
    rw [ofBigEndian_cons, List.length_cons, Nat.pow_succ']
    calc b.toNat * 256 ^ s.length + ofBigEndian s
        < b.toNat * 256 ^ s.length + 256 ^ s.length := Nat.add_lt_add_left ih _
      _ = (b.toNat + 1) * 256 ^ s.length := (Nat.succ_mul ..).symm
      _ ≤ 256 * 256 ^ s.length := Nat.mul_le_mul_right _ b.toNat_lt

theorem bigEndian_add_mul (w n m : Nat) : bigEndian w (n + m * 256 ^ w) = bigEndian w n := by
  induction w generalizing m with
  | zero => rfl
  | succ w ih =>
    have hmul : m * 256 ^ (w + 1) = m * 256 * 256 ^ w := by
      rw [pow_succ]
      ring
    have htop : UInt8.ofNat ((n + m * 256 * 256 ^ w) / 256 ^ w) = UInt8.ofNat (n / 256 ^ w) := by
      rw [Nat.add_mul_div_right _ _ (Nat.pow_pos (by decide)), ← UInt8.toNat_inj, UInt8.toNat_ofNat',
        UInt8.toNat_ofNat']
      exact Nat.add_mul_mod_self_right ..
    rw [bigEndian_succ, bigEndian_succ, hmul, ih, htop]

/-- **Octets are written again by writing the number that they say.** -/
theorem bigEndian_ofBigEndian (s : Octets) : bigEndian s.length (ofBigEndian s) = s := by
  induction s with
  | nil => rfl
  | cons b s ih =>
    have htop : UInt8.ofNat ((b.toNat * 256 ^ s.length + ofBigEndian s) / 256 ^ s.length) = b := by
      rw [Nat.add_comm, Nat.add_mul_div_right _ _ (Nat.pow_pos (by decide)),
        Nat.div_eq_of_lt (ofBigEndian_lt s), Nat.zero_add]
      exact UInt8.ofNat_toNat
    rw [ofBigEndian_cons, List.length_cons, bigEndian_succ, htop, Nat.add_comm, bigEndian_add_mul, ih]

/-- Four octets are a sequence number. -/
theorem exists_bigEndian {s : Octets} (h : s.length = 4) :
    ∃ n : UInt32, s = bigEndian 4 n.toNat := by
  refine ⟨UInt32.ofNat (ofBigEndian s), ?_⟩
  have hlt : ofBigEndian s < 2 ^ 32 := by
    have hbound := ofBigEndian_lt s
    rw [h] at hbound
    exact hbound
  rw [UInt32.toNat_ofNat_of_lt' hlt, ← h, bigEndian_ofBigEndian]

/-- Octets in groups of one size are written forms, if each group is. -/
theorem exists_flatMap {β : Type} {f : β → Octets} {size k : Nat} {s : Octets}
    (hf : ∀ t : Octets, t.length = size → ∃ n, t = f n) (h : s.length = size * k) :
    ∃ l : List β, l.length = k ∧ s = l.flatMap f := by
  induction k generalizing s with
  | zero => exact ⟨[], rfl, List.length_eq_zero_iff.1 h⟩
  | succ k ih =>
    rw [Nat.mul_succ] at h
    obtain ⟨n, hn⟩ := hf (s.take size) (List.length_take_of_le (by omega))
    obtain ⟨l, hl, hs⟩ := ih (s := s.drop size) (by rw [List.length_drop]; omega)
    refine ⟨n :: l, by rw [List.length_cons, hl], ?_⟩
    rw [List.flatMap_cons, ← hn, ← hs, List.take_append_drop]

/-- Octets in groups of four are sequence numbers. -/
theorem exists_flatMap_bigEndian {s : Octets} {k : Nat} (h : s.length = 4 * k) :
    ∃ l : List UInt32, l.length = k ∧ s = l.flatMap fun n ↦ bigEndian 4 n.toNat :=
  exists_flatMap (fun _ ↦ exists_bigEndian) h

theorem readBig_eq_ok {s rest : Octets} {width n : Nat} (h : readBig width s = .ok (n, rest)) :
    ∃ t, t.length = width ∧ s = t ++ rest ∧ n = ofBigEndian t := by
  change (exactly width s).bind (fun r ↦ .ok (ofBigEndian r.1, r.2)) = _ at h
  rw [exactly] at h
  split at h
  · cases h
  · cases h
    exact ⟨s.take width, by rw [List.length_take]; omega, (List.take_append_drop ..).symm, rfl⟩

/-- One octet in front is read as it is. -/
theorem readBig_one_eq_ok {s rest : Octets} {n : Nat} (h : readBig 1 s = .ok (n, rest)) :
    ∃ b : UInt8, s = b :: rest ∧ n = b.toNat := by
  obtain ⟨t, ht, hs, hn⟩ := readBig_eq_ok h
  obtain ⟨b, rfl⟩ := List.length_eq_one_iff.1 ht
  exact ⟨b, hs, by simpa [ofBigEndian] using hn⟩

end Octets

namespace MessageId

/-- **An id that can be read back is read back.** -/
theorem read_encode {id : MessageId} (h : id.Readable) (s : Octets) :
    read (id.encode ++ s) = .ok (id, s) := by
  -- an octet that is no escape ends the id, so each class is told by how many escapes come first
  cases id with
  | high n =>
    have hn : n.toNat ≠ escape.toNat := fun heq ↦ h (UInt8.toNat_inj.1 heq)
    show read (n :: s) = _
    rw [read, Octets.bind_of_eq_ok (Octets.readBig_cons n s), if_pos hn, UInt8.ofNat_toNat]
    rfl
  | medium n =>
    have hn : n.toNat ≠ escape.toNat := fun heq ↦ h (UInt8.toNat_inj.1 heq)
    show read (escape :: n :: s) = _
    rw [read, Octets.bind_of_eq_ok (Octets.readBig_cons escape (n :: s)), if_neg (by simp),
      Octets.bind_of_eq_ok (Octets.readBig_cons n s), if_pos hn, UInt8.ofNat_toNat]
    rfl
  | low n =>
    have hn : Octets.readBig 2 (Octets.bigEndian 2 n.toNat ++ s) = .ok (n.toNat, s) := by
      rw [Octets.readBig_append (Octets.length_bigEndian ..), Octets.ofBigEndian_bigEndian,
        Nat.mod_eq_of_lt (show n.toNat < 256 ^ 2 from n.toNat_lt)]
    show read (escape :: escape :: (Octets.bigEndian 2 n.toNat ++ s)) = _
    rw [read, Octets.bind_of_eq_ok (Octets.readBig_cons escape _), if_neg (by simp),
      Octets.bind_of_eq_ok (Octets.readBig_cons escape _), if_neg (by simp),
      Octets.bind_of_eq_ok hn, UInt16.ofNat_toNat]
    rfl

/-- **An id is read exactly where it is written,** if it can be read back. -/
theorem read_eq_ok_iff {s rest : Octets} {id : MessageId} :
    read s = .ok (id, rest) ↔ id.Readable ∧ s = id.encode ++ rest := by
  refine ⟨fun h ↦ ?_, fun h ↦ h.2 ▸ read_encode h.1 rest⟩
  rw [read] at h
  obtain ⟨n₁, s₁, h₁, hnext⟩ := Octets.exists_of_bind_eq_ok h
  obtain ⟨b₁, rfl, rfl⟩ := Octets.readBig_one_eq_ok h₁
  -- the first octet that is no escape ends the id
  split at hnext
  · rename_i hfirst
    cases hnext
    exact ⟨fun heq ↦ hfirst (by simpa using congrArg UInt8.toNat heq), by simp [encode]⟩
  rename_i hfirst
  obtain rfl : b₁ = escape := UInt8.toNat_inj.1 (not_not.1 hfirst)
  obtain ⟨n₂, s₂, h₂, hlast⟩ := Octets.exists_of_bind_eq_ok hnext
  obtain ⟨b₂, rfl, rfl⟩ := Octets.readBig_one_eq_ok h₂
  split at hlast
  · rename_i hsecond
    cases hlast
    exact ⟨fun heq ↦ hsecond (by simpa using congrArg UInt8.toNat heq), by simp [encode]⟩
  rename_i hsecond
  obtain rfl : b₂ = escape := UInt8.toNat_inj.1 (not_not.1 hsecond)
  obtain ⟨n₃, s₃, h₃, hend⟩ := Octets.exists_of_bind_eq_ok hlast
  obtain ⟨t, ht, rfl, rfl⟩ := Octets.readBig_eq_ok h₃
  cases hend
  have hlt : Octets.ofBigEndian t < 2 ^ 16 := by
    have hbound := Octets.ofBigEndian_lt t
    rw [ht] at hbound
    exact hbound
  refine ⟨trivial, ?_⟩
  rw [encode, UInt16.toNat_ofNat_of_lt' hlt, ← ht, Octets.bigEndian_ofBigEndian]
  rfl

end MessageId

namespace Header

theorem read_cons (b₀ b₁ b₂ b₃ b₄ n : UInt8) (s : Octets) :
    read (b₀ :: b₁ :: b₂ :: b₃ :: b₄ :: n :: s) =
      if s.length < n.toNat then .error (.extraTooShort n.toNat s.length)
      else .ok (⟨Flags.ofOctet b₀, UInt32.ofNat (Octets.ofBigEndian [b₁, b₂, b₃, b₄]),
        s.take n.toNat⟩, s.drop n.toNat) := by
  rw [read, if_neg (by simp [fixedLength])]
  rfl

/-- **A header is read exactly where it is written,** whatever the unused bits of its flags say. -/
theorem read_eq_ok_iff {s rest : Octets} {h : Header} :
    read s = .ok (h, rest) ↔ ∃ first, h.flags = Flags.ofOctet first ∧ h.extra.length < 256 ∧
      s = first :: (Octets.bigEndian 4 h.sequence.toNat ++
        UInt8.ofNat h.extra.length :: (h.extra ++ rest)) := by
  constructor
  · intro hread
    match s, hread with
    | b₀ :: b₁ :: b₂ :: b₃ :: b₄ :: n :: s, hread =>
      rw [read_cons] at hread
      split at hread
      · cases hread
      rename_i henough
      obtain ⟨rfl, rfl⟩ := Prod.mk.inj (Except.ok.inj hread)
      obtain ⟨m, hm⟩ := Octets.exists_bigEndian (s := [b₁, b₂, b₃, b₄]) rfl
      have hlength : (s.take n.toNat).length = n.toNat := by
        rw [List.length_take]
        omega
      have hbound : (s.take n.toNat).length < 256 := by
        rw [hlength]
        exact n.toNat_lt
      refine ⟨b₀, rfl, hbound, ?_⟩
      simp only [hlength, hm, Octets.ofNat_ofBigEndian_bigEndian, List.take_append_drop,
        UInt8.ofNat_toNat]
      rw [← hm]
      rfl
    | [], hread | [_], hread | [_, _], hread | [_, _, _], hread | [_, _, _, _], hread
    | [_, _, _, _, _], hread => cases hread
  · rintro ⟨first, hflags, hextra, rfl⟩
    obtain ⟨flags, sequence, extra⟩ := h
    have hcount : (UInt8.ofNat extra.length).toNat = extra.length := by
      rw [UInt8.toNat_ofNat']
      exact Nat.mod_eq_of_lt hextra
    have hback := Octets.ofNat_ofBigEndian_bigEndian sequence
    dsimp only at hflags ⊢
    -- four octets hold the number, whichever they are
    match hm : Octets.bigEndian 4 sequence.toNat, Octets.length_bigEndian 4 sequence.toNat with
    | [b₁, b₂, b₃, b₄], _ =>
      rw [hm] at hback
      simp only [List.cons_append, List.nil_append]
      rw [read_cons, hcount, if_neg (by simp), hback, ← hflags, List.take_left, List.drop_left]

end Header

/-- What stands behind the body: the acknowledgements and their count, if the flags say so. -/
def Packet.trailer (q : Packet) : Octets :=
  if q.header.flags.appendedAcks then Datagram.ackTrailer q.acks else []

namespace Datagram

variable {mtu : Nat} {d front body octets : Octets} {acks : List UInt32} {q : Packet}

theorem map_pieces_bigEndian (l : List UInt32) :
    readAcks (l.flatMap fun n ↦ Octets.bigEndian 4 n.toNat) = l := by
  rw [readAcks, List.flatMap, Octets.pieces_flatten (by decide), List.map_map]
  · refine (List.map_congr_left fun n _ ↦ ?_).trans (List.map_id l)
    exact Octets.ofNat_ofBigEndian_bigEndian n
  · intro s hs
    obtain ⟨n, -, rfl⟩ := List.mem_map.1 hs
    exact Octets.length_bigEndian ..

/-- What acknowledgements are written behind is left when they are cut off, if it is long enough. -/
theorem splitAcks_append (hflags : (Datagram.flags (front ++ ackTrailer acks)).appendedAcks = true)
    (hacks : acks.length ≤ maxAppendedAcks) :
    splitAcks (front ++ ackTrailer acks) =
      if front.length < minLength then
        .error (.acksTooShort (front ++ ackTrailer acks).length acks.length)
      else .ok (front, acks) := by
  have hcount : ((front ++ ackTrailer acks).getLastD 0).toNat = acks.length := by
    rw [getLastD_ackTrailer, UInt8.toNat_ofNat']
    exact Nat.mod_eq_of_lt (Nat.lt_succ_of_le hacks)
  have hlength : (front ++ ackTrailer acks).length = front.length + (4 * acks.length + 1) := by
    rw [List.length_append, length_ackTrailer]
  have hnumbers : (acks.flatMap fun n ↦ Octets.bigEndian 4 n.toNat).length = 4 * acks.length := by
    simp [List.length_flatMap, Nat.mul_comm]
  simp only [splitAcks, hflags, if_true, hcount, hlength, Nat.add_sub_cancel, Nat.add_lt_add_iff_right]
  rw [List.take_left, List.drop_left, ackTrailer, List.take_left' hnumbers, map_pieces_bigEndian]

/-- Octets whose last one counts groups of four in front of it end with acknowledgements. -/
theorem exists_ackTrailer (h : 4 * (d.getLastD 0).toNat + 1 ≤ d.length) :
    ∃ front acks, acks.length ≤ maxAppendedAcks ∧ d = front ++ ackTrailer acks := by
  generalize hcount : (d.getLastD 0).toNat = count at h
  generalize hbehind : d.drop (d.length - (4 * count + 1)) = behind
  have hd : d = d.take (d.length - (4 * count + 1)) ++ behind := by
    rw [← hbehind, List.take_append_drop]
  have hlength : behind.length = 4 * count + 1 := by
    rw [← hbehind, List.length_drop]
    omega
  obtain ⟨numbers, hnumbers, hgroups⟩ :=
    Octets.exists_flatMap_bigEndian (s := behind.take (4 * count)) (k := count)
      (by rw [List.length_take]; omega)
  obtain ⟨last, hlast⟩ := List.length_eq_one_iff.1
    (show (behind.drop (4 * count)).length = 1 by rw [List.length_drop]; omega)
  have hsplit : behind = (numbers.flatMap fun n ↦ Octets.bigEndian 4 n.toNat) ++ [last] := by
    rw [← hgroups, ← hlast, List.take_append_drop]
  -- the octet behind the numbers is the one that counts them
  have hsame : last.toNat = count := by
    rw [← hcount, hd, hsplit]
    simp [← List.append_assoc]
  have htrailer : behind = ackTrailer numbers := by
    rw [hsplit, ackTrailer, hnumbers, ← hsame, UInt8.ofNat_toNat]
  refine ⟨_, numbers, ?_, htrailer ▸ hd⟩
  rw [hnumbers, ← hsame]
  exact Nat.le_of_lt_succ last.toNat_lt

/-- **Acknowledgements are cut off exactly where they are written,** behind octets that are long enough
for a datagram. -/
theorem splitAcks_eq_ok_iff :
    splitAcks d = .ok (front, acks) ↔
      if (Datagram.flags d).appendedAcks then
        minLength ≤ front.length ∧ acks.length ≤ maxAppendedAcks ∧ d = front ++ ackTrailer acks
      else d = front ∧ acks = [] := by
  cases hflags : (Datagram.flags d).appendedAcks with
  | false => simp [splitAcks, hflags, eq_comm]
  | true =>
    rw [if_pos rfl]
    constructor
    · intro h
      have hlong : 4 * (d.getLastD 0).toNat + 1 ≤ d.length := by
        by_contra hshort
        simp only [splitAcks, hflags, if_true] at h
        rw [if_pos (by omega)] at h
        cases h
      obtain ⟨front', acks', hacks, rfl⟩ := exists_ackTrailer hlong
      rw [splitAcks_append hflags hacks] at h
      split at h
      · cases h
      · rename_i hfront
        obtain ⟨rfl, rfl⟩ := Prod.mk.inj (Except.ok.inj h)
        exact ⟨Nat.le_of_not_lt hfront, hacks, rfl⟩
    · rintro ⟨hfront, hacks, rfl⟩
      rw [splitAcks_append hflags hacks, if_neg (Nat.not_lt.2 hfront)]

/-- **A body is expanded** when its octets are to be expanded and fit, and left as it is otherwise. -/
theorem expandBody_eq_ok_iff {f : Flags} (h : expansionFactor * mtu < 2 ^ 64) :
    expandBody mtu f body = .ok octets ↔
      if f.zeroCoded then ZeroRuns.decode (expansionFactor * mtu) body = ⟨octets, none⟩
      else octets = body := by
  rw [expandBody]
  cases f.zeroCoded with
  | false => simp [eq_comm]
  | true =>
    have hlimit : within64 (expansionFactor * mtu) = .ok (expansionFactor * mtu) :=
      within64_eq_ok_iff.2 ⟨h, rfl⟩
    simp only [if_true, hlimit, Failure.ofFault_ok, bind, Except.bind]
    obtain ⟨o, stopped⟩ := ZeroRuns.decode (expansionFactor * mtu) body
    cases stopped <;> simp [pure, Except.pure, throw, throwThe, MonadExceptOf.throw]

/-- What a body without octets expands to says nothing. -/
theorem ne_nil_of_splitId {f : Flags} {r : MessageId × Octets}
    (h : expandBody mtu f body = .ok octets) (hid : splitId octets = .ok r) : body ≠ [] := by
  rintro rfl
  have hnil : octets = [] := by
    rw [expandBody] at h
    split at h
    · obtain ⟨limit, -, h⟩ := bind_eq_ok_iff.1 h
      obtain rfl := Except.ok.inj h
      rfl
    · obtain rfl := Except.ok.inj h
      rfl
  rw [hnil] at hid
  cases hid

/-- The octets are a written form of the packet, with the given octets as flags and body. The unused bits
of the flags mean nothing, and a body that is coded may be coded in several ways. -/
structure Writes (mtu : Nat) (d : Octets) (q : Packet) (first : UInt8) (body : Octets) : Prop where
  octets : d = first :: (Octets.bigEndian 4 q.header.sequence.toNat ++
    UInt8.ofNat q.header.extra.length :: (q.header.extra ++ (body ++ q.trailer)))
  flags : q.header.flags = Flags.ofOctet first
  extra : q.header.extra.length < 256
  acks : q.acks.length ≤ maxAppendedAcks
  noAcks : q.header.flags.appendedAcks = false → q.acks = []
  readable : q.id.Readable
  expands : expandBody mtu q.header.flags body = .ok (q.id.encode ++ q.payload)

theorem splitId_eq_ok_iff {id : MessageId} {payload : Octets} :
    splitId octets = .ok (id, payload) ↔ id.Readable ∧ octets = id.encode ++ payload := by
  rw [splitId, mapError_eq_ok_iff, MessageId.read_eq_ok_iff]

/-- A packet is read from one of its written forms only. -/
theorem exists_writes_of_parse (h : parse mtu d = .ok q) : ∃ first body, Writes mtu d q first body := by
  rw [parse] at h
  split at h
  · cases h
  obtain ⟨⟨front, acks⟩, hsplit, h⟩ := bind_eq_ok_iff.1 h
  rw [Failure.ofRefusal, mapError_eq_ok_iff, splitAcks_eq_ok_iff] at hsplit
  obtain ⟨⟨header, body⟩, hheader, h⟩ := bind_eq_ok_iff.1 h
  rw [Failure.ofRefusal, mapError_eq_ok_iff, mapError_eq_ok_iff, Header.read_eq_ok_iff] at hheader
  obtain ⟨octets, hoctets, h⟩ := bind_eq_ok_iff.1 h
  obtain ⟨⟨id, payload⟩, hid, h⟩ := bind_eq_ok_iff.1 h
  rw [Failure.ofRefusal, mapError_eq_ok_iff, splitId_eq_ok_iff] at hid
  obtain rfl := Except.ok.inj h
  obtain ⟨first, hflags, hextra, hfront⟩ := hheader
  obtain ⟨hreadable, rfl⟩ := hid
  -- the flags in front of the header are those of the datagram
  have hfirst : Datagram.flags d = header.flags := by
    have hhead : d.headD 0 = first := by
      split at hsplit
      · rw [hsplit.2.2, hfront]
        rfl
      · rw [hsplit.1, hfront]
        rfl
    rw [Datagram.flags, hhead, hflags]
  rw [hfirst] at hsplit
  refine ⟨first, body, ?_, hflags, hextra, ?_, ?_, hreadable, hoctets⟩
  · cases happended : header.flags.appendedAcks with
    | true =>
      simp only [happended, if_true] at hsplit
      rw [hsplit.2.2, hfront]
      simp [Packet.trailer, happended]
    | false =>
      simp only [happended, Bool.false_eq_true, if_false] at hsplit
      rw [hsplit.1, hfront]
      simp [Packet.trailer, happended]
  · split at hsplit
    · exact hsplit.2.1
    · rw [hsplit.2]
      exact Nat.zero_le _
  · intro (hnone : header.flags.appendedAcks = false)
    simp only [hnone, Bool.false_eq_true, if_false] at hsplit
    exact hsplit.2

/-- A packet is read from all of its written forms. -/
theorem Writes.parse_eq_ok {first : UInt8} (h : Writes mtu d q first body) : parse mtu d = .ok q := by
  generalize hfront : first :: (Octets.bigEndian 4 q.header.sequence.toNat ++
    UInt8.ofNat q.header.extra.length :: (q.header.extra ++ body)) = front
  have hsplitId : splitId (q.id.encode ++ q.payload) = .ok (q.id, q.payload) :=
    splitId_eq_ok_iff.2 ⟨h.readable, rfl⟩
  have hpos := List.length_pos_iff.2 (ne_nil_of_splitId h.expands hsplitId)
  have hlong : minLength ≤ front.length := by
    rw [← hfront, minLength, Header.fixedLength]
    simp only [List.length_cons, List.length_append, Octets.length_bigEndian]
    omega
  have hd : d = front ++ q.trailer := by
    rw [h.octets, ← hfront]
    simp
  have hflags : Datagram.flags d = q.header.flags := by
    rw [h.octets, h.flags]
    rfl
  have hsplit : splitAcks d = .ok (front, q.acks) := by
    rw [splitAcks_eq_ok_iff, hflags]
    cases happended : q.header.flags.appendedAcks with
    | true => exact ⟨hlong, h.acks, by rw [hd, Packet.trailer, if_pos happended]⟩
    | false =>
      refine ⟨?_, h.noAcks happended⟩
      rw [hd, Packet.trailer, if_neg (by simp [happended]), List.append_nil]
  have hheader : Header.read front = .ok (q.header, body) :=
    Header.read_eq_ok_iff.2 ⟨first, h.flags, h.extra, hfront.symm⟩
  have henough : ¬ d.length < minLength := by
    rw [hd, List.length_append]
    omega
  rw [parse, if_neg henough]
  refine bind_eq_ok_iff.2 ⟨(front, q.acks), by rw [hsplit]; rfl, ?_⟩
  refine bind_eq_ok_iff.2 ⟨(q.header, body), ?_, ?_⟩
  · show Failure.ofRefusal ((Header.read front).mapError Error.header) = _
    rw [hheader]
    rfl
  refine bind_eq_ok_iff.2 ⟨_, h.expands, bind_eq_ok_iff.2 ⟨(q.id, q.payload), ?_, rfl⟩⟩
  rw [hsplitId]
  rfl

/-- **A packet is read exactly from its written forms.** -/
theorem parse_eq_ok_iff : parse mtu d = .ok q ↔ ∃ first body, Writes mtu d q first body := by
  refine ⟨exists_writes_of_parse, ?_⟩
  rintro ⟨first, body, h⟩
  exact h.parse_eq_ok

/-! ### What is sent -/

variable {f : Flags} {n : UInt32} {id : MessageId} {payload : Octets}

/-- Acknowledgements behind a body are found. -/
theorem splitAcks_wire_eq_ok (hf : f.appendedAcks = false) (hbody : body ≠ [])
    (hacks : acks.length ≤ maxAppendedAcks) :
    splitAcks (wire f n body acks) =
      .ok (plain { f with appendedAcks := !acks.isEmpty } n body, acks) := by
  rw [splitAcks_eq_ok_iff, flags_wire hf]
  by_cases hnil : acks = []
  · obtain ⟨reliable, resent, zeroCoded, appended⟩ := f
    cases hf
    simp [hnil]
  · have hpos := List.length_pos_iff.2 hbody
    have hsome : (!acks.isEmpty) = true := by simpa using hnil
    rw [hsome, if_pos rfl, wire_of_ne_nil n body hnil]
    refine ⟨?_, hacks, by rw [plain, plain, List.append_assoc]⟩
    rw [length_plain, minLength]
    omega

/-- **A finished datagram is read as it was made,** with whatever acknowledgements travel with it, as soon
as its body says what it is about. -/
theorem parse_wire_eq_ok (hf : f.appendedAcks = false) (hacks : acks.length ≤ maxAppendedAcks)
    (hid : id.Readable) (hbody : expandBody mtu f body = .ok (id.encode ++ payload)) :
    parse mtu (wire f n body acks) =
      .ok ⟨⟨{ f with appendedAcks := !acks.isEmpty }, n, []⟩, id, payload, acks⟩ := by
  have hextra : ([] : Octets).length < 256 := Nat.zero_lt_succ 255
  refine parse_eq_ok_iff.2 ⟨{ f with appendedAcks := !acks.isEmpty : Flags }.toOctet, body, ?_,
    (Flags.ofOctet_toOctet _).symm, hextra, hacks, fun hnone ↦ by simpa using hnone, hid, hbody⟩
  by_cases hnil : acks = []
  · obtain ⟨reliable, resent, zeroCoded, appended⟩ := f
    cases hf
    simp [hnil, plain_eq, Packet.trailer]
  · have hsome : (!acks.isEmpty) = true := by simpa using hnil
    rw [wire_of_ne_nil n body hnil, plain_eq, hsome]
    simp [Packet.trailer]

end Datagram

end DatagramCircuits
