import DatagramCircuits.Datagram.Checked
import DatagramCircuits.Proofs.Grammar
/-!
# What is accepted

Any octets may arrive, and what becomes of them is settled by their form alone. A reader never goes
outside of them (`Datagram.parseChecked_eq_parse`, `Datagram.parse_ne_fault`); it accepts the octets that
consist of the parts of a datagram and refuses all others; and a packet that it found, written again,
gives back the octets that it was read from, up to unused bits and to the coding of zeros.
-/

namespace DatagramCircuits

/-! ### Checked access -/

namespace Octets

variable {s : Octets}

theorem difference_of_le {m n : Nat} (h : n ≤ m) : difference m n = .ok (m - n) := by
  rw [difference, if_neg (by omega)]

theorem divide_of_le {n : Nat} (h : n ≤ s.length) : divide n s = .ok (s.take n, s.drop n) := by
  rw [divide, if_neg (by omega)]

/-- The last octet of some octets is at the place in front of their length. -/
theorem octetAt_last (h : s ≠ []) : octetAt (s.length - 1) s = .ok (s.getLastD 0) := by
  rw [octetAt, ← List.getLast?_eq_getElem?, List.getLastD_eq_getLast?, List.getLast?_eq_some_getLast h]
  rfl

theorem nextNumber_of_le (h : 4 ≤ s.length) :
    nextNumber s = .ok (UInt32.ofNat (ofBigEndian (s.take 4)), s.drop 4) := by
  rw [nextNumber, divide_of_le h]
  rfl

/-- As many numbers as there is room for are those that groups of four octets say. -/
theorem nextNumbers_of_le {count : Nat} (h : 4 * count ≤ s.length) :
    nextNumbers count s = .ok (Datagram.readAcks (s.take (4 * count))) := by
  induction count generalizing s with
  | zero => simp [nextNumbers, Datagram.readAcks]
  | succ count ih =>
    have hgroup : s.take (4 * (count + 1)) = s.take 4 ++ (s.drop 4).take (4 * count) := by
      rw [Nat.mul_succ, Nat.add_comm, List.take_add]
    have hfour : (s.take 4).length = 4 := by
      rw [List.length_take]
      omega
    rw [nextNumbers, nextNumber_of_le (by omega), hgroup, Datagram.readAcks,
      pieces_append (by decide) hfour]
    simp only [bind, Except.bind]
    rw [ih (s := s.drop 4) (by rw [List.length_drop]; omega)]
    rfl

end Octets

namespace Datagram

variable {mtu : Nat} {d : Octets}

theorem splitAcksChecked_eq (h : minLength ≤ d.length) :
    splitAcksChecked d = Failure.ofRefusal (splitAcks d) := by
  rw [splitAcksChecked, splitAcks]
  split
  · have hne : d ≠ [] := by
      rintro rfl
      exact absurd h (by decide)
    have hlast : Octets.difference d.length 1 = .ok (d.length - 1) :=
      Octets.difference_of_le (List.length_pos_iff.2 hne)
    simp only [hlast, Octets.octetAt_last hne, Failure.ofFault_ok, bind, Except.bind]
    generalize d.getLastD 0 = count
    split
    · rfl
    · rename_i hlong
      -- the trailer is shorter than the datagram, and as long as its numbers need
      have hplace : 4 * count.toNat + 1 ≤ d.length := by omega
      have hbehind : 4 * count.toNat ≤ (d.drop (d.length - (4 * count.toNat + 1))).length := by
        rw [List.length_drop]
        omega
      simp only [Octets.difference_of_le hplace, Octets.divide_of_le (Nat.sub_le ..),
        Octets.nextNumbers_of_le hbehind, Failure.ofFault_ok]
      rfl
  · rfl

theorem readHeaderChecked_eq (s : Octets) :
    readHeaderChecked s = Failure.ofRefusal ((Header.read s).mapError .header) := by
  match s with
  | b₀ :: b₁ :: b₂ :: b₃ :: b₄ :: n :: s =>
    rw [readHeaderChecked, Header.read_cons, if_neg (by simp [Header.fixedLength])]
    have hfour : 4 ≤ (b₁ :: b₂ :: b₃ :: b₄ :: n :: s).length := by simp
    simp only [Octets.nextOctet, Octets.nextNumber_of_le hfour, Failure.ofFault_ok, bind, Except.bind,
      pure, Except.pure, List.take_succ_cons, List.take_zero, List.drop_succ_cons, List.drop_zero]
    split
    · rfl
    · rename_i henough
      rw [Octets.divide_of_le (Nat.le_of_not_lt henough)]
      rfl
  | [] | [_] | [_, _] | [_, _, _] | [_, _, _, _] | [_, _, _, _, _] => rfl

/-- **The reader with checked access is the same.** -/
theorem parseChecked_eq_parse (mtu : Nat) (d : Octets) : parseChecked mtu d = parse mtu d := by
  rw [parseChecked, parse]
  split
  · rfl
  · rename_i hlong
    rw [splitAcksChecked_eq (Nat.le_of_not_lt hlong)]
    simp only [readHeaderChecked_eq]

theorem parse_ne_fault (h : expansionFactor * mtu < 2 ^ 64) (fault : Fault) :
    parse mtu d ≠ .error (.fault fault) := by
  intro hparse
  rw [parse] at hparse
  split at hparse
  · cases hparse
  rcases bind_eq_error_iff.1 hparse with hfault | ⟨⟨front, acks⟩, -, hparse⟩
  · exact Failure.ofRefusal_ne_fault _ _ hfault
  rcases bind_eq_error_iff.1 hparse with hfault | ⟨⟨header, rest⟩, -, hparse⟩
  · exact Failure.ofRefusal_ne_fault _ _ hfault
  rcases bind_eq_error_iff.1 hparse with hfault | ⟨body, -, hparse⟩
  · -- the limit for the expansion is within its range
    have hlimit : within64 (expansionFactor * mtu) = .ok (expansionFactor * mtu) :=
      within64_eq_ok_iff.2 ⟨h, rfl⟩
    rw [expandBody, hlimit] at hfault
    split at hfault
    · simp only [Failure.ofFault_ok, bind, Except.bind] at hfault
      split at hfault <;> cases hfault
    · cases hfault
  rcases bind_eq_error_iff.1 hparse with hfault | ⟨r, -, hparse⟩
  · exact Failure.ofRefusal_ne_fault _ _ hfault
  · cases hparse

/-! ### The parts of a datagram -/

/-- The parts of a datagram, in the order in which they are written. The extra octets are counted in
front of them. -/
structure Parts where
  /-- The flags. -/
  first : UInt8
  /-- The sequence number. -/
  sequence : Octets
  /-- The extra octets of the header. -/
  extra : Octets
  /-- The body. -/
  body : Octets
  /-- What follows the body. -/
  trailer : Octets

/-- The parts one after the other. -/
def Parts.octets (x : Parts) : Octets :=
  [x.first] ++ x.sequence ++ [UInt8.ofNat x.extra.length] ++ x.extra ++ x.body ++ x.trailer

/-- The octets start with a message id that is complete. -/
def StartsWithId (s : Octets) : Prop :=
  ∃ id payload, MessageId.Readable id ∧ s = id.encode ++ payload

/-- The parts are those of a datagram. Bit 3 of the flags stands for acknowledgements in groups of four
octets, followed by their count, and bit 2 for a body to be expanded. -/
structure Parts.Proper (mtu : Nat) (x : Parts) : Prop where
  sequence : x.sequence.length = 4
  extra : x.extra.length < 256
  trailer :
    if x.first.toNat.testBit 3 then
      ∃ k numbers, k < 256 ∧ numbers.length = 4 * k ∧ x.trailer = numbers ++ [UInt8.ofNat k]
    else x.trailer = []
  body :
    if x.first.toNat.testBit 2 then
      ∃ octets, ZeroRuns.decode (expansionFactor * mtu) x.body = ⟨octets, none⟩ ∧
        StartsWithId octets
    else StartsWithId x.body

variable {q : Packet} {first : UInt8} {body : Octets}

/-- A written form of a packet consists of the parts of a datagram. -/
theorem Writes.exists_proper (hmtu : expansionFactor * mtu < 2 ^ 64) (h : Writes mtu d q first body) :
    ∃ x : Parts, x.octets = d ∧ x.Proper mtu := by
  have happended : q.header.flags.appendedAcks = first.toNat.testBit 3 := by rw [h.flags]; rfl
  have hcoded : q.header.flags.zeroCoded = first.toNat.testBit 2 := by rw [h.flags]; rfl
  have hexpands := (expandBody_eq_ok_iff hmtu).1 h.expands
  have hstarts : StartsWithId (q.id.encode ++ q.payload) := ⟨q.id, q.payload, h.readable, rfl⟩
  refine ⟨⟨first, Octets.bigEndian 4 q.header.sequence.toNat, q.header.extra, body, q.trailer⟩, ?_,
    Octets.length_bigEndian .., h.extra, ?_, ?_⟩
  · rw [h.octets]
    simp [Parts.octets]
  · dsimp only
    rw [← happended, Packet.trailer]
    split
    · refine ⟨q.acks.length, q.acks.flatMap fun n ↦ Octets.bigEndian 4 n.toNat,
        Nat.lt_succ_of_le h.acks, ?_, rfl⟩
      simp [List.length_flatMap, Nat.mul_comm]
    · rfl
  · dsimp only
    rw [← hcoded]
    split
    · rename_i hcoded
      rw [if_pos hcoded] at hexpands
      exact ⟨_, hexpands, hstarts⟩
    · rename_i hplain
      rw [if_neg hplain] at hexpands
      exact hexpands ▸ hstarts

/-- What follows the body of a datagram is the trailer of some acknowledgements, or nothing. -/
theorem Parts.Proper.exists_acks {x : Parts} (h : x.Proper mtu) :
    ∃ acks : List UInt32, acks.length ≤ maxAppendedAcks ∧
      ((Flags.ofOctet x.first).appendedAcks = false → acks = []) ∧
      x.trailer = if (Flags.ofOctet x.first).appendedAcks then ackTrailer acks else [] := by
  have htrailer := h.trailer
  by_cases happended : x.first.toNat.testBit 3 = true
  · rw [if_pos happended] at htrailer
    obtain ⟨k, numbers, hk, hnumbers, htrailer⟩ := htrailer
    obtain ⟨acks, rfl, rfl⟩ := Octets.exists_flatMap_bigEndian hnumbers
    refine ⟨acks, Nat.le_of_lt_succ hk, fun hno ↦ ?_, ?_⟩
    · exact absurd (happended.symm.trans hno) (by simp)
    · rw [htrailer]
      exact (if_pos happended).symm
  · rw [if_neg happended] at htrailer
    refine ⟨[], Nat.zero_le _, fun _ ↦ rfl, ?_⟩
    rw [htrailer]
    exact (if_neg happended).symm

/-- The body of a datagram is read as a message id and a payload. -/
theorem Parts.Proper.exists_id (hmtu : expansionFactor * mtu < 2 ^ 64) {x : Parts}
    (h : x.Proper mtu) :
    ∃ id payload, MessageId.Readable id ∧
      expandBody mtu (Flags.ofOctet x.first) x.body = .ok (id.encode ++ payload) := by
  have hbody := h.body
  by_cases hcoded : x.first.toNat.testBit 2 = true
  · rw [if_pos hcoded] at hbody
    obtain ⟨octets, hoctets, id, payload, hid, rfl⟩ := hbody
    refine ⟨id, payload, hid, (expandBody_eq_ok_iff hmtu).2 ?_⟩
    exact (if_pos hcoded).symm ▸ hoctets
  · rw [if_neg hcoded] at hbody
    obtain ⟨id, payload, hid, hplain⟩ := hbody
    refine ⟨id, payload, hid, (expandBody_eq_ok_iff hmtu).2 ?_⟩
    exact (if_neg hcoded).symm ▸ hplain.symm

/-- The parts of a datagram are a written form of a packet. -/
theorem Parts.Proper.exists_writes (hmtu : expansionFactor * mtu < 2 ^ 64) {x : Parts}
    (h : x.Proper mtu) : ∃ q, Writes mtu x.octets q x.first x.body := by
  obtain ⟨n, hn⟩ := Octets.exists_bigEndian h.sequence
  obtain ⟨acks, hlen, hnone, htrailer⟩ := h.exists_acks
  obtain ⟨id, payload, hid, hexpands⟩ := h.exists_id hmtu
  refine ⟨⟨⟨Flags.ofOctet x.first, n, x.extra⟩, id, payload, acks⟩, ?_, rfl, h.extra, hlen, hnone, hid,
    hexpands⟩
  rw [Parts.octets, hn, htrailer]
  simp [Packet.trailer]

end Datagram

/-! ### Packets written again -/

/-- The mask for the bits of the flags that are in use. -/
def Flags.usedBits : UInt8 := 0x0F

theorem Flags.toOctet_ofOctet (b : UInt8) : (ofOctet b).toOctet = b &&& usedBits := by
  have hall : ∀ i : Fin 256,
      (ofOctet (UInt8.ofNat i)).toOctet = UInt8.ofNat i &&& usedBits := by decide +kernel
  have hb := hall ⟨b.toNat, b.toNat_lt⟩
  rwa [UInt8.ofNat_toNat] at hb

/-- The packet written with its body as it is: header, message id, payload, acknowledgements and, if the
flags say so, their count. -/
def Packet.encode (q : Packet) : Except Fault Octets := do
  let header ← q.header.encode
  let count ← Octets.countOctet q.acks.length
  let numbers := q.acks.flatMap fun n ↦ Octets.bigEndian 4 n.toNat
  return header ++ q.id.encode ++ q.payload ++ numbers ++
    if q.header.flags.appendedAcks then [count] else []

namespace Datagram

variable {mtu : Nat} {d body : Octets} {q : Packet} {first : UInt8}

/-- **A packet whose body is not coded is written again as it was read,** without the unused bits. -/
theorem Writes.encode_eq (h : Writes mtu d q first body) (hplain : q.header.flags.zeroCoded = false) :
    q.encode = .ok (d.modifyHead (· &&& Flags.usedBits)) := by
  have hbody : q.id.encode ++ q.payload = body := by
    have hexpands := h.expands
    rw [expandBody, hplain] at hexpands
    exact (Except.ok.inj hexpands).symm
  have hheader : q.header.encode = .ok q.header.octets := by
    rw [Header.encode, Octets.countOctet, if_pos h.extra]
    rfl
  have hcount : Octets.countOctet q.acks.length = .ok (UInt8.ofNat q.acks.length) := by
    rw [Octets.countOctet, if_pos (show q.acks.length < 256 from Nat.lt_succ_of_le h.acks)]
  have htrailer : (q.acks.flatMap fun n ↦ Octets.bigEndian 4 n.toNat) ++
      (if q.header.flags.appendedAcks then [UInt8.ofNat q.acks.length] else []) = q.trailer := by
    rw [Packet.trailer]
    split
    · rfl
    · rename_i hno
      rw [h.noAcks (by simpa using hno)]
      rfl
  rw [Packet.encode, hheader, hcount]
  simp only [bind, Except.bind, pure, Except.pure, Except.ok.injEq]
  rw [List.append_assoc, htrailer, List.append_assoc q.header.octets, hbody, h.octets,
    List.modifyHead_cons, Header.octets, h.flags, Flags.toOctet_ofOctet]
  simp

/-- **Octets are accepted when they are a datagram,** and refused otherwise; nothing is read outside of
them. What was read is written again as it was, but for the unused bits and the coding of zeros. -/
theorem accepts_exactly (mtu : Nat) (d : Octets) (hmtu : 8 * mtu < 2 ^ 64) :
    parseChecked mtu d = parse mtu d ∧ (∀ fault, parse mtu d ≠ .error (.fault fault)) ∧
      ((∃ q, parse mtu d = .ok q) ↔ ∃ x : Parts, x.octets = d ∧ x.Proper mtu) ∧
      ∀ q, parse mtu d = .ok q → (Datagram.flags d).zeroCoded = false →
        q.encode = .ok (d.modifyHead (· &&& Flags.usedBits)) := by
  refine ⟨parseChecked_eq_parse mtu d, parse_ne_fault hmtu, ⟨?_, ?_⟩, ?_⟩
  · rintro ⟨q, hq⟩
    obtain ⟨first, body, hwrites⟩ := parse_eq_ok_iff.1 hq
    exact hwrites.exists_proper hmtu
  · rintro ⟨x, rfl, hproper⟩
    obtain ⟨q, hwrites⟩ := hproper.exists_writes hmtu
    exact ⟨q, parse_eq_ok_iff.2 ⟨_, _, hwrites⟩⟩
  · intro q hq hplain
    obtain ⟨first, body, hwrites⟩ := parse_eq_ok_iff.1 hq
    refine hwrites.encode_eq ?_
    rw [hwrites.flags]
    rw [hwrites.octets] at hplain
    exact hplain

/-- A datagram with unused bits in its flags, two extra octets and one acknowledgement. -/
def annotated : Octets :=
  [0xF9, 0, 0, 0, 7, 2, 9, 9, 5, 1, 2, 3, 0, 0, 1, 4, 1]

theorem accepts_annotated : 8 * 128 < 2 ^ 64 ∧ (Datagram.flags annotated).zeroCoded = false ∧
    ∃ q, parseChecked 128 annotated = .ok q ∧ q.header.extra = [9, 9] ∧ q.acks = [260] ∧
      q.encode = .ok (0x09 :: annotated.tail) := by
  obtain ⟨hchecked, -, -, hagain⟩ := accepts_exactly 128 annotated (by decide)
  obtain ⟨q, hq, htest⟩ := exists_eq_ok_of_any (x := parse 128 annotated)
    (p := fun q ↦ decide (q.header.extra = [9, 9] ∧ q.acks = [260])) (by decide +kernel)
  obtain ⟨hextra, hacks⟩ := of_decide_eq_true htest
  exact ⟨by decide, by decide, q, hchecked.trans hq, hextra, hacks, hagain q hq (by decide)⟩

end Datagram

end DatagramCircuits
