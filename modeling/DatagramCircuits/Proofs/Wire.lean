import DatagramCircuits.Datagram.Framing
import DatagramCircuits.Delivery.Outgoing
import DatagramCircuits.Proofs.Octets
/-!
# The shape of a datagram that is sent

What leaves a circuit has one shape: flags, sequence number, no extra octets, a body, and possibly
acknowledgements behind it. `Datagram.plain` is the shape without acknowledgements, which framing makes
and queues hold; `Datagram.wire` is the shape with them.

What is done to a finished datagram stays within the shape: another sequence number
(`setSequence_plain`), other flags (`setFlags_plain`), appended acknowledgements (`appendAcks_plain`).

**What a datagram is apart from its transmission is `Datagram.bare`.** It takes off the trailer of
acknowledgements and the two flags that say how the datagram was sent, and nothing else. `bare_wire`
gets the plain datagram back, whatever acknowledgements travelled with it.
-/

namespace DatagramCircuits

namespace Datagram

/-- The sequence number in a datagram. -/
def sequence (d : Octets) : UInt32 :=
  UInt32.ofNat (Octets.ofBigEndian ((d.drop 1).take 4))

/-- How many octets the appended acknowledgements take up, with their count. -/
def trailerLength (d : Octets) : Nat :=
  if (Datagram.flags d).appendedAcks then 4 * (d.getLastD 0).toNat + 1 else 0

/-- The bits that are left when the flags for a datagram that was sent before and for appended
acknowledgements are cleared. -/
def bareMask : UInt8 := 0xF5

/-- The datagram without its acknowledgements, and without the flags that say that there are some and
that it was sent before. -/
def bare (d : Octets) : Octets :=
  (d.take (d.length - trailerLength d)).modifyHead (· &&& bareMask)

/-- The datagram of a body, without extra octets and without acknowledgements. -/
def plain (f : Flags) (n : UInt32) (body : Octets) : Octets :=
  ({ flags := f, sequence := n } : Header).octets ++ body

/-- The datagram of a body with acknowledgements behind it. -/
def wire (f : Flags) (n : UInt32) (body : Octets) (acks : List UInt32) : Octets :=
  if acks.isEmpty then plain f n body
  else plain { f with appendedAcks := true } n (body ++ ackTrailer acks)

/-- The octets of a plain datagram, one part after another. -/
theorem plain_eq (f : Flags) (n : UInt32) (body : Octets) :
    plain f n body = f.toOctet :: (Octets.bigEndian 4 n.toNat ++ 0 :: body) := by
  simp [plain, Header.octets]

@[simp] theorem length_plain (f : Flags) (n : UInt32) (body : Octets) :
    (plain f n body).length = Header.fixedLength + body.length := by
  simp only [plain_eq, List.length_cons, List.length_append, Octets.length_bigEndian,
    Header.fixedLength]
  omega

@[simp] theorem flags_plain (f : Flags) (n : UInt32) (body : Octets) :
    Datagram.flags (plain f n body) = f := by
  simp [Datagram.flags, plain_eq]

@[simp] theorem sequence_plain (f : Flags) (n : UInt32) (body : Octets) :
    sequence (plain f n body) = n := by
  have hfield : ((plain f n body).drop 1).take 4 = Octets.bigEndian 4 n.toNat := by
    rw [plain_eq, List.drop_one, List.tail_cons, List.take_left' (Octets.length_bigEndian ..)]
  rw [sequence, hfield, Octets.ofNat_ofBigEndian_bigEndian]

/-- Another sequence number replaces the one in the header, and nothing else. -/
theorem setSequence_plain (f : Flags) (n n' : UInt32) (body : Octets) :
    setSequence n' (plain f n body) = .ok (plain f n' body) := by
  have hlong : ¬ (plain f n body).length < 5 := by
    rw [length_plain, Header.fixedLength]
    omega
  have hrest : (plain f n body).drop 5 = 0 :: body := by
    rw [plain_eq, List.drop_succ_cons, List.drop_left' (Octets.length_bigEndian ..)]
  rw [setSequence, if_neg hlong, hrest, plain_eq, plain_eq]
  rfl

/-- Other flags replace those in the header, and nothing else. -/
theorem setFlags_plain (f f' : Flags) (n : UInt32) (body : Octets) :
    setFlags f' (plain f n body) = .ok (plain f' n body) := by
  rw [plain_eq, plain_eq]
  rfl

/-- A datagram keeps its length when it is numbered. -/
theorem length_of_setSequence {n : UInt32} {d d' : Octets} (h : setSequence n d = .ok d') :
    d'.length = d.length := by
  rw [setSequence] at h
  split at h
  · cases h
  · obtain rfl := Except.ok.inj h
    simp only [List.length_append, List.length_take, List.length_drop, Octets.length_bigEndian]
    omega

/-- A datagram keeps its length when it is flagged. -/
theorem length_of_setFlags {f : Flags} {d d' : Octets} (h : setFlags f d = .ok d') :
    d'.length = d.length := by
  cases d with
  | nil => cases h
  | cons b d =>
    obtain rfl := Except.ok.inj h
    rfl

/-- The numbers of acknowledgements take four octets each, and their count takes one. -/
theorem length_ackTrailer (acks : List UInt32) :
    (ackTrailer acks).length = 4 * acks.length + 1 := by
  have hnumbers : (acks.flatMap fun n ↦ Octets.bigEndian 4 n.toNat).length = 4 * acks.length := by
    simp [List.length_flatMap, Nat.mul_comm]
  rw [ackTrailer, List.length_append, hnumbers, List.length_singleton]

/-- The last octet of a datagram with a trailer is the number of its acknowledgements. -/
theorem getLastD_ackTrailer (s : Octets) (acks : List UInt32) :
    (s ++ ackTrailer acks).getLastD 0 = UInt8.ofNat acks.length := by
  simp [ackTrailer, ← List.append_assoc]

/-! ### Acknowledgements behind a body -/

variable {f : Flags}

@[simp] theorem wire_nil (f : Flags) (n : UInt32) (body : Octets) :
    wire f n body [] = plain f n body :=
  rfl

/-- Acknowledgements go behind the body, and are announced in the flags. -/
theorem wire_of_ne_nil (n : UInt32) (body : Octets) {acks : List UInt32} (h : acks ≠ []) :
    wire f n body acks = plain { f with appendedAcks := true } n (body ++ ackTrailer acks) := by
  simp [wire, h]

@[simp] theorem sequence_wire (f : Flags) (n : UInt32) (body : Octets) (acks : List UInt32) :
    sequence (wire f n body acks) = n := by
  rw [wire]
  split <;> simp

/-- Acknowledgements show in one flag only. -/
theorem flags_wire (hf : f.appendedAcks = false) (n : UInt32) (body : Octets)
    (acks : List UInt32) :
    Datagram.flags (wire f n body acks) = { f with appendedAcks := !acks.isEmpty } := by
  obtain ⟨reliable, resent, zeroCoded, appended⟩ := f
  cases hf
  rw [wire]
  split <;> simp_all

/-- **Appending keeps the shape.** Those acknowledgements are appended that there is room for. -/
theorem appendAcks_plain (mtu : Nat) (acks : List UInt32) (n : UInt32) (body : Octets) :
    ∃ k, k ≤ maxAppendedAcks ∧
      appendAcks mtu acks (plain f n body) = (k, wire f n body (acks.take k)) := by
  refine ⟨appendable mtu (plain f n body).length acks.length, Nat.min_le_right .., ?_⟩
  rw [appendAcks]
  generalize hk : appendable mtu (plain f n body).length acks.length = k
  have hle : k ≤ acks.length := by
    rw [← hk, appendable]
    omega
  by_cases h0 : k = 0
  · simp [h0]
  · have hne : acks.take k ≠ [] := by
      intro hnil
      have hlen := congrArg List.length hnil
      rw [List.length_take, List.length_nil] at hlen
      omega
    have hflags : Datagram.flags (plain f n body ++ ackTrailer (acks.take k)) = f := by
      simp [Datagram.flags, plain_eq]
    have hor : f ||| { appendedAcks := true } = { f with appendedAcks := true } := by
      show Flags.mk .. = Flags.mk ..
      simp
    rw [if_neg h0, wire_of_ne_nil n body hne]
    simp only [hflags, hor]
    simp only [plain_eq, List.cons_append, List.append_assoc, List.set_cons_zero]

/-! ### The bare datagram -/

/-- The mask clears the two flags and keeps the others. -/
theorem toOctet_and_bareMask (hf : f.appendedAcks = false) (appended : Bool) :
    { f with appendedAcks := appended : Flags }.toOctet &&& bareMask =
      { f with resent := false : Flags }.toOctet := by
  obtain ⟨reliable, resent, zeroCoded, none⟩ := f
  cases hf
  cases reliable <;> cases resent <;> cases zeroCoded <;> cases appended <;> rfl

/-- A plain datagram without its flags of transmission is plain. -/
theorem bare_plain (hf : f.appendedAcks = false) (n : UInt32) (body : Octets) :
    bare (plain f n body) = plain { f with resent := false } n body := by
  have hnone : trailerLength (plain f n body) = 0 := by
    simp [trailerLength, hf]
  have hmask : f.toOctet &&& bareMask = { f with resent := false : Flags }.toOctet := by
    rw [← toOctet_and_bareMask hf false, ← hf]
  rw [bare, hnone, Nat.sub_zero, List.take_length, plain_eq, plain_eq, List.modifyHead_cons, hmask]

/-- **Without what its transmission added, a datagram is as it was framed,** up to its sequence
number. -/
theorem bare_wire (hf : f.appendedAcks = false) (n : UInt32) (body : Octets) {acks : List UInt32}
    (hacks : acks.length ≤ maxAppendedAcks) :
    bare (wire f n body acks) = plain { f with resent := false } n body := by
  by_cases hne : acks = []
  · rw [hne, wire_nil, bare_plain hf]
  · rw [wire_of_ne_nil n body hne]
    generalize hd : plain { f with appendedAcks := true } n (body ++ ackTrailer acks) = d
    have hsplit : d = plain { f with appendedAcks := true } n body ++ ackTrailer acks := by
      rw [← hd, plain, plain, List.append_assoc]
    have htrailer : trailerLength d = (ackTrailer acks).length := by
      have hflag : (Datagram.flags d).appendedAcks = true := by
        rw [← hd, flags_plain]
      have hcount : (d.getLastD 0).toNat = acks.length := by
        rw [hsplit, getLastD_ackTrailer, UInt8.toNat_ofNat']
        exact Nat.mod_eq_of_lt (Nat.lt_succ_of_le hacks)
      rw [trailerLength, if_pos hflag, hcount, length_ackTrailer]
    have hfront : d.take (d.length - trailerLength d) =
        plain { f with appendedAcks := true } n body := by
      rw [htrailer, hsplit, List.length_append, Nat.add_sub_cancel, List.take_left]
    rw [bare, hfront, plain_eq, plain_eq, List.modifyHead_cons, toOctet_and_bareMask hf]

end Datagram

/-! ### Pieces of messages -/

namespace Message

/-- Whether the datagram with a piece of the message is zero-coded. -/
def isCoded (m : Message) (piece : Octets) : Bool :=
  let body := m.id.encode ++ piece
  m.zeroCoded && decide (ZeroRuns.encodedLength body < body.length)

/-- The body of the datagram with a piece of the message. -/
def codedBody (m : Message) (piece : Octets) : Octets :=
  if m.isCoded piece then ZeroRuns.encode (m.id.encode ++ piece) else m.id.encode ++ piece

/-- The datagram with a piece of the message, under a sequence number. -/
def datagram (m : Message) (reliable : Bool) (n : UInt32) (piece : Octets) : Octets :=
  Datagram.plain { reliable, zeroCoded := m.isCoded piece } n (m.codedBody piece)

/-- A piece is framed under the number zero, since it is numbered when it is sent. -/
theorem frameOne_eq (m : Message) (reliable : Bool) (piece : Octets) :
    m.frameOne reliable piece = m.datagram reliable 0 piece := by
  have hif : m.frameOne reliable piece =
      if m.isCoded piece then
        Datagram.plain { reliable, zeroCoded := true } 0 (ZeroRuns.encode (m.id.encode ++ piece))
      else Datagram.plain { reliable } 0 (m.id.encode ++ piece) := rfl
  rw [hif, datagram, codedBody]
  cases m.isCoded piece <;> rfl

/-- A datagram of the given size has room for the piece of the message, whose id can be read back. -/
structure HasRoomFor (m : Message) (mtu : Nat) (piece : Octets) : Prop where
  /-- The octets of the piece follow one another in the payload. -/
  isInfix : piece <:+: m.payload
  /-- The id can be read back. -/
  readable : m.id.Readable
  /-- Header, id and piece fit. -/
  fits : Header.fixedLength + m.id.encodedLength + piece.length ≤ mtu

/-- The pieces that a message is divided into. An empty payload makes one empty piece. -/
def parts (m : Message) (mtu : Nat) : List Octets :=
  if m.payload.isEmpty then [[]] else Octets.pieces (roomFor m.id mtu) m.payload

/-- Header and id leave no room, or the message does not fit and may not be divided. -/
def IsTooBig (m : Message) (mtu : Nat) : Prop :=
  roomFor m.id mtu = 0 ∨ roomFor m.id mtu < m.payload.length ∧ ¬ m.id.Splittable

/-- **Framing is refused** when the id can not be read back, or when the message is too big; otherwise
it makes one datagram of each piece. -/
theorem frame_eq_ok_iff {m : Message} {reliable : Bool} {mtu : Nat} {l : List Octets} :
    m.frame reliable mtu = .ok l ↔
      m.id.Readable ∧ ¬ m.IsTooBig mtu ∧ l = (m.parts mtu).map (m.datagram reliable 0) := by
  have hpieces : (m.parts mtu).map (m.frameOne reliable) =
      (m.parts mtu).map (m.datagram reliable 0) :=
    List.map_congr_left fun piece _ ↦ frameOne_eq m reliable piece
  rw [← hpieces, frame, MessageId.check, IsTooBig]
  by_cases hid : m.id.Readable
  · by_cases hroom : roomFor m.id mtu = 0
    · simp [hid, hroom, throw, throwThe, MonadExceptOf.throw, bind, Except.bind]
    by_cases hsplit : roomFor m.id mtu < m.payload.length ∧ ¬ m.id.Splittable
    · simp [hid, hroom, hsplit, throw, throwThe, MonadExceptOf.throw, bind, Except.bind]
    simp only [hid, hroom, hsplit, mapError_ok, bind, Except.bind, if_true, if_false,
      not_false_eq_true, or_self, true_and]
    exact ⟨fun h ↦ (Except.ok.inj h).symm, fun h ↦ h ▸ rfl⟩
  · simp [hid, bind, Except.bind]

/-- The parts of a message make up its payload. -/
theorem flatten_parts {m : Message} {mtu : Nat} (h : ¬ m.IsTooBig mtu) :
    (m.parts mtu).flatten = m.payload := by
  rw [parts]
  split
  · rename_i hnil
    rw [List.isEmpty_iff.1 hnil]
    rfl
  · exact Octets.flatten_pieces (Nat.pos_of_ne_zero fun h0 ↦ h (.inl h0)) m.payload

/-- There is room for each of the parts. -/
theorem hasRoomFor_of_mem_parts {m : Message} {mtu : Nat} (hid : m.id.Readable)
    (h : ¬ m.IsTooBig mtu) {piece : Octets} (hpiece : piece ∈ m.parts mtu) :
    m.HasRoomFor mtu piece where
  isInfix := flatten_parts h ▸ List.infix_of_mem_flatten hpiece
  readable := hid
  fits := by
    have hroom : roomFor m.id mtu ≠ 0 := fun h0 ↦ h (.inl h0)
    have hle : piece.length ≤ roomFor m.id mtu := by
      rw [parts] at hpiece
      split at hpiece
      · rw [List.mem_singleton.1 hpiece]
        exact Nat.zero_le _
      · exact Octets.length_le_of_mem_pieces hpiece
    rw [roomFor] at hroom hle
    omega

/-- **Framing makes datagrams of pieces there is room for,** which are the payload when put together. -/
theorem exists_pieces_of_frame {m : Message} {reliable : Bool} {mtu : Nat} {l : List Octets}
    (h : m.frame reliable mtu = .ok l) :
    ∃ parts : List Octets, l = parts.map (m.datagram reliable 0) ∧ parts.flatten = m.payload ∧
      ∀ piece ∈ parts, m.HasRoomFor mtu piece := by
  obtain ⟨hid, hfits, rfl⟩ := frame_eq_ok_iff.1 h
  exact ⟨m.parts mtu, rfl, flatten_parts hfits, fun _ ↦ hasRoomFor_of_mem_parts hid hfits⟩

end Message

namespace Outgoing

/-- The datagram is a piece of a message with the property, framed under the number it has now. -/
def Carries (P : Message → Prop) (mtu : Nat) (p : Outgoing) : Prop :=
  ∃ m reliable piece, P m ∧ m.HasRoomFor mtu piece ∧
    p.buffer = m.datagram reliable p.sequence piece

end Outgoing

end DatagramCircuits
