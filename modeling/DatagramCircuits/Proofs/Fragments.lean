import DatagramCircuits.Proofs.Grammar
import DatagramCircuits.Proofs.ZeroRuns
import Mathlib.Algebra.Order.Floor.Div
/-!
# Messages divided and read back

A message that is framed comes out of its datagrams again: each of them is read as one piece of the
message, under whatever number it is sent and with whatever acknowledgements travel with it
(`Message.parse_wire`), and the pieces put together are the payload. Coding of zeros is undone on the
way, since a body that fits into a datagram never expands beyond what a reader allows.
-/

namespace DatagramCircuits

namespace MessageId

theorem check_eq_ok_iff {id : MessageId} : id.check = .ok () ↔ id.Readable := by
  by_cases h : id.Readable <;> simp [check, h]

end MessageId

namespace Message

variable {m : Message} {mtu : Nat} {piece : Octets}

/-! ### Bodies -/

theorem length_body (m : Message) (piece : Octets) :
    (m.id.encode ++ piece).length = m.id.encodedLength + piece.length := by
  rw [List.length_append, MessageId.length_encode]

/-- A body is coded only where this makes it shorter. -/
theorem length_codedBody_lt (h : m.isCoded piece = true) :
    (m.codedBody piece).length < m.id.encodedLength + piece.length := by
  have hshort := h
  simp only [isCoded, Bool.and_eq_true, decide_eq_true_eq, length_body] at hshort
  rw [codedBody, if_pos h, ZeroRuns.length_encode]
  exact hshort.2

theorem length_codedBody_le (m : Message) (piece : Octets) :
    (m.codedBody piece).length ≤ m.id.encodedLength + piece.length := by
  cases h : m.isCoded piece with
  | true => exact Nat.le_of_lt (length_codedBody_lt h)
  | false => simp [codedBody, h]

/-- No body is empty, coded or not. -/
theorem codedBody_ne_nil (m : Message) (piece : Octets) : m.codedBody piece ≠ [] := by
  have hbody : m.id.encode ++ piece ≠ [] := by
    cases m.id <;> simp [MessageId.encode]
  rw [codedBody]
  split
  · intro hnil
    have hback := ZeroRuns.decode_encode (s := m.id.encode ++ piece) (Nat.le_refl _)
    rw [hnil] at hback
    exact hbody (congrArg ZeroRuns.Expansion.octets hback).symm
  · exact hbody

/-- A datagram with a piece there is room for is not too long. -/
theorem HasRoomFor.length_datagram_le (h : m.HasRoomFor mtu piece) (reliable : Bool) (n : UInt32) :
    (m.datagram reliable n piece).length ≤ mtu := by
  have hle := length_codedBody_le m piece
  have hfits := h.fits
  rw [datagram, Datagram.length_plain]
  omega

/-- **A body expands to what was coded,** as it is shorter than a reader allows. -/
theorem expandBody_codedBody (hmtu : Datagram.expansionFactor * mtu < 2 ^ 64)
    (h : m.HasRoomFor mtu piece) {f : Flags} (hf : f.zeroCoded = m.isCoded piece) :
    Datagram.expandBody mtu f (m.codedBody piece) = .ok (m.id.encode ++ piece) := by
  rw [Datagram.expandBody_eq_ok_iff hmtu, hf, codedBody]
  split
  · refine ZeroRuns.decode_encode ?_
    have hfits := h.fits
    rw [length_body, Datagram.expansionFactor]
    omega
  · rfl

/-- **A piece of a message is read back,** whatever was added to its datagram in sending it. -/
theorem parse_wire (hmtu : Datagram.expansionFactor * mtu < 2 ^ 64) (h : m.HasRoomFor mtu piece)
    (reliable resent : Bool) (n : UInt32) {acks : List UInt32}
    (hacks : acks.length ≤ Datagram.maxAppendedAcks) :
    Datagram.parse mtu (Datagram.wire { reliable, resent, zeroCoded := m.isCoded piece } n
      (m.codedBody piece) acks) =
        .ok ⟨⟨{ reliable, resent, zeroCoded := m.isCoded piece, appendedAcks := !acks.isEmpty }, n,
          []⟩, m.id, piece, acks⟩ :=
  Datagram.parse_wire_eq_ok (by rfl) hacks h.readable (expandBody_codedBody hmtu h rfl)

/-! ### Messages -/

theorem isTooBig_iff :
    m.IsTooBig mtu ↔ mtu ≤ Header.fixedLength + m.id.encodedLength ∨
      m.id = .layerData ∧ mtu - (Header.fixedLength + m.id.encodedLength) < m.payload.length := by
  rw [IsTooBig, roomFor, Nat.sub_eq_zero_iff_le, MessageId.Splittable, not_not, and_comm]

/-- There are as many pieces as the payload needs, and at least one. -/
theorem length_parts (h : ¬ m.IsTooBig mtu) :
    (m.parts mtu).length = max 1 (m.payload.length ⌈/⌉ roomFor m.id mtu) := by
  have hpos : 0 < roomFor m.id mtu := Nat.pos_of_ne_zero fun h0 ↦ h (.inl h0)
  rw [parts, Nat.ceilDiv_eq_add_pred_div]
  cases hpayload : m.payload with
  | nil =>
    have hnone : (roomFor m.id mtu - 1) / roomFor m.id mtu = 0 := Nat.div_eq_of_lt (by omega)
    simp [hnone]
  | cons b s =>
    have hsome : 1 ≤ ((b :: s).length + roomFor m.id mtu - 1) / roomFor m.id mtu := by
      rw [Nat.one_le_div_iff hpos, List.length_cons]
      omega
    rw [if_neg (by simp), Octets.pieces, Octets.length_cut, Octets.pieceCount, Nat.max_eq_right hsome]

end Message

/-! ### Fresh datagrams -/

/-- Reads a datagram after a number was put into it. -/
def Datagram.parseAs (mtu : Nat) (n : UInt32) (d : Octets) : Except (Failure Error) Packet := do
  let numbered ← Failure.ofFault (setSequence n d)
  parse mtu numbered

/-- The packet says what a datagram with a piece of a message is to say when it is sent for the first
time, with nothing behind its body. -/
structure Packet.IsPiece (q : Packet) (m : Message) (reliable : Bool) (n : UInt32) (piece : Octets) :
    Prop where
  /-- It is of the type of the message. -/
  id : q.id = m.id
  /-- It has the piece of the payload. -/
  payload : q.payload = piece
  /-- It has its number. -/
  sequence : q.header.sequence = n
  /-- The header has no more octets than it needs. -/
  extra : q.header.extra = []
  /-- No acknowledgements came with it. -/
  acks : q.acks = []
  /-- The sender waits for an acknowledgement if this was asked for. -/
  isReliable : q.isReliable = reliable
  /-- It was not sent before. -/
  isNew : q.isResent = false
  /-- It does not announce acknowledgements. -/
  isPlain : q.header.flags.appendedAcks = false

namespace Message

variable {m : Message} {mtu : Nat} {piece : Octets} {reliable : Bool}

/-- The datagrams are the message divided: as many as it needs and none of them too long. Each is read
under any number as one of the pieces that make up the payload, and it is zero-coded only where this was
asked for and makes it shorter. -/
structure Divided (m : Message) (reliable : Bool) (mtu : Nat) (l : List Octets) : Prop where
  /-- There are no more datagrams than the payload needs, and at least one. -/
  count : l.length =
    max 1 (m.payload.length ⌈/⌉ (mtu - (Header.fixedLength + m.id.encodedLength)))
  /-- Every datagram fits. -/
  short : ∀ d ∈ l, d.length ≤ mtu
  /-- Every datagram is read as its piece of the payload. -/
  pieces : ∃ parts : List Octets, parts.flatten = m.payload ∧
    List.Forall₂ (fun d piece ↦ ∀ n, ∃ q, Datagram.parseAs mtu n d = .ok q ∧
      q.IsPiece m reliable n piece ∧ (q.header.flags.zeroCoded = true →
        m.zeroCoded = true ∧
          d.length < Header.fixedLength + m.id.encodedLength + piece.length)) l parts

theorem parseAs_datagram (hmtu : Datagram.expansionFactor * mtu < 2 ^ 64)
    (h : m.HasRoomFor mtu piece) (reliable : Bool) (n : UInt32) :
    Datagram.parseAs mtu n (m.datagram reliable 0 piece) =
      .ok ⟨⟨{ reliable, zeroCoded := m.isCoded piece }, n, []⟩, m.id, piece, []⟩ := by
  have hnumber : Datagram.setSequence n (m.datagram reliable 0 piece) =
      .ok (m.datagram reliable n piece) := Datagram.setSequence_plain ..
  have hnone : ([] : List UInt32).length ≤ Datagram.maxAppendedAcks := Nat.zero_le _
  rw [Datagram.parseAs, hnumber]
  exact parse_wire hmtu h reliable false n hnone

theorem divided_of_fits (hmtu : Datagram.expansionFactor * mtu < 2 ^ 64) (hid : m.id.Readable)
    (h : ¬ m.IsTooBig mtu) (reliable : Bool) :
    m.Divided reliable mtu ((m.parts mtu).map (m.datagram reliable 0)) := by
  refine ⟨?_, ?_, m.parts mtu, flatten_parts h, ?_⟩
  · rw [List.length_map, length_parts h, roomFor]
  · intro d hd
    obtain ⟨piece, hpiece, rfl⟩ := List.mem_map.1 hd
    exact (hasRoomFor_of_mem_parts hid h hpiece).length_datagram_le reliable 0
  · refine List.forall₂_map_left_iff.2 (List.forall₂_same.2 fun piece hpiece n ↦ ?_)
    have hroom := hasRoomFor_of_mem_parts hid h hpiece
    refine ⟨_, parseAs_datagram hmtu hroom reliable n, ⟨rfl, rfl, rfl, rfl, rfl, rfl, rfl, rfl⟩,
      fun (hcoded : m.isCoded piece = true) ↦ ⟨?_, ?_⟩⟩
    · rw [isCoded, Bool.and_eq_true] at hcoded
      exact hcoded.1
    · have hshort := length_codedBody_lt hcoded
      rw [datagram, Datagram.length_plain]
      omega

/-- **A message is framed exactly if it is not too big,** and what framing makes of it is the message
divided: read again, under whatever numbers the datagrams are sent, it is what it was. -/
theorem frame_divides (hid : m.id.check = .ok ()) (hmtu : Datagram.expansionFactor * mtu < 2 ^ 64) :
    ((∃ e, m.frame reliable mtu = .error e) ↔
      mtu ≤ Header.fixedLength + m.id.encodedLength ∨
        m.id = .layerData ∧
          mtu - (Header.fixedLength + m.id.encodedLength) < m.payload.length) ∧
    ∀ l, m.frame reliable mtu = .ok l → m.Divided reliable mtu l := by
  have hreadable := MessageId.check_eq_ok_iff.1 hid
  have hframed (l : List Octets) : m.frame reliable mtu = .ok l ↔ m.id.Readable ∧ ¬ m.IsTooBig mtu ∧
      l = (m.parts mtu).map (m.datagram reliable 0) := frame_eq_ok_iff
  constructor
  · rw [← isTooBig_iff]
    cases hframe : m.frame reliable mtu with
    | ok l => simpa using ((hframed l).1 hframe).2.1
    | error e =>
      refine ⟨fun _ ↦ ?_, fun _ ↦ ⟨e, rfl⟩⟩
      by_contra hfits
      have hok := (hframed _).2 ⟨hreadable, hfits, rfl⟩
      rw [hframe] at hok
      cases hok
  · intro l hframe
    obtain ⟨-, hfits, rfl⟩ := (hframed l).1 hframe
    exact divided_of_fits hmtu hreadable hfits reliable

/-- Among three datagrams, those with nothing but zeros are coded and the one between them is not. -/
theorem frame_divides_zeros :
    let m : Message := ⟨.medium 7, List.replicate 9 0 ++ [1, 2, 3, 4, 5, 6, 7] ++ List.replicate 5 0, true⟩
    (m.id.check = .ok () ∧ Datagram.expansionFactor * 16 < 2 ^ 64) ∧
      ∃ l, m.frame true 16 = .ok l ∧ l.map List.length = [10, 16, 10] ∧ m.Divided true 16 l := by
  intro m
  have hid : m.id.check = .ok () := by decide
  have hmtu : Datagram.expansionFactor * 16 < 2 ^ 64 := by decide
  have hframe : (m.frame true 16).map (List.map List.length) = .ok [10, 16, 10] := by decide +kernel
  refine ⟨⟨hid, hmtu⟩, ?_⟩
  cases hl : m.frame true 16 with
  | error e => simp [hl, Except.map] at hframe
  | ok l =>
    have hlengths : l.map List.length = [10, 16, 10] := by simpa [hl, Except.map] using hframe
    exact ⟨l, rfl, hlengths, (frame_divides hid hmtu).2 l hl⟩

end Message

end DatagramCircuits
