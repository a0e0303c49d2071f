import DatagramCircuits.Circuit.Signals
import DatagramCircuits.Proofs.Formats
import DatagramCircuits.Proofs.ZeroRuns
/-!
# Reading what was sent

What a reader makes of the datagrams that a circuit sends. Whenever it accepts one, it finds the number
and the acknowledgements that the datagram was sent with, and the id and the piece of the message that it
was framed from; and it finds the same id and the same piece in the datagram without what its
transmission added (`Message.eq_of_parse_wire`). A message of the protocol is found with its id and its
body (`eq_of_parse_signal`), and only acknowledgements are read as acknowledgements
(`Control.eq_acks_of_read`).
-/

namespace DatagramCircuits

namespace Control

/-- Only acknowledgements are read as acknowledgements, and as those that were written. -/
theorem eq_acks_of_read {m : Control} {l : List UInt32} {t : Octets}
    (h : read m.id m.body = .ok (some (.acks l), t)) :
    ∃ s, m = .acks s ∧ (s.length ≤ maxAcks → l = s) := by
  have hid : MessageId.acks = m.id := id_of_read h
  cases m with
  | acks s =>
    refine ⟨s, rfl, fun hlen ↦ ?_⟩
    have hread : read (acks s).id (acks s).body = .ok (some (acks s), []) :=
      (read_eq_ok_iff (by simp)).2 ⟨hlen, (List.append_nil _).symm⟩
    rw [hread] at h
    cases h
    rfl
  | setup request => cases hid
  | ping id oldest => cases hid
  | pong id => cases hid
  | throttle rates => cases hid
  | close => cases hid

end Control

/-- The packet acknowledges a number, behind its datagram or in its message. -/
def Packet.Acknowledges (q : Packet) (n : UInt32) : Prop :=
  n ∈ q.acks ∨
    ∃ sequences rest, Control.read q.id q.payload = .ok (some (.acks sequences), rest) ∧ n ∈ sequences

/-! ### Datagrams -/

namespace Datagram

variable {f : Flags} {n : UInt32} {body : Octets} {acks : List UInt32}

/-- **Appended acknowledgements are found,** and what is in front of them. -/
theorem splitAcks_wire (hf : f.appendedAcks = false) (hacks : acks.length ≤ maxAppendedAcks)
    {front : Octets} {l : List UInt32} (h : splitAcks (wire f n body acks) = .ok (front, l)) :
    front = plain { f with appendedAcks := !acks.isEmpty } n body ∧ l = acks := by
  by_cases hnil : acks = []
  · subst hnil
    rw [splitAcks_eq_ok_iff, flags_wire hf] at h
    obtain ⟨reliable, resent, zeroCoded, appended⟩ := f
    cases hf
    exact ⟨h.1.symm, h.2⟩
  · have hsome : (!acks.isEmpty) = true := by simpa using hnil
    have hwire : wire f n body acks =
        plain { f with appendedAcks := true } n body ++ ackTrailer acks := by
      rw [wire_of_ne_nil n body hnil, plain, plain, List.append_assoc]
    have hflags : (Datagram.flags (wire f n body acks)).appendedAcks = true := by
      rw [flags_wire hf, hsome]
    rw [hwire, splitAcks_append (hwire ▸ hflags) hacks] at h
    split at h
    · cases h
    · obtain ⟨rfl, rfl⟩ := Prod.mk.inj (Except.ok.inj h)
      exact ⟨by rw [hsome], rfl⟩

/-- The header of a finished datagram, and its body. -/
theorem read_plain : Header.read (plain f n body) = .ok (⟨f, n, []⟩, body) := by
  have hextra : ([] : Octets).length < 256 := Nat.zero_lt_succ 255
  exact Header.read_eq_ok_iff.2 ⟨f.toOctet, (Flags.ofOctet_toOctet f).symm, hextra, plain_eq f n body⟩

/-- **A finished datagram that is read** has the number and the acknowledgements that it was sent with,
and its body says what it is about. -/
theorem parse_wire {mtu : Nat} {q : Packet} (hf : f.appendedAcks = false)
    (hacks : acks.length ≤ maxAppendedAcks) (h : parse mtu (wire f n body acks) = .ok q) :
    q.header = ⟨{ f with appendedAcks := !acks.isEmpty }, n, []⟩ ∧ q.acks = acks ∧
      ∃ octets, expandBody mtu f body = .ok octets ∧ splitId octets = .ok (q.id, q.payload) := by
  rw [parse] at h
  split at h
  · cases h
  -- from both ends: the acknowledgements, the header, the body, and the id in front of it
  obtain ⟨⟨front, l⟩, hsplit, h⟩ := bind_eq_ok_iff.1 h
  rw [Failure.ofRefusal, mapError_eq_ok_iff] at hsplit
  obtain ⟨rfl, rfl⟩ := splitAcks_wire hf hacks hsplit
  obtain ⟨⟨header, rest⟩, hheader, h⟩ := bind_eq_ok_iff.1 h
  rw [read_plain] at hheader
  obtain ⟨rfl, rfl⟩ := Prod.mk.inj (Except.ok.inj hheader)
  obtain ⟨octets, hoctets, h⟩ := bind_eq_ok_iff.1 h
  obtain ⟨⟨id, payload⟩, hid, h⟩ := bind_eq_ok_iff.1 h
  rw [Failure.ofRefusal, mapError_eq_ok_iff] at hid
  obtain rfl := Except.ok.inj h
  exact ⟨rfl, rfl, octets, hoctets, hid⟩

end Datagram

namespace Message

/-- What the body of a datagram expands to is what was coded. -/
theorem eq_of_expandBody {m : Message} {piece octets : Octets} {mtu : Nat} {f : Flags}
    (hf : f.zeroCoded = m.isCoded piece)
    (h : Datagram.expandBody mtu f (m.codedBody piece) = .ok octets) :
    octets = m.id.encode ++ piece := by
  rw [Datagram.expandBody, hf, codedBody] at h
  cases hcoded : m.isCoded piece with
  | false =>
    rw [hcoded] at h
    obtain rfl := Except.ok.inj h
    rfl
  | true =>
    rw [hcoded] at h
    obtain ⟨limit, -, h⟩ := bind_eq_ok_iff.1 h
    simp only [if_true] at h
    generalize hexpansion : ZeroRuns.decode limit _ = expansion at h
    obtain ⟨o, stopped⟩ := expansion
    cases stopped with
    | some e => cases h
    | none =>
      obtain rfl := Except.ok.inj h
      exact ZeroRuns.eq_of_decode_encode hexpansion

variable {m : Message} {piece : Octets} {mtu : Nat} {reliable resent : Bool} {n : UInt32}
  {acks : List UInt32} {q : Packet}

/-- **A piece of a message is read as such,** with the number and the acknowledgements that it was sent
with; and it is read as such in the bare datagram, too. -/
theorem eq_of_parse_wire (hid : m.id.Readable) (hacks : acks.length ≤ Datagram.maxAppendedAcks)
    (h : Datagram.parse mtu (Datagram.wire { reliable, resent, zeroCoded := m.isCoded piece } n
      (m.codedBody piece) acks) = .ok q) :
    q.id = m.id ∧ q.payload = piece ∧ q.header.sequence = n ∧ q.isReliable = reliable ∧
      q.acks = acks ∧ Datagram.parse mtu (m.datagram reliable n piece) =
        .ok ⟨⟨{ reliable, zeroCoded := m.isCoded piece }, n, []⟩, m.id, piece, []⟩ := by
  obtain ⟨hheader, hq, octets, hoctets, hsplit⟩ := Datagram.parse_wire rfl hacks h
  obtain rfl := eq_of_expandBody rfl hoctets
  have hread : Datagram.splitId (m.id.encode ++ piece) = .ok (m.id, piece) :=
    Datagram.splitId_eq_ok_iff.2 ⟨hid, rfl⟩
  obtain ⟨hsame, hpayload⟩ := Prod.mk.injEq .. ▸ Except.ok.inj (hread.symm.trans hsplit)
  rw [Packet.isReliable, hheader]
  have hnone : ([] : List UInt32).length ≤ Datagram.maxAppendedAcks := Nat.zero_le _
  have hbare := Datagram.parse_wire_eq_ok (n := n) (f := { reliable, zeroCoded := m.isCoded piece }) rfl
    hnone hid hoctets
  exact ⟨hsame.symm, hpayload.symm, rfl, rfl, hq, hbare⟩

/-- A piece of a message of the application acknowledges only what was put behind it. -/
theorem mem_of_acknowledges (hm : m.IsApplication) (hid : q.id = m.id) (hacks : q.acks = acks)
    (h : q.Acknowledges n) : n ∈ acks := by
  rcases h with h | ⟨sequences, rest, hread, -⟩
  · exact hacks ▸ h
  · have hmem := Control.id_mem_ids (.acks sequences)
    rw [Control.id_of_read hread, hid] at hmem
    exact absurd hmem hm

end Message

namespace Circuit

/-- The ids of the protocol can be read back. -/
theorem readable_id (m : Control) : m.id.Readable := by
  cases m with
  | acks sequences => exact (by decide : MessageId.acks.Readable)
  | setup request => exact (by decide : MessageId.setup.Readable)
  | ping id oldest => exact (by decide : MessageId.ping.Readable)
  | pong id => exact (by decide : MessageId.pong.Readable)
  | throttle rates => exact (by decide : MessageId.throttle.Readable)
  | close => exact (by decide : MessageId.close.Readable)

/-- A message of the protocol is sent in one datagram, with its body behind its id. -/
theorem eq_of_signal {mtu : Nat} {m : Control} {d : Octets} (h : signal mtu m = .ok d) :
    d = m.message.datagram false 0 m.body := by
  rw [signal] at h
  split at h
  · rename_i d' hframe
    obtain rfl := Except.ok.inj h
    obtain ⟨parts, hparts, hbody, -⟩ := Message.exists_pieces_of_frame hframe
    -- a single datagram has a single piece, which is the whole body then
    obtain ⟨piece, rfl, rfl⟩ := List.map_eq_singleton_iff.1 hparts.symm
    have hwhole : piece = m.body := (List.append_nil piece).symm.trans hbody
    rw [hwhole]
  · exact absurd h (by simp)
  · exact absurd h (by simp)

/-- **A message of the protocol is read as such.** It is not reliable, and nothing travels with it. -/
theorem eq_of_parse_signal {mtu : Nat} {m : Control} {d : Octets} {q : Packet}
    (hd : signal mtu m = .ok d) (h : Datagram.parse mtu d = .ok q) :
    q.id = m.id ∧ q.payload = m.body ∧ q.isReliable = false ∧ q.acks = [] := by
  rw [eq_of_signal hd] at h
  have hwire : Datagram.parse mtu (Datagram.wire
      { reliable := false, resent := false, zeroCoded := m.message.isCoded m.body } 0
      (m.message.codedBody m.body) []) = .ok q := h
  obtain ⟨hid, hpayload, -, hreliable, hacks, -⟩ :=
    Message.eq_of_parse_wire (readable_id m) (Nat.zero_le _) hwire
  exact ⟨hid, hpayload, hreliable, hacks⟩

/-- What a message of the protocol acknowledges is what it is about. -/
theorem eq_acks_of_acknowledges {mtu : Nat} {m : Control} {d : Octets} {q : Packet} {n : UInt32}
    (hd : signal mtu m = .ok d) (h : Datagram.parse mtu d = .ok q) (hn : q.Acknowledges n) :
    ∃ sequences, m = .acks sequences ∧ (sequences.length ≤ Control.maxAcks → n ∈ sequences) := by
  obtain ⟨hid, hpayload, -, hacks⟩ := eq_of_parse_signal hd h
  rcases hn with hn | ⟨l, rest, hread, hn⟩
  · rw [hacks] at hn
    exact absurd hn List.not_mem_nil
  · rw [hid, hpayload] at hread
    obtain ⟨sequences, rfl, hl⟩ := Control.eq_acks_of_read hread
    exact ⟨sequences, rfl, fun hlen ↦ hl hlen ▸ hn⟩

end Circuit

end DatagramCircuits
