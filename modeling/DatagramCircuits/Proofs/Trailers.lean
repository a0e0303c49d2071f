import DatagramCircuits.Proofs.Grammar
/-!
# Trailers of acknowledgements

A writer puts acknowledgements behind a finished datagram without a look at it, and a reader cuts them off
before it looks at anything else. What stands in between is then the same octets for both, whatever they
are: a body that is coded, a body that happens to look like acknowledgements, or extra octets.

**A written form with acknowledgements** is a written form without them, with the octet of flags changed
and the trailer behind (`Datagram.Writes.withAcks`).

**The room** is that of the MTU without the datagram and the count, in groups of four. There is none for a
datagram as long as the MTU or longer, which is left as it is.
-/

namespace DatagramCircuits

/-- The packet with acknowledgements, and with the flag that says whether there are some. -/
def Packet.withAcks (q : Packet) (acks : List UInt32) : Packet :=
  { q with header.flags.appendedAcks := !acks.isEmpty, acks }

namespace Datagram

variable {mtu : Nat} {d body : Octets} {acks : List UInt32} {first : UInt8} {q : Packet}

/-- Whether a body is expanded does not depend on what stands behind it. -/
theorem expandBody_appendedAcks (mtu : Nat) (f : Flags) (appended : Bool) (body : Octets) :
    expandBody mtu { f with appendedAcks := appended } body = expandBody mtu f body :=
  rfl

/-- What is written without acknowledgements ends with the body. -/
theorem Writes.trailer_eq_nil (h : Writes mtu d q first body)
    (hnone : (Datagram.flags d).appendedAcks = false) : q.trailer = [] := by
  have hflags : Datagram.flags d = q.header.flags := by
    rw [h.octets, h.flags]
    rfl
  rw [hflags] at hnone
  rw [Packet.trailer, hnone]
  rfl

/-- **A written form with a trailer behind and the flag for it in front is a written form of the packet
with these acknowledgements.** -/
theorem Writes.withAcks (h : Writes mtu d q first body)
    (hnone : (Datagram.flags d).appendedAcks = false) (hne : acks ≠ [])
    (hacks : acks.length ≤ maxAppendedAcks) :
    Writes mtu ({ Datagram.flags d with appendedAcks := true : Flags }.toOctet ::
        (d.tail ++ ackTrailer acks)) (q.withAcks acks)
      { Datagram.flags d with appendedAcks := true : Flags }.toOctet body := by
  have hflags : Datagram.flags d = q.header.flags := by
    rw [h.octets, h.flags]
    rfl
  have hsome : (!acks.isEmpty) = true := by simpa using hne
  have htrailer : (q.withAcks acks).trailer = ackTrailer acks := by
    rw [Packet.trailer, Packet.withAcks]
    simp only [hsome, if_true]
  have htail : d.tail = Octets.bigEndian 4 q.header.sequence.toNat ++
      UInt8.ofNat q.header.extra.length :: (q.header.extra ++ body) := by
    rw [h.octets, h.trailer_eq_nil hnone, List.append_nil, List.tail_cons]
  refine ⟨?_, ?_, h.extra, hacks, fun hfalse ↦ ?_, h.readable, ?_⟩
  · rw [htrailer, htail]
    simp [Packet.withAcks]
  · rw [Flags.ofOctet_toOctet, hflags, Packet.withAcks, hsome]
  · rw [Packet.withAcks, hsome] at hfalse
    cases hfalse
  · exact (expandBody_appendedAcks mtu q.header.flags _ body).trans h.expands

/-- The number of acknowledgements that are appended. -/
theorem appendable_eq (mtu length count : Nat) :
    appendable mtu length count = min (min count maxAppendedAcks) ((mtu - length - 1) / 4) := by
  rw [appendable]
  omega

/-- With what is appended, the datagram is no longer than the MTU. -/
theorem length_add_appendable_le {length count : Nat} (h : appendable mtu length count ≠ 0) :
    length + (4 * appendable mtu length count + 1) ≤ mtu := by
  rw [appendable] at h ⊢
  omega

/-- What appending makes of a datagram that says it has no acknowledgements. -/
theorem appendAcks_eq (hd : d ≠ []) (mtu : Nat) (acks : List UInt32) :
    appendAcks mtu acks d =
      if appendable mtu d.length acks.length = 0 then (0, d)
      else (appendable mtu d.length acks.length,
        { Datagram.flags d with appendedAcks := true : Flags }.toOctet ::
          (d.tail ++ ackTrailer (acks.take (appendable mtu d.length acks.length)))) := by
  obtain ⟨b, s, rfl⟩ := List.exists_cons_of_ne_nil hd
  rw [appendAcks]
  refine ite_congr rfl (fun _ ↦ rfl) fun _ ↦ ?_
  have hor (f : Flags) : f ||| { appendedAcks := true } = { f with appendedAcks := true } := by
    show Flags.mk .. = Flags.mk ..
    simp
  simp only [List.cons_append, List.set_cons_zero, List.tail_cons, hor]
  rfl

/-- **Appending acknowledgements shows in nothing else.** A datagram that was read, and that has none, gets
as many of the first ones as there is room for, and is then read as before, with exactly these. -/
theorem appendAcks_transparent (hnone : (Datagram.flags d).appendedAcks = false)
    (hparse : parse mtu d = .ok q) (limit : Nat) (acks : List UInt32) :
    ∃ n d', appendAcks limit acks d = (n, d') ∧
      n = min (min acks.length 255) ((limit - d.length - 1) / 4) ∧
      d'.length ≤ max limit d.length ∧
      (n = 0 → d' = d) ∧
      parse mtu d' =
        .ok { q with header.flags.appendedAcks := decide (0 < n), acks := acks.take n } := by
  obtain ⟨first, body, h⟩ := parse_eq_ok_iff.1 hparse
  have hne : d ≠ [] := by
    rw [h.octets]
    exact List.cons_ne_nil _ _
  have happend := appendAcks_eq hne limit acks
  -- `n` is the number that fits, and where it is zero nothing is done
  generalize hn : appendable limit d.length acks.length = n at happend
  have hcount : n = min (min acks.length 255) ((limit - d.length - 1) / 4) := by
    rw [← hn, appendable_eq]
    rfl
  by_cases h0 : n = 0
  · rw [if_pos h0] at happend
    have hflag : q.header.flags.appendedAcks = false := by
      rw [← hnone, h.octets, h.flags]
      rfl
    refine ⟨0, d, happend, h0 ▸ hcount, Nat.le_max_right .., fun _ ↦ rfl, hparse.trans ?_⟩
    have hacks := h.noAcks hflag
    obtain ⟨⟨⟨reliable, resent, zeroCoded, appended⟩, sequence, extra⟩, id, payload, none⟩ := q
    obtain rfl : appended = false := hflag
    obtain rfl : none = [] := hacks
    rfl
  · rw [if_neg h0] at happend
    have hle : n ≤ acks.length ∧ n ≤ maxAppendedAcks := by
      rw [hcount, maxAppendedAcks]
      omega
    have htake : (acks.take n).length = n := List.length_take_of_le hle.1
    have hsome : acks.take n ≠ [] := by
      rw [← List.length_pos_iff, htake]
      omega
    have hfits := length_add_appendable_le (hn ▸ h0)
    have hpos := List.length_pos_iff.2 hne
    refine ⟨n, _, happend, hcount, ?_, fun heq ↦ absurd heq h0, ?_⟩
    · rw [List.length_cons, List.length_append, List.length_tail, length_ackTrailer, htake]
      omega
    · have hflag : decide (0 < n) = !(acks.take n).isEmpty := by
        rw [decide_eq_true (Nat.pos_of_ne_zero h0), List.isEmpty_eq_false_iff.2 hsome, Bool.not_false]
      rw [hflag]
      exact (h.withAcks hnone hsome (by rw [htake]; exact hle.2)).parse_eq_ok

/-- Extra octets and a coded body, with one more acknowledgement than there is room for. -/
theorem appendAcks_transparent_coded :
    (Datagram.flags [4, 0, 0, 0, 7, 2, 9, 9, 5, 0, 3]).appendedAcks = false ∧
      (∃ q, parse 20 [4, 0, 0, 0, 7, 2, 9, 9, 5, 0, 3] = .ok q ∧
        parse 20 [12, 0, 0, 0, 7, 2, 9, 9, 5, 0, 3, 0, 0, 0, 1, 0, 0, 1, 4, 2] =
          .ok { q with header.flags.appendedAcks := true, acks := [1, 260] }) ∧
      appendAcks 20 [1, 260, 3] [4, 0, 0, 0, 7, 2, 9, 9, 5, 0, 3] =
        (2, [12, 0, 0, 0, 7, 2, 9, 9, 5, 0, 3, 0, 0, 0, 1, 0, 0, 1, 4, 2]) := by
  have hnone : (Datagram.flags [4, 0, 0, 0, 7, 2, 9, 9, 5, 0, 3]).appendedAcks = false := by decide
  have hparse : parse 20 [4, 0, 0, 0, 7, 2, 9, 9, 5, 0, 3] =
      .ok ⟨⟨{ zeroCoded := true }, 7, [9, 9]⟩, .high 5, [0, 0, 0], []⟩ := by
    decide +kernel
  have hvalue : appendAcks 20 [1, 260, 3] [4, 0, 0, 0, 7, 2, 9, 9, 5, 0, 3] =
      (2, [12, 0, 0, 0, 7, 2, 9, 9, 5, 0, 3, 0, 0, 0, 1, 0, 0, 1, 4, 2]) := by
    decide +kernel
  obtain ⟨n, d', happend, -, -, -, hread⟩ := appendAcks_transparent hnone hparse 20 [1, 260, 3]
  obtain ⟨rfl, rfl⟩ := Prod.mk.inj (happend.symm.trans hvalue)
  exact ⟨hnone, ⟨_, hparse, hread⟩, hvalue⟩

end Datagram

end DatagramCircuits
