import DatagramCircuits.Proofs.Fragments
import DatagramCircuits.Proofs.Reading
import DatagramCircuits.Proofs.Operations
/-!
# Messages of the protocol, sent and read back

A circuit sends three kinds of messages of its own accord: acknowledgements, no more of them than go
into one datagram, pings, and the answers to pings (`Control.IsRoutine`). Under every MTU that can be
configured each of them has its datagram (`Control.IsRoutine.exists_signal`), so none of them is ever
lost in framing. Its datagram is read without fail (`parse_of_signal`), and the body as what was written,
with nothing left over (`Control.IsRoutine.read_body`).
-/

namespace DatagramCircuits

/-- A circuit may send the message of its own accord. -/
def Control.IsRoutine (mtu : Nat) : Control → Prop
  | acks sequences => sequences.length ≤ Circuit.acksPerDatagram mtu
  | ping _ _ | pong _ => True
  | setup _ | throttle _ | close => False

namespace Circuit

variable {mtu : Nat} {m : Control} {d : Octets}

/-! ### Sending -/

/-- A body there is room for is sent as it is. -/
theorem signal_eq_ok (hpos : 0 < Message.roomFor m.id mtu)
    (hle : m.body.length ≤ Message.roomFor m.id mtu) :
    signal mtu m = .ok (m.message.datagram false 0 m.body) := by
  have hfits : ¬ m.message.IsTooBig mtu := by
    rintro (h0 | ⟨hlong, -⟩)
    · exact absurd h0 (Nat.ne_of_gt hpos)
    · exact Nat.not_lt.2 hle hlong
  have hone : (m.message.parts mtu).length = 1 := by
    rw [Message.length_parts hfits]
    exact Nat.max_eq_left ((ceilDiv_le_iff_le_mul hpos).2 (by rw [Nat.mul_one]; exact hle))
  obtain ⟨piece, hpiece⟩ := List.length_eq_one_iff.1 hone
  have hbody : piece = m.body := by
    have hwhole : (m.message.parts mtu).flatten = m.body := Message.flatten_parts hfits
    rwa [hpiece, List.flatten_singleton] at hwhole
  rw [signal, Message.frame_eq_ok_iff.2 ⟨readable_id m, hfits, rfl⟩, hpiece, hbody]
  rfl

/-- A message of the protocol is read with its id and its body, from its datagram with number 0. -/
theorem parse_of_signal (hd : signal mtu m = .ok d) :
    Datagram.parse mtu d = .ok ⟨{}, m.id, m.body, []⟩ := by
  have hnone : ([] : List UInt32).length ≤ Datagram.maxAppendedAcks := Nat.zero_le _
  rw [eq_of_signal hd]
  exact Datagram.parse_wire_eq_ok (f := {}) rfl hnone (readable_id m) rfl

/-- All that a quiet move sends is a message that circuits send of their own accord. -/
theorem Quiet.exists_routine {c c' : Circuit} {k : List Event} (h : Quiet c k c') :
    k = [] ∨ ∃ m : Control, m.IsRoutine c.config.mtu ∧ k = signalEvents c.config.mtu m := by
  cases h with
  | keep h => exact .inl rfl
  | @acks n hn =>
    exact .inr ⟨.acks (c.tracker.peekAcks n), (List.length_take_le ..).trans hn, rfl⟩
  | ping now => exact .inr ⟨c.pingMessage, trivial, rfl⟩
  | pong id => exact .inr ⟨.pong id, trivial, rfl⟩

end Circuit

namespace Control

open Circuit

variable {mtu : Nat} {m : Control}

theorem length_encodeAcks (l : List UInt32) : (encodeAcks l).length = acksLength l.length := by
  simp [encodeAcks, acksLength, List.length_flatMap, Nat.mul_comm, Nat.add_comm]

/-- The body of a message that circuits send of their own accord fits under every MTU that can be
configured. -/
theorem IsRoutine.length_body_le (h : m.IsRoutine mtu) (hmtu : Config.minMtu ≤ mtu) :
    0 < Message.roomFor m.id mtu ∧ m.body.length ≤ Message.roomFor m.id mtu := by
  rw [Config.minMtu] at hmtu
  cases m with
  | acks l =>
    have hcount : l.length ≤ max 1 (min ((mtu - 11) / 4) 255) := h
    have hroom : Message.roomFor (acks l).id mtu = mtu - 10 := rfl
    have hbody : (acks l).body.length = 1 + 4 * l.length := length_encodeAcks l
    omega
  | ping id oldest =>
    have hroom : Message.roomFor (ping id oldest).id mtu = mtu - 7 := rfl
    have hbody : (ping id oldest).body.length = 5 := rfl
    omega
  | pong id =>
    have hroom : Message.roomFor (pong id).id mtu = mtu - 7 := rfl
    have hbody : (pong id).body.length = 1 := rfl
    omega
  | setup request | throttle rates | close => exact h.elim

/-- **Framing never fails** for the messages that circuits send of their own accord. -/
theorem IsRoutine.exists_signal (h : m.IsRoutine mtu) (hmtu : Config.minMtu ≤ mtu) :
    ∃ d, signal mtu m = .ok d :=
  ⟨_, signal_eq_ok (h.length_body_le hmtu).1 (h.length_body_le hmtu).2⟩

/-- **Their bodies are read back,** with nothing left over. -/
theorem IsRoutine.read_body (h : m.IsRoutine mtu) : read m.id m.body = .ok (some m, []) := by
  have hbody : m.body = m.body ++ [] := (List.append_nil _).symm
  cases m with
  | acks l => exact (read_eq_ok_iff (by simp)).2 ⟨Nat.le_trans h (acksPerDatagram_le mtu), hbody⟩
  | ping id oldest => exact (read_eq_ok_iff (by simp)).2 ⟨Nat.zero_le _, hbody⟩
  | pong id => exact (read_eq_ok_iff (by simp)).2 ⟨Nat.zero_le _, hbody⟩
  | setup request | throttle rates | close => exact h.elim

end Control

/-! ### Messages of the protocol among other datagrams -/

namespace Datagram

/-- The message of the protocol that a datagram is. What circuits send of their own accord has number 0,
so no message of the application is taken for one. -/
def control? (mtu : Nat) (d : Octets) : Option Control :=
  if sequence d = 0 then
    match parse mtu d with
    | .ok q =>
      match Control.read q.id q.payload with
      | .ok (m, _) => m
      | .error _ => none
    | .error _ => none
  else none

/-- The id of the ping that a datagram is, and the number that it names. -/
def ping? (mtu : Nat) (d : Octets) : Option (UInt8 × UInt32) :=
  match control? mtu d with
  | some (.ping id oldest) => some (id, oldest)
  | _ => none

/-- Whether a datagram answers a ping. -/
def isPong (mtu : Nat) (d : Octets) : Bool :=
  match control? mtu d with
  | some (.pong _) => true
  | _ => false

theorem ping?_of_numbered {d : Octets} (h : sequence d ≠ 0) (mtu : Nat) : ping? mtu d = none := by
  rw [ping?, control?, if_neg h]

theorem isPong_of_numbered {d : Octets} (h : sequence d ≠ 0) (mtu : Nat) : isPong mtu d = false := by
  rw [isPong, control?, if_neg h]

end Datagram

namespace Circuit

variable {mtu : Nat} {m m' : Control} {d : Octets}

/-- Messages of the protocol have the number 0. -/
theorem sequence_of_signal (hd : signal mtu m = .ok d) : Datagram.sequence d = 0 := by
  rw [eq_of_signal hd, Message.datagram, Datagram.sequence_plain]

/-- A message of the protocol is taken for one of its kind. -/
theorem id_of_control? (hd : signal mtu m = .ok d) (h : Datagram.control? mtu d = some m') :
    m'.id = m.id := by
  rw [Datagram.control?, if_pos (sequence_of_signal hd), parse_of_signal hd] at h
  dsimp only at h
  split at h
  · rename_i hread
    subst h
    exact Control.id_of_read hread
  · cases h

/-- **What a circuit sends of its own accord** is recognised. -/
theorem control?_of_signal (hd : signal mtu m = .ok d) (hm : m.IsRoutine mtu) :
    Datagram.control? mtu d = some m := by
  rw [Datagram.control?, if_pos (sequence_of_signal hd), parse_of_signal hd]
  dsimp only
  rw [hm.read_body]

/-- **A ping is recognised,** and no other message of the protocol is taken for one. -/
theorem ping?_of_signal (hd : signal mtu m = .ok d) :
    Datagram.ping? mtu d = match m with
      | .ping id oldest => some (id, oldest)
      | _ => none := by
  rw [Datagram.ping?]
  cases m with
  | ping id oldest => rw [control?_of_signal hd trivial]
  | setup request | acks sequences | pong id | throttle rates | close =>
    split
    · rename_i h
      exact nomatch id_of_control? hd h
    · rfl

/-- **So is the answer to a ping.** -/
theorem isPong_of_signal (hd : signal mtu m = .ok d) :
    Datagram.isPong mtu d = match m with
      | .pong _ => true
      | _ => false := by
  rw [Datagram.isPong]
  cases m with
  | pong id => rw [control?_of_signal hd trivial]
  | setup request | acks sequences | ping id oldest | throttle rates | close =>
    split
    · rename_i h
      exact nomatch id_of_control? hd h
    · rfl

end Circuit

end DatagramCircuits
