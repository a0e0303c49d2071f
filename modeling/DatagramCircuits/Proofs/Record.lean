import DatagramCircuits.Circuit.Chronicle
import DatagramCircuits.Proofs.Wire
/-!
# Views of a record

What a record says about transmissions, and about the ways out of the account of reliable delivery.
Whether a datagram was sent for the first time is read off the datagram itself, by its flags.
-/

namespace DatagramCircuits

namespace Circuit

namespace Event

/-- What was put into a queue. -/
def queued? : Event → Option Outgoing
  | queued p => some p
  | _ => none

/-- The datagram that was sent. -/
def datagram? : Event → Option Octets
  | transmitted _ d _ => some d
  | signalled d => some d
  | _ => none

/-- What was taken out of a queue, and the datagram that was sent for it. -/
def transmission? : Event → Option (Outgoing × Octets)
  | transmitted p d _ => some (p, d)
  | _ => none

/-- The datagram that left the account because it was acknowledged. -/
def acknowledged? : Event → Option Outgoing
  | acknowledged p _ => some p
  | _ => none

/-- The datagram that left the account because of its age. -/
def outdated? : Event → Option Outgoing
  | outdated p => some p
  | _ => none

/-- The datagram that left the account to be handed out. -/
def unacknowledged? : Event → Option Outgoing
  | unacknowledged p => some p
  | _ => none

/-- The datagram that left the account when the circuit was closed. -/
def cleared? : Event → Option Outgoing
  | cleared p => some p
  | _ => none

/-- The datagram that left the account, in whatever way. -/
def departure? : Event → Option Outgoing
  | acknowledged p _ | outdated p | unacknowledged p | cleared p => some p
  | _ => none

end Event

/-- The datagrams that were put into queues. -/
def queued (l : List Event) : List Outgoing :=
  l.filterMap Event.queued?

/-- The datagrams sent out of queues, with what was taken out of the queue for each. -/
def transmissions (l : List Event) : List (Outgoing × Octets) :=
  l.filterMap Event.transmission?

/-- The datagrams that were sent, in order. -/
def emissions (l : List Event) : List Octets :=
  l.filterMap Event.datagram?

/-- The datagrams that left the account. -/
def departures (l : List Event) : List Outgoing :=
  l.filterMap Event.departure?

/-- The datagrams sent out of queues without the flag for those that were sent before. -/
def firstTransmissions (l : List Event) : List Octets :=
  ((transmissions l).map Prod.snd).filter fun d ↦ !(Datagram.flags d).resent

/-- The number of sequence numbers, as 0 is none of them. -/
def sequenceCount : Nat := 2 ^ 32 - 1

/-- A view of a record that consists of one kind of entry only. -/
theorem filterMap_map_eq_nil {α β : Type} {f : α → Event} {view : Event → Option β}
    (h : ∀ a, view (f a) = none) (as : List α) : (as.map f).filterMap view = [] := by
  simp [List.filterMap_map, h]

@[simp] theorem emissions_append (l k : List Event) :
    emissions (l ++ k) = emissions l ++ emissions k :=
  List.filterMap_append

@[simp] theorem transmissions_append (l k : List Event) :
    transmissions (l ++ k) = transmissions l ++ transmissions k :=
  List.filterMap_append

@[simp] theorem departures_append (l k : List Event) :
    departures (l ++ k) = departures l ++ departures k :=
  List.filterMap_append

@[simp] theorem firstTransmissions_append (l k : List Event) :
    firstTransmissions (l ++ k) = firstTransmissions l ++ firstTransmissions k := by
  simp [firstTransmissions]

theorem mem_transmissions {l : List Event} {p : Outgoing} {d : Octets} :
    (p, d) ∈ transmissions l ↔ ∃ now, .transmitted p d now ∈ l := by
  refine List.mem_filterMap.trans ⟨?_, ?_⟩
  · rintro ⟨ev, hev, h⟩
    cases ev <;> cases h
    exact ⟨_, hev⟩
  · rintro ⟨now, h⟩
    exact ⟨_, h, rfl⟩

end Circuit

end DatagramCircuits
