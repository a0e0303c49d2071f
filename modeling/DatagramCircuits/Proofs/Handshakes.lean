import DatagramCircuits.Proofs.Lifecycle
import DatagramCircuits.Proofs.Replays
/-!
# Requests for circuits

A request for a circuit is authorized by the application, which may take its time. **Meanwhile its
address is waited for:** no other request of the address is taken up, and what else arrives from
there is kept, up to a number. When the request is decided, everything that was kept is given to the
new circuit, or is forgotten.

What requests rest on holds between two changes (`Server.Waiting`). Who may make a change that has
to do with them is known from the step (`RunningServer.Asks`): decoding makes or keeps, and a
decision ends one request. So what is kept for an address are the first datagrams that arrived since
it asked (`RunningServer.exists_request_of_run`).
-/

namespace DatagramCircuits

open DatagramCircuits.Action (replays)

namespace Server

variable {s s' : Server} {k : List Effect} {id : CircuitId} {c : Circuit} {now : Instant}
  {a : Address} {source : Address} {datagram : Octets} {h : Handshake} {kept : List Octets}
  {position : Nat}

/-! ### What requests rest on -/

/-- A request of the address is being authorized. -/
def Waits (a : Address) (s : Server) : Prop :=
  a ∈ s.authorizing.map Handshake.address

instance (a : Address) (s : Server) : Decidable (s.Waits a) :=
  inferInstanceAs (Decidable (a ∈ s.authorizing.map Handshake.address))

/-- What may be kept for an address: datagrams that can be read, and not too many of them. -/
def Keepable (config : Config) (kept : List Octets) : Prop :=
  kept.length ≤ config.maxBuffered ∧ ∀ d ∈ kept, ∃ p, Datagram.parse config.mtu d = .ok p

/-- Requests that are being authorized are of different addresses, which have no circuit and for
which datagrams are kept. -/
structure Waiting (s : Server) : Prop where
  shards : 0 < s.pending.shards.length
  single : (s.authorizing.map Handshake.address).Nodup
  apart : ∀ a, s.Waits a → s.table.byAddress.get? a = none
  kept : ∀ a, s.Waits a → ∃ kept, s.pending.get? a = some kept
  keepable : ∀ a kept, s.pending.get? a = some kept → Keepable s.config kept

/-- A request that is decided was the only one of its address. -/
theorem Waiting.waits_decided (hs : s.Waiting) (hposition : s.authorizing[position]? = some h)
    (ha : (s.decided position).Waits a) : s.Waits a ∧ h.address ≠ a := by
  obtain ⟨hlt, rfl⟩ := List.getElem?_eq_some_iff.1 hposition
  have hsplit := (List.getElem_cons_eraseIdx_perm hlt).map Handshake.address
  have hnodup := hsplit.nodup_iff.2 hs.single
  refine ⟨hsplit.subset (List.mem_cons_of_mem _ ha), ?_⟩
  rintro rfl
  exact (List.nodup_cons.1 hnodup).1 ha

/-- What requests rest on holds as well where an address may have become free. -/
theorem Waiting.same (hs : s.Waiting) (hconfig : s'.config = s.config)
    (hpending : s'.pending = s.pending) (hauthorizing : s'.authorizing = s.authorizing)
    (htable : ∀ a, s.table.byAddress.get? a = none → s'.table.byAddress.get? a = none) :
    s'.Waiting := by
  have hwaits : ∀ a, s'.Waits a ↔ s.Waits a := fun a ↦ by rw [Waits, Waits, hauthorizing]
  refine ⟨hpending ▸ hs.shards, hauthorizing ▸ hs.single, fun a ha ↦ ?_, fun a ha ↦ ?_,
    fun a kept hkept ↦ ?_⟩
  · exact htable a (hs.apart a ((hwaits a).1 ha))
  · rw [hpending]
    exact hs.kept a ((hwaits a).1 ha)
  · rw [hconfig]
    exact hs.keepable a kept (hpending ▸ hkept)

/-- Closing a circuit frees its address, and touches nothing of requests. -/
theorem Waiting.closeCircuit (hs : s.Waiting) (id : CircuitId) (reason : CloseReason) :
    (s.closeCircuit id reason).2.Waiting := by
  cases hid : s.circuit? id with
  | none => rwa [closeCircuit_of_none reason hid]
  | some c =>
    cases hclosed : c.isClosed with
    | true => rwa [closeCircuit_of_closed reason hid hclosed]
    | false =>
      rw [closeCircuit_of_open reason hid hclosed]
      refine hs.same rfl rfl rfl fun a ha ↦ ?_
      change (Table.eraseIf s.table.byAddress c.address id).get? a = none
      rw [Table.get?_eraseIf]
      split
      · rfl
      · exact ha

/-- What requests rest on holds once the circuits in the way of another one are closed. -/
theorem Waiting.supersede (hs : s.Waiting) (ids : List CircuitId) : (s.supersede ids).Waiting := by
  induction ids generalizing s with
  | nil => exact hs
  | cons id ids ih => exact ih (hs.closeCircuit id .superseded)

/-- One address is not waited for any longer, and what was kept for it is gone. -/
theorem Waiting.remove (hs : s.Waiting) (hposition : s.authorizing[position]? = some h)
    (hconfig : s'.config = s.config) (hpending : s'.pending = (s.pending.remove h.address).2)
    (hauthorizing : s'.authorizing = s.authorizing.eraseIdx position)
    (htable : ∀ a, h.address ≠ a → s'.table.byAddress.get? a = s.table.byAddress.get? a) :
    s'.Waiting := by
  have hwaits : ∀ a, s'.Waits a → s.Waits a ∧ h.address ≠ a := fun a ha ↦ by
    rw [Waits, hauthorizing] at ha
    exact hs.waits_decided hposition ha
  have hget : ∀ a, s'.pending.get? a = if h.address = a then none else s.pending.get? a := fun a ↦ by
    rw [hpending, Sharded.get?_remove hs.shards]
  refine ⟨?_, ?_, fun a ha ↦ ?_, fun a ha ↦ ?_, fun a kept hkept ↦ ?_⟩
  · rw [hpending, Sharded.length_shards_remove]
    exact hs.shards
  · rw [hauthorizing]
    exact hs.single.sublist ((List.eraseIdx_sublist ..).map _)
  · obtain ⟨ha, hne⟩ := hwaits a ha
    rw [htable a hne]
    exact hs.apart a ha
  · obtain ⟨ha, hne⟩ := hwaits a ha
    rw [hget, if_neg hne]
    exact hs.kept a ha
  · rw [hget] at hkept
    split at hkept
    · cases hkept
    · rw [hconfig]
      exact hs.keepable a kept hkept

/-- What requests rest on holds with one more datagram, as long as there is room. -/
theorem Waiting.keep (hs : s.Waiting) {p : Packet}
    (hparse : Datagram.parse s.config.mtu datagram = .ok p)
    (hkept : s.pending.get? source = some kept) (hroom : kept.length < s.config.maxBuffered) :
    { s with pending := s.pending.insert source (kept ++ [datagram]) }.Waiting := by
  refine ⟨?_, hs.single, hs.apart, fun a ha ↦ ?_, fun a l hl ↦ ?_⟩
  · rw [Sharded.length_shards_insert]
    exact hs.shards
  · rw [Sharded.get?_insert hs.shards]
    split
    · exact ⟨_, rfl⟩
    · exact hs.kept a ha
  · rw [Sharded.get?_insert hs.shards] at hl
    split at hl
    · obtain rfl := Option.some.inj hl
      refine ⟨by rw [List.length_append]; exact hroom, fun d hd ↦ ?_⟩
      rcases List.mem_append.1 hd with hd | hd
      · exact (hs.keepable source kept hkept).2 d hd
      · rw [List.mem_singleton.1 hd]
        exact ⟨p, hparse⟩
    · exact hs.keepable a l hl

/-- What requests rest on holds with one more request, of an address that has neither a circuit nor
a request. -/
theorem Waiting.request (hs : s.Waiting) (hfree : s.table.byAddress.get? h.address = none)
    (hnew : s.pending.get? h.address = none) :
    { s with
      pending := s.pending.insert h.address []
      authorizing := s.authorizing ++ [h] }.Waiting := by
  have hwaits : ∀ a, a ∈ (s.authorizing ++ [h]).map Handshake.address → s.Waits a ∨ a = h.address := by
    intro a ha
    rw [List.map_append, List.mem_append] at ha
    exact ha.imp_right List.mem_singleton.1
  have hget : ∀ a, (s.pending.insert h.address []).get? a =
      if h.address = a then some [] else s.pending.get? a :=
    fun a ↦ Sharded.get?_insert hs.shards h.address a []
  refine ⟨?_, ?_, fun a ha ↦ ?_, fun a ha ↦ ?_, fun a l hl ↦ ?_⟩
  · rw [Sharded.length_shards_insert]
    exact hs.shards
  · rw [List.map_append, List.map_singleton, List.nodup_append]
    refine ⟨hs.single, List.nodup_singleton _, fun a ha b hb ↦ ?_⟩
    rw [List.mem_singleton.1 hb]
    rintro rfl
    obtain ⟨kept, hkept⟩ := hs.kept _ ha
    cases hkept.symm.trans hnew
  · rcases hwaits a ha with ha | rfl
    · exact hs.apart a ha
    · exact hfree
  · rw [hget]
    split
    · exact ⟨_, rfl⟩
    · exact hs.kept a ((hwaits a ha).resolve_right fun heq ↦ absurd heq.symm ‹_›)
  · rw [hget] at hl
    split at hl
    · obtain rfl := Option.some.inj hl
      exact ⟨Nat.zero_le _, fun d hd ↦ absurd hd List.not_mem_nil⟩
    · exact hs.keepable a l hl

/-- **Whatever changes,** requests rest on this. -/
theorem Waiting.change (hs : s.Waiting) (hchange : Change s k s') : s'.Waiting := by
  cases hchange with
  | aside hsame =>
    exact hs.same hsame.config hsame.pending hsame.authorizing fun a ha ↦ hsame.table ▸ ha
  | adjust => exact hs.same rfl rfl rfl fun _ ha ↦ ha
  | close reason => exact hs.closeCircuit _ reason
  | keep hparse _ hkept hroom => exact hs.keep hparse hkept hroom
  | request hfree hnew => exact hs.request hfree hnew
  | @grant position h session now c forest _ hposition =>
    have hentered : ((s.decided position).entered h.address c forest).Waiting := by
      refine hs.remove hposition rfl rfl rfl fun a hne ↦ ?_
      exact (Dict.get?_insert ..).trans (if_neg hne)
    exact hentered.supersede _
  | abandon hposition =>
    refine ⟨hs.shards, hs.single.sublist ((List.eraseIdx_sublist ..).map _), fun a ha ↦ ?_,
      fun a ha ↦ ?_, hs.keepable⟩
    · exact hs.apart a (hs.waits_decided hposition ha).1
    · exact hs.kept a (hs.waits_decided hposition ha).1
  | deny hposition => exact hs.remove hposition rfl rfl rfl fun _ _ ↦ rfl

/-! ### Decoding -/

/-- Taking in a datagram has nothing to do with requests. -/
theorem requests_receive (id : CircuitId) (p : Packet) (length : Nat) (now : Instant) (s : Server) :
    (s.receive id p length now).2.pending = s.pending ∧
      (s.receive id p length now).2.authorizing = s.authorizing := by
  obtain ⟨k, hcalm, -⟩ := leads_receive id p length now s
  exact requests_of_calm hcalm

/-- What arrives from elsewhere has nothing to do with an address. -/
theorem handle_of_ne (hs : s.Waiting) (hne : source ≠ a) (datagram : Octets) (now : Instant) :
    (s.handle source datagram now).2.pending.get? a = s.pending.get? a ∧
      ((s.handle source datagram now).2.Waits a ↔ s.Waits a) := by
  rw [handle, readDatagram]
  split
  · rename_i p hparse
    split
    · rename_i id hid
      obtain ⟨hpending, hauthorizing⟩ := requests_receive id p datagram.length now s
      rw [hpending, Waits, hauthorizing]
      exact ⟨rfl, Iff.rfl⟩
    · split
      · rw [keep]
        split
        · exact ⟨(Sharded.get?_insert hs.shards ..).trans (if_neg hne), Iff.rfl⟩
        · exact ⟨rfl, Iff.rfl⟩
      · rw [request]
        split
        · exact ⟨rfl, Iff.rfl⟩
        · split
          · exact ⟨rfl, Iff.rfl⟩
          · refine ⟨(Sharded.get?_insert hs.shards ..).trans (if_neg hne), ?_⟩
            rw [Waits, Waits, List.map_append, List.mem_append, or_iff_left_iff_imp]
            exact fun ha ↦ absurd (List.mem_singleton.1 ha).symm hne
  · exact ⟨rfl, Iff.rfl⟩
  · exact ⟨rfl, Iff.rfl⟩

/-- A datagram from the peer of a circuit is taken in by the circuit. -/
theorem handle_of_circuit {p : Packet} (hparse : Datagram.parse s.config.mtu datagram = .ok p)
    (hid : s.table.byAddress.get? a = some id) (now : Instant) :
    s.handle a datagram now = s.receive id p datagram.length now := by
  simp only [handle, readDatagram, hparse, hid]

/-- A datagram from an address that is waited for is kept. -/
theorem handle_of_kept {p : Packet} (hparse : Datagram.parse s.config.mtu datagram = .ok p)
    (hfree : s.table.byAddress.get? a = none) (hkept : s.pending.get? a = some kept)
    (now : Instant) : s.handle a datagram now = (.finished, s.keep a datagram kept) := by
  simp only [handle, readDatagram, hparse, hfree, hkept]

/-- A datagram from anywhere else may be a request. -/
theorem handle_of_new {p : Packet} (hparse : Datagram.parse s.config.mtu datagram = .ok p)
    (hfree : s.table.byAddress.get? a = none) (hnew : s.pending.get? a = none) (now : Instant) :
    s.handle a datagram now = (.finished, s.request a p datagram.length) := by
  simp only [handle, readDatagram, hparse, hfree, hnew]

/-- What can not be read has nothing to do with requests. -/
theorem handle_of_unreadable (hparse : (Datagram.parse s.config.mtu datagram).isOk = false)
    (now : Instant) : (s.handle a datagram now).2.pending = s.pending ∧
      (s.handle a datagram now).2.authorizing = s.authorizing := by
  rw [handle, readDatagram]
  split
  · rename_i heq
    rw [heq] at hparse
    cases hparse
  · exact ⟨rfl, rfl⟩
  · exact ⟨rfl, rfl⟩

/-- **While an address is waited for,** what arrives from there is kept behind what was kept before,
as long as there is room. -/
theorem kept_handle (hs : s.Waiting) (ha : s.Waits a) (source : Address) (datagram : Octets)
    (now : Instant) :
    (s.handle source datagram now).2.Waits a ∧ ∃ kept, s.pending.get? a = some kept ∧
      (s.handle source datagram now).2.pending.get? a = some ((kept ++
        if source = a ∧ (Datagram.parse s.config.mtu datagram).isOk then [datagram] else []).take
          s.config.maxBuffered) := by
  obtain ⟨kept, hkept⟩ := hs.kept a ha
  have hfull := (hs.keepable a kept hkept).1
  by_cases hsource : source = a
  · subst hsource
    cases hparse : Datagram.parse s.config.mtu datagram with
    | error e =>
      obtain ⟨hpending, hauthorizing⟩ := handle_of_unreadable (a := source) (by rw [hparse]; rfl) now
      refine ⟨by rwa [Waits, hauthorizing], kept, hkept, ?_⟩
      rw [hpending, hkept, if_neg (by simp [Except.isOk, Except.toBool]), List.append_nil,
        List.take_of_length_le hfull]
    | ok p =>
      rw [handle_of_kept hparse (hs.apart source ha) hkept, if_pos ⟨rfl, rfl⟩, keep]
      split
      · rename_i hroom
        refine ⟨ha, kept, hkept, ?_⟩
        rw [List.take_of_length_le (by rw [List.length_append]; exact hroom)]
        exact (Sharded.get?_insert hs.shards ..).trans (if_pos rfl)
      · rename_i hroom
        refine ⟨ha, kept, hkept, ?_⟩
        rw [List.take_append_of_le_length (Nat.le_of_not_lt hroom), List.take_of_length_le hfull]
        exact hkept
  · obtain ⟨hpending, hwaits⟩ := handle_of_ne hs hsource datagram now
    refine ⟨hwaits.2 ha, kept, hkept, ?_⟩
    rw [hpending, if_neg fun hand ↦ hsource hand.1, List.append_nil, List.take_of_length_le hfull]
    exact hkept

/-- An address that asks is waited for with nothing kept. -/
theorem waits_handle (hs : s.Waiting) (ha : ¬s.Waits a)
    (hwaits : (s.handle source datagram now).2.Waits a) :
    (s.handle source datagram now).2.pending.get? a = some [] := by
  have hsource : source = a := by
    by_contra hne
    exact ha ((handle_of_ne hs hne datagram now).2.1 hwaits)
  subst hsource
  cases hparse : Datagram.parse s.config.mtu datagram with
  | error e =>
    have hsame := (handle_of_unreadable (a := source) (by rw [hparse]; rfl) now).2
    rw [Waits, hsame] at hwaits
    exact absurd hwaits ha
  | ok p =>
    cases hid : s.table.byAddress.get? source with
    | some id =>
      rw [handle_of_circuit hparse hid, Waits, (requests_receive ..).2] at hwaits
      exact absurd hwaits ha
    | none =>
      cases hkept : s.pending.get? source with
      | some kept =>
        rw [handle_of_kept hparse hid hkept, keep] at hwaits
        split at hwaits <;> exact absurd hwaits ha
      | none =>
        rw [handle_of_new hparse hid hkept, request] at hwaits ⊢
        split at hwaits
        · exact absurd hwaits ha
        · split at hwaits
          · exact absurd hwaits ha
          · rename_i hsetup _ request rest hrequest
            rw [if_neg hsetup]
            exact (Sharded.get?_insert hs.shards ..).trans (if_pos rfl)

/-! ### Decisions -/

/-- Actions that decode nothing have nothing to do with requests. -/
theorem calm_advance (now : Instant) {l : List Action} (hl : ∀ a ∈ l, a.arrival? = none) (s : Server) :
    ∃ k, Chain Calm s k (s.advance now l).2 := by
  induction l generalizing s with
  | nil => exact ⟨[], Chain.refl⟩
  | cons a l ih =>
    obtain ⟨k, hcalm, -⟩ := leads_calm now (hl a List.mem_cons_self) s
    rw [advance]
    split <;> rename_i s₁ heq <;> rw [heq] at hcalm
    · obtain ⟨k', hcalm'⟩ := ih (fun b hb ↦ hl b (List.mem_cons_of_mem a hb)) s₁
      exact ⟨k ++ k', hcalm.trans hcalm'⟩
    · exact ⟨k, hcalm⟩
    · exact ⟨k, hcalm⟩

theorem advance_singleton (now : Instant) (a : Action) (s : Server) :
    (s.advance now [a]).2 = (s.perform now a).2 := by
  rw [advance]
  split <;> rename_i heq <;> rw [heq]
  rfl

/-- A circuit that is installed takes what was kept for it. -/
theorem requests_install (address : Address) (c : Circuit) (forest : Forest) (s : Server) :
    (s.install address c forest).2.pending = (s.pending.remove address).2 ∧
      (s.install address c forest).2.authorizing = s.authorizing := by
  obtain ⟨k, hcalm, -⟩ := calm_supersede (s.table.insert address c.agent s.circuits.length).1
    (s.entered address c forest)
  exact requests_of_calm hcalm

/-- A circuit that is opened, and takes in its request, is set up: what was kept is to be replayed.
-/
theorem establish_of_opened {session : Session} {forest : Forest} {d : Disposition}
    (hopened : Circuit.opened session h.address s.config s.root now s.forest = .ok (c, forest))
    (hreceive : (c.receive h.packet h.length now).1 = .ok d) :
    s.establish h session now =
      (.ok ((c.receive h.packet h.length now).2.flushAcks.1, .announce s.circuits.length ::
          ((s.pending.get? h.address).getD []).map (.replay s.circuits.length ·)),
        (s.install h.address c forest).2.putCircuit s.circuits.length
          (c.receive h.packet h.length now).2.flushAcks.2) := by
  rw [establish, hopened]
  dsimp only
  split
  · rename_i heq
    rw [heq] at hreceive
    cases hreceive
  · rename_i heq
    rw [heq]
    rfl

/-- Where a fault keeps the new circuit from taking the request in, the circuit is installed all the
same, and what was kept for it is gone. -/
theorem establish_of_fault {session : Session} {forest : Forest} {fault : Fault}
    (hopened : Circuit.opened session h.address s.config s.root now s.forest = .ok (c, forest))
    (hreceive : (c.receive h.packet h.length now).1 = .error fault) :
    s.establish h session now = (.error fault, (s.install h.address c forest).2.putCircuit
      s.circuits.length (c.receive h.packet h.length now).2) := by
  rw [establish, hopened]
  dsimp only
  split
  · rename_i heq
    rw [heq] at hreceive ⊢
    obtain rfl := Except.error.inj hreceive
    rfl
  · rename_i heq
    rw [heq] at hreceive
    cases hreceive

/-- The circuit of a request as it is opened, if no fault keeps it from that or from taking in the
request. -/
def opening? (h : Handshake) (session : Session) (now : Instant) (s : Server) : Option Circuit :=
  match Circuit.opened session h.address s.config s.root now s.forest with
  | .ok (c, _) => if (c.receive h.packet h.length now).1.isOk then some c else none
  | .error _ => none

/-- A circuit that is set up was opened, and took in the datagram of its request. -/
theorem exists_of_opening? {session : Session} (hc : s.opening? h session now = some c) :
    ∃ forest d, Circuit.opened session h.address s.config s.root now s.forest = .ok (c, forest) ∧
      (c.receive h.packet h.length now).1 = .ok d := by
  rw [opening?] at hc
  split at hc
  · rename_i c' forest hopened
    split at hc
    · obtain rfl := Option.some.inj hc
      cases hreceive : (c'.receive h.packet h.length now).1 with
      | error fault => simp_all [Except.isOk, Except.toBool]
      | ok d => exact ⟨forest, d, hopened, rfl⟩
    · cases hc
  · cases hc

/-- When a request is decided, all that was kept for its address is taken out, unless a fault keeps
the circuit from being opened. -/
theorem requests_conclude (h : Handshake) (result : Authorization) (now : Instant) (s : Server) :
    (s.conclude h result now).2.authorizing = s.authorizing ∧
      ((s.conclude h result now).2.pending = s.pending ∨
        (s.conclude h result now).2.pending = (s.pending.remove h.address).2) := by
  cases result with
  | denied => exact ⟨rfl, .inr rfl⟩
  | granted session =>
    rw [conclude]
    cases hopened : Circuit.opened session h.address s.config s.root now s.forest with
    | error fault =>
      rw [establish, hopened]
      exact ⟨rfl, .inl rfl⟩
    | ok opened =>
      obtain ⟨c, forest⟩ := opened
      obtain ⟨hpending, hauthorizing⟩ := s.requests_install h.address c forest
      cases hreceive : (c.receive h.packet h.length now).1 with
      | error fault =>
        rw [establish_of_fault hopened hreceive]
        exact ⟨hauthorizing, .inr hpending⟩
      | ok d =>
        rw [establish_of_opened hopened hreceive]
        cases (c.receive h.packet h.length now).2.flushAcks.1 with
        | nil =>
          -- the task goes on at once, and replaying asks for no circuit
          have hplain : ∀ a ∈ Action.announce s.circuits.length ::
              ((s.pending.get? h.address).getD []).map (.replay s.circuits.length ·),
              a.arrival? = none := by
            intro a ha
            rcases List.mem_cons.1 ha with rfl | ha
            · rfl
            · obtain ⟨d, -, rfl⟩ := List.mem_map.1 ha
              rfl
          obtain ⟨k, hcalm⟩ := calm_advance now hplain
            ((s.install h.address c forest).2.putCircuit s.circuits.length
              (c.receive h.packet h.length now).2.flushAcks.2)
          obtain ⟨hpending', hauthorizing'⟩ := requests_of_calm hcalm
          exact ⟨hauthorizing'.trans hauthorizing, .inr (hpending'.trans hpending)⟩
        | cons d acks => exact ⟨hauthorizing, .inr hpending⟩

end Server

namespace RunningServer

open Server

variable {now : Instant} {e : Step} {r r' r₀ : RunningServer} {a : Address} {position : Nat}
  {h : Handshake} {history : List (Instant × Step)} {id : CircuitId}

/-! ### Steps -/

/-- The datagram that a step decodes, if it comes from the address and can be read. -/
def arrival? (a : Address) (e : Step) (r : RunningServer) : Option Octets :=
  match e, r.decoding, r.server.inbox with
  | .decode, .idle, (source, datagram) :: _ =>
    if source = a ∧ (Datagram.parse r.server.config.mtu datagram).isOk then some datagram else none
  | _, _, _ => none

/-- What a step has to do with requests. -/
inductive Asks (now : Instant) (e : Step) (r r' : RunningServer) : Prop
  /-- Nothing. -/
  | idle (hpending : r'.server.pending = r.server.pending)
      (hauthorizing : r'.server.authorizing = r.server.authorizing)
      (harrival : ∀ a, r.arrival? a e = none)
  /-- It decodes a datagram. -/
  | decodes {source : Address} {datagram : Octets} {inbox : List (Address × Octets)}
      (hserver : r'.server = ({ r.server with inbox }.handle source datagram now).2)
      (harrival : ∀ a, r.arrival? a e =
        if source = a ∧ (Datagram.parse r.server.config.mtu datagram).isOk then some datagram
        else none)
  /-- It decides a request. -/
  | decides {position : Nat} {h : Handshake} (hposition : r.server.authorizing[position]? = some h)
      (hauthorizing : r'.server.authorizing = (r.server.decided position).authorizing)
      (hpending : r'.server.pending = r.server.pending ∨
        r'.server.pending = (r.server.pending.remove h.address).2)
      (harrival : ∀ a, r.arrival? a e = none)

/-- Calm work asks for nothing. -/
theorem asks_of_calm {k : List Effect} (h : Chain Calm r.server k r'.server)
    (harrival : ∀ a, r.arrival? a e = none) : Asks now e r r' :=
  .idle (requests_of_calm h).1 (requests_of_calm h).2 harrival

/-- Decoding asks for a circuit, or keeps a datagram, or has nothing to do with requests. -/
theorem asks_decode (now : Instant) (r : RunningServer) :
    Asks now .decode r (r.step now .decode) := by
  match hloop : r.decoding, hinbox : r.server.inbox with
  | .idle, (source, datagram) :: inbox =>
    have hserver : (r.step now .decode).server =
        ({ r.server with inbox }.handle source datagram now).2 := by
      simp only [step, decode, hloop, hinbox]
      exact advance_singleton ..
    exact .decodes hserver fun a ↦ by simp only [arrival?, hloop, hinbox]
  | .idle, [] | .busy _, _ | .ended, _ =>
    have hsame : r.step now .decode = r := by simp only [step, decode, hloop, hinbox]
    rw [hsame]
    exact .idle rfl rfl fun a ↦ by simp only [arrival?, hloop, hinbox]

/-- A decision ends its request, and no other one. -/
theorem asks_authorize (position : Nat) (result : Authorization) (now : Instant) (r : RunningServer) :
    Asks now (.authorize position result) r (r.step now (.authorize position result)) := by
  cases hposition : r.server.authorizing[position]? with
  | none =>
    rw [step_authorize_of_none hposition]
    exact .idle rfl rfl fun _ ↦ rfl
  | some h =>
    rw [step_authorize_of_some hposition]
    obtain ⟨hauthorizing, hpending⟩ := (r.server.decided position).requests_conclude h result now
    refine .decides hposition ?_ ?_ fun _ ↦ rfl <;> rw [server_settled]
    · exact hauthorizing
    · exact hpending

/-- **Only decoding and decisions** have to do with requests. -/
theorem asks_of_step (hr : Entrusted r) (now : Instant) (e : Step) : Asks now e r (r.step now e) := by
  by_cases hdecode : e = .decode
  · subst hdecode
    exact asks_decode now r
  by_cases hdecides : Decides e
  · cases e with
    | authorize position result => exact asks_authorize position result now r
    | _ => cases hdecides
  have harrival : ∀ a, r.arrival? a e = none := by
    intro a
    unfold arrival?
    split
    · exact absurd rfl hdecode
    · rfl
  have hprogress := progress_of_step now e r
  generalize r.part? now e = part at hprogress
  cases hprogress with
  | stay _ hcalm =>
    obtain ⟨k, hquiet, -⟩ := hcalm.resolve_left hdecides
    exact asks_of_calm hquiet harrival
  | begin _ h => exact absurd h hdecides
  | @go l before s others _ hcalm hserver hbefore hl =>
    obtain ⟨k, hquiet, -⟩ := hcalm.resolve_left hdecides
    have hplain : ∀ a ∈ l, a.arrival? = none := by
      rcases hl with ⟨rfl, -⟩ | ⟨-, hl⟩
      · exact ((hbefore.forall_iff (p := fun l ↦ ∀ a ∈ l, a.arrival? = none)
          fun _ h ↦ absurd h List.not_mem_nil).1 hr.plain).1
      · exact hl.eq_or_plain.resolve_left fun h ↦ hdecode h.1
    obtain ⟨k', hadvance⟩ := calm_advance now hplain s
    rw [← hserver] at hadvance
    exact asks_of_calm (hquiet.trans hadvance) harrival

/-- What requests rest on is kept by every step. -/
theorem waiting_of_step (hs : r.server.Waiting) (now : Instant) (e : Step) :
    (r.step now e).server.Waiting := by
  obtain ⟨k, hchain⟩ := chain_of_step now e r
  exact hchain.preserves (motive := fun _ s ↦ s.Waiting) (k := []) hs fun hbefore h ↦ hbefore.change h

/-- As long as an address is waited for, what arrives from there is kept in order. -/
theorem kept_of_step (hr : Entrusted r) (hs : r.server.Waiting) (hbefore : r.server.Waits a)
    (hafter : (r.step now e).server.Waits a) : ∃ kept, r.server.pending.get? a = some kept ∧
      (r.step now e).server.pending.get? a =
        some ((kept ++ (r.arrival? a e).toList).take r.server.config.maxBuffered) := by
  obtain ⟨kept, hkept⟩ := hs.kept a hbefore
  have hfull := (hs.keepable a kept hkept).1
  cases asks_of_step hr now e with
  | idle hpending _ harrival =>
    refine ⟨kept, hkept, ?_⟩
    rw [hpending, harrival, Option.toList_none, List.append_nil, List.take_of_length_le hfull]
    exact hkept
  | @decodes source datagram inbox hserver harrival =>
    have hinbox : { r.server with inbox }.Waiting := hs.same rfl rfl rfl fun _ h ↦ h
    obtain ⟨-, kept', hkept', hafter'⟩ := kept_handle hinbox hbefore source datagram now
    refine ⟨kept', hkept', ?_⟩
    rw [hserver, hafter', harrival]
    split <;> rfl
  | decides hposition hauthorizing hpending harrival =>
    rw [Waits, hauthorizing] at hafter
    have hne := (hs.waits_decided hposition hafter).2
    refine ⟨kept, hkept, ?_⟩
    rw [harrival, Option.toList_none, List.append_nil, List.take_of_length_le hfull]
    rcases hpending with hpending | hpending
    · rw [hpending]
      exact hkept
    · rw [hpending, Sharded.get?_remove hs.shards, if_neg hne]
      exact hkept

/-- An address that asks is waited for with nothing kept. -/
theorem waits_of_step (hr : Entrusted r) (hs : r.server.Waiting) (hbefore : ¬r.server.Waits a)
    (hafter : (r.step now e).server.Waits a) : (r.step now e).server.pending.get? a = some [] := by
  cases asks_of_step hr now e with
  | idle _ hauthorizing =>
    rw [Waits, hauthorizing] at hafter
    exact absurd hafter hbefore
  | @decodes source datagram inbox hserver =>
    have hinbox : { r.server with inbox }.Waiting := hs.same rfl rfl rfl fun _ h ↦ h
    rw [hserver] at hafter ⊢
    exact waits_handle hinbox hbefore hafter
  | decides hposition hauthorizing =>
    rw [Waits, hauthorizing] at hafter
    exact absurd (hs.waits_decided hposition hafter).1 hbefore

/-! ### Histories -/

/-- The datagrams from an address that are decoded in a history and can be read, in order. -/
def arrivals (a : Address) : List (Instant × Step) → RunningServer → List Octets
  | [], _ => []
  | (now, e) :: history, r => (r.arrival? a e).toList ++ arrivals a history (r.step now e)

/-- What arrives in two parts of a history follows each other. -/
theorem arrivals_append (a : Address) (history later : List (Instant × Step)) (r : RunningServer) :
    arrivals a (history ++ later) r = arrivals a history r ++ arrivals a later (r.run history) := by
  induction history generalizing r with
  | nil => rfl
  | cons e history ih =>
    obtain ⟨now, e⟩ := e
    rw [List.cons_append, arrivals, ih, arrivals, run_cons, List.append_assoc]

/-- The settings are fixed. -/
theorem config_of_run (history : List (Instant × Step)) (r : RunningServer) :
    (r.run history).server.config = r.server.config := by
  obtain ⟨k, hchain⟩ := chain_of_run history r
  exact config_of_chain hchain

/-- What requests rest on is kept by every history. -/
theorem waiting_of_run (hs : r.server.Waiting) (history : List (Instant × Step)) :
    (r.run history).server.Waiting :=
  run_induction (p := fun r ↦ r.server.Waiting) (fun now e _ hs ↦ waiting_of_step hs now e) history hs

theorem take_take_append {α : Type} (l k : List α) (n : ℕ) :
    (l.take n ++ k).take n = (l ++ k).take n := by
  rw [List.take_append, List.take_append, List.take_take, Nat.min_self, List.length_take]
  congr 2
  omega

/-- **What is kept for an address** are the first datagrams that arrived since it asked. -/
theorem exists_request_of_run (hr : Entrusted r₀) (hs : r₀.server.Waiting) (hnone : ¬r₀.server.Waits a)
    (ha : (r₀.run history).server.Waits a) :
    ∃ h₁ now e h₂, history = h₁ ++ (now, e) :: h₂ ∧ ¬(r₀.run h₁).server.Waits a ∧
      (∀ h₃, h₃ <+: h₂ → (r₀.run (h₁ ++ (now, e) :: h₃)).server.Waits a) ∧
      (r₀.run history).server.pending.get? a =
        some ((arrivals a h₂ (r₀.run (h₁ ++ [(now, e)]))).take r₀.server.config.maxBuffered) := by
  induction history using List.reverseRecOn with
  | nil => exact absurd ha hnone
  | append_singleton history e ih =>
    obtain ⟨now, e⟩ := e
    have hstep : r₀.run (history ++ [(now, e)]) = (r₀.run history).step now e := run_append ..
    have hentrusted := entrusted_of_run hr history
    have hwaiting := waiting_of_run hs history
    rw [hstep] at ha ⊢
    by_cases hbefore : (r₀.run history).server.Waits a
    · obtain ⟨h₁, now', e', h₂, rfl, hnot, hwaits, hpending⟩ := ih hbefore
      obtain ⟨kept, hkept, hafter⟩ := kept_of_step hentrusted hwaiting hbefore ha
      refine ⟨h₁, now', e', h₂ ++ [(now, e)], by simp, hnot, fun h₃ hprefix ↦ ?_, ?_⟩
      · rcases List.prefix_concat_iff.1 hprefix with rfl | hprefix
        · rw [← List.cons_append, ← List.append_assoc, hstep]
          exact ha
        · exact hwaits h₃ hprefix
      · obtain rfl := Option.some.inj (hpending.symm.trans hkept)
        have hrun : (r₀.run (h₁ ++ [(now', e')])).run h₂ = r₀.run (h₁ ++ (now', e') :: h₂) := by
          rw [← run_append, List.append_assoc]
          rfl
        rw [hafter, config_of_run, take_take_append, arrivals_append, hrun]
        simp only [arrivals, List.append_nil]
    · refine ⟨history, now, e, [], rfl, hbefore, fun h₃ hprefix ↦ ?_, ?_⟩
      · rw [List.prefix_nil.1 hprefix, hstep]
        exact ha
      · rw [arrivals, List.take_nil]
        exact waits_of_step hentrusted hwaiting hbefore ha

/-- **A request is granted,** with `c` the circuit as it is opened and `kept` what arrived
meanwhile. The circuit is the next one. -/
structure SetsUp (now : Instant) (position : Nat) (h : Handshake) (session : Session) (c : Circuit)
    (kept : List Octets) (r : RunningServer) : Prop where
  /-- The circuit takes in its request before anything else. What is left to be done is to
  acknowledge that, to announce the circuit, and to replay what was kept. -/
  first : ∃ s, (r.server.decided position).establish h session now =
      (.ok ((c.receive h.packet h.length now).2.flushAcks.1, .announce r.server.circuits.length ::
        kept.map (.replay r.server.circuits.length ·)), s) ∧
    s.circuit? r.server.circuits.length = some (c.receive h.packet h.length now).2.flushAcks.2 ∧
    s.table.byAddress.get? h.address = some r.server.circuits.length
  /-- No task had anything to do with the circuit before. -/
  fresh : ∀ l ∈ r.tasks, ∀ b ∈ l, b.duty? ≠ some r.server.circuits.length
  /-- What is replayed is given to the circuit, whenever that happens. -/
  given : ∀ d ∈ kept, ∃ p, ∀ later now', (r.run later).server.replay r.server.circuits.length d now' =
    (r.run later).server.receive r.server.circuits.length p d.length now'
  /-- Whatever comes next, what was kept is replayed in order and once, as far as it is not left for
  later. Only a fault of the task that has it makes that untrue. -/
  once : ∀ later, ∃ lost, kept =
      replayed r.server.circuits.length ((now, .authorize position (.granted session)) :: later) r ++
        (r.run ((now, .authorize position (.granted session)) :: later)).left
          r.server.circuits.length ++ lost ∧
      (lost ≠ [] → ∃ h₁ now' e h₂,
        (now, .authorize position (.granted session)) :: later = h₁ ++ (now', e) :: h₂ ∧
          (r.run h₁).Fails r.server.circuits.length now' e)
  /-- Nothing is left in the end, if the task goes on again and again. -/
  ends : ∀ schedule,
    (r.step now (.authorize position (.granted session))).Fair r.server.circuits.length schedule →
    ∃ n, ((r.step now (.authorize position (.granted session))).after schedule n).left
      r.server.circuits.length = []

/-- **A request is denied.** -/
structure TurnsDown (now : Instant) (position : Nat) (h : Handshake) (r : RunningServer) : Prop where
  /-- The address is not waited for any longer. That and a counter is all that changes. -/
  onlyForgets : r.step now (.authorize position .denied) = r.withServer { r.server with
    authorizing := r.server.authorizing.eraseIdx position
    pending := (r.server.pending.remove h.address).2
    counters := r.server.counters.countDenied }
  /-- Nothing that happens then has to do with what was kept: it might have been anything. -/
  traceless : ∀ kept, (r.withServer { r.server with
      pending := r.server.pending.insert h.address kept }).step now (.authorize position .denied) =
    r.step now (.authorize position .denied)
  /-- The address may ask again. -/
  anew : ∀ datagram p request rest now',
    Datagram.parse r.server.config.mtu datagram = .ok p → p.id = .setup →
    SetupRequest.read p.payload = .ok (request, rest) →
    ((r.step now (.authorize position .denied)).server.handle h.address datagram now').1 = .finished ∧
    ((r.step now (.authorize position .denied)).server.handle h.address datagram now').2.authorizing =
      r.server.authorizing.eraseIdx position ++ [⟨h.address, request, p, datagram.length⟩]

/-- How requests for circuits fare in a history, and how they fare next. -/
structure Requests (r₀ : RunningServer) (history : List (Instant × Step)) : Prop where
  /-- No two requests that are being authorized are of one address, and the address has no circuit.
  -/
  single : ((r₀.run history).server.authorizing.map Handshake.address).Nodup ∧
    ∀ a, (r₀.run history).server.Waits a →
      (r₀.run history).server.table.byAddress.get? a = none
  /-- What is kept for an address that is waited for are the first datagrams that arrived since it
  asked. -/
  kept : ∀ a, (r₀.run history).server.Waits a →
    ∃ h₁ now e h₂, history = h₁ ++ (now, e) :: h₂ ∧ ¬(r₀.run h₁).server.Waits a ∧
      (∀ h₃, h₃ <+: h₂ → (r₀.run (h₁ ++ (now, e) :: h₃)).server.Waits a) ∧
      (r₀.run history).server.pending.get? a =
        some ((arrivals a h₂ (r₀.run (h₁ ++ [(now, e)]))).take r₀.server.config.maxBuffered)
  /-- One more datagram from there is kept, or else counted, and nothing comes of it yet. -/
  next : ∀ a datagram inbox now, (r₀.run history).server.Waits a →
    (r₀.run history).decoding = .idle → (r₀.run history).server.inbox = (a, datagram) :: inbox →
    (Datagram.parse r₀.server.config.mtu datagram).isOk →
    ∃ kept, (r₀.run history).server.pending.get? a = some kept ∧
      ((r₀.run history).step now .decode).tasks = (r₀.run history).tasks ∧
      ((r₀.run history).step now .decode).server =
        if kept.length < r₀.server.config.maxBuffered then { (r₀.run history).server with
          inbox, pending := (r₀.run history).server.pending.insert a (kept ++ [datagram]) }
        else { (r₀.run history).server with inbox }.drop .orphaned
  /-- A request that is granted is set up, unless it takes a fault to open the circuit or to take in
  the request. -/
  granted : ∀ position h session now c,
    (r₀.run history).server.authorizing[position]? = some h →
    (r₀.run history).server.opening? h session now = some c →
    ∃ kept, (r₀.run history).server.pending.get? h.address = some kept ∧
      (r₀.run history).SetsUp now position h session c kept
  /-- A request that is denied leaves no trace. -/
  denied : ∀ position h now, (r₀.run history).server.authorizing[position]? = some h →
    (r₀.run history).TurnsDown now position h

/-- No circuit is added after the one that was set up, until its task waits. -/
theorem length_conclude {s s' : Server} {session : Session} {acks : List Octets} {rest : List Action}
    (hestablish : s.establish h session now = (.ok (acks, rest), s')) :
    (r.settled (s.conclude h (.granted session) now)).server.circuits.length =
      s'.circuits.length := by
  rw [server_settled, conclude, hestablish]
  cases acks with
  | nil =>
    obtain ⟨k, hwork⟩ := work_advance now rest s'
    exact length_of_work hwork
  | cons d acks => rfl

/-- The tasks owe something only to circuits that there are. -/
theorem duty?_lt_of_mem (hr : Entrusted r) (hsound : Sound r) {l : List Action} (hl : l ∈ r.tasks)
    {b : Action} (hb : b ∈ l) {id : CircuitId} (hduty : b.duty? = some id) :
    id < r.server.circuits.length := by
  have hpromise : ∀ {x}, b.report? = some x → x.circuit < r.server.circuits.length := fun hx ↦
    hsound.promised _ (List.mem_filterMap.2 ⟨b, List.mem_flatten_of_mem hl hb, hx⟩)
  cases b with
  | announce =>
    obtain rfl := Option.some.inj hduty
    exact hpromise rfl
  | deliver =>
    obtain rfl := Option.some.inj hduty
    exact hpromise rfl
  | replay j datagram =>
    obtain rfl := Option.some.inj hduty
    refine hr.known l hl _ (List.ne_nil_of_mem (a := datagram) ?_)
    exact List.mem_filterMap.2 ⟨_, hb, if_pos rfl⟩
  | transmit | countSent | handle | serve => cases hduty

/-- **A request that is granted** sets up a circuit, unless the circuit can not be opened or take in
the request. -/
theorem setsUp_of_granted (hr : Entrusted r) (hs : r.server.Waiting) (hsound : Sound r)
    {session : Session} {c : Circuit} (hposition : r.server.authorizing[position]? = some h)
    (hopening : r.server.opening? h session now = some c) :
    ∃ kept, r.server.pending.get? h.address = some kept ∧ r.SetsUp now position h session c kept := by
  obtain ⟨forest, d, hopened, hreceive⟩ := exists_of_opening? hopening
  obtain ⟨kept, hkept⟩ := hs.kept h.address
    (List.mem_map.2 ⟨h, List.mem_of_getElem? hposition, rfl⟩)
  have hestablish := establish_of_opened (s := r.server.decided position) hopened hreceive
  rw [show (r.server.decided position).pending.get? h.address = some kept from hkept,
    Option.getD_some] at hestablish
  change _ = (Except.ok (_, Action.announce r.server.circuits.length ::
    kept.map (Action.replay r.server.circuits.length ·)), _) at hestablish
  obtain ⟨k, hchain, -⟩ := changesQuietly_establish hposition session now
  rw [hestablish] at hchain
  obtain ⟨-, haddress, hopen, -⟩ := Circuit.exists_of_opened hopened
  have hstanding : (c.receive h.packet h.length now).2.flushAcks.2.standing = c.standing :=
    (Circuit.standing_flushAcks _).trans (c.standing_receive h.packet h.length now)
  have hself := (circuit?_set ((r.server.decided position).circuit?_install_self h.address c forest)
    (c.receive h.packet h.length now).2.flushAcks.2 _).trans (if_pos rfl)
  have hid : r.server.circuits.length <
      (r.step now (.authorize position (.granted session))).server.circuits.length := by
    rw [step_authorize_of_some hposition]
    exact (lt_length_of_circuit? hself).trans_eq (length_conclude hestablish).symm
  refine ⟨kept, hkept, ⟨_, hestablish, hself, ?_⟩, fun l hl b hb hduty ↦
    Nat.lt_irrefl _ (duty?_lt_of_mem hr hsound hl hb hduty),
    fun d hd ↦ ?_, fun later ↦ ?_,
    fun schedule ↦ exists_left_eq_nil (entrusted_of_step hr now _) hid⟩
  · refine ((hsound.orderly.chain hchain).consistent.byAddress ..).2 ⟨_, hself, ?_, ?_⟩
    · exact (Circuit.isClosed_of_standing hstanding).trans hopen
    · exact (Circuit.address_of_standing hstanding).trans haddress
  · obtain ⟨p, hp⟩ := (hs.keepable _ kept hkept).2 d hd
    refine ⟨p, fun later now' ↦ ?_⟩
    rw [← config_of_run later] at hp
    simp only [replay, readDatagram, hp]
  · obtain ⟨lost, hlost, hfails⟩ := exists_lost_of_grant hr hposition rfl hestablish
    obtain ⟨lost', hlost', hfails'⟩ := exists_lost_of_run (entrusted_of_step hr now _) hid later
    exact exists_lost_cons hlost hfails hlost' hfails'

/-- **A request that is denied** is forgotten with what was kept for it. -/
theorem turnsDown_of_denied (hs : r.server.Waiting)
    (hposition : r.server.authorizing[position]? = some h) : r.TurnsDown now position h := by
  have hstep : ∀ {s : Server}, s.authorizing[position]? = some h →
      (r.withServer s).step now (.authorize position .denied) =
        r.withServer ((s.decided position).deny h) := by
    exact fun hs ↦ step_authorize_of_some hs .denied now
  have hself : r.step now (.authorize position .denied) =
      r.withServer ((r.server.decided position).deny h) := hstep hposition
  refine ⟨hself, fun kept ↦ ?_, fun datagram p request rest now' hp hsetup hrequest ↦ ?_⟩
  · refine (hstep ?_).trans ?_
    · exact hposition
    · rw [hself]
      simp only [deny, decided, Sharded.remove_insert hs.shards]
  · have hnew : ((r.server.decided position).deny h).pending.get? h.address = none :=
      (Sharded.get?_remove hs.shards ..).trans (if_pos rfl)
    have hfree : ((r.server.decided position).deny h).table.byAddress.get? h.address = none :=
      hs.apart _ (List.mem_map.2 ⟨h, List.mem_of_getElem? hposition, rfl⟩)
    rw [hself]
    change (Server.handle _ _ _ ((r.server.decided position).deny h)).1 = _ ∧
      (Server.handle _ _ _ ((r.server.decided position).deny h)).2.authorizing = _
    rw [handle_of_new (s := (r.server.decided position).deny h) hp hfree hnew, Server.request,
      if_neg (not_not_intro hsetup), hrequest]
    exact ⟨rfl, rfl⟩

/-- A readable datagram from an address that is waited for is the next that is kept, if there is
room. -/
theorem next_of_waits (hs : r.server.Waiting) {datagram : Octets} {inbox : List (Address × Octets)}
    (ha : r.server.Waits a) (hloop : r.decoding = .idle)
    (hinbox : r.server.inbox = (a, datagram) :: inbox)
    (hreadable : (Datagram.parse r.server.config.mtu datagram).isOk) :
    ∃ kept, r.server.pending.get? a = some kept ∧ (r.step now .decode).tasks = r.tasks ∧
      (r.step now .decode).server =
        if kept.length < r.server.config.maxBuffered then
          { r.server with inbox, pending := r.server.pending.insert a (kept ++ [datagram]) }
        else { r.server with inbox }.drop .orphaned := by
  obtain ⟨kept, hkept⟩ := hs.kept a ha
  cases hparse : Datagram.parse r.server.config.mtu datagram with
  | error e =>
    rw [hparse] at hreadable
    cases hreadable
  | ok p =>
    have hhandle : { r.server with inbox }.handle a datagram now =
        (.finished, { r.server with inbox }.keep a datagram kept) :=
      handle_of_kept (s := { r.server with inbox }) hparse (hs.apart a ha) hkept now
    have hstep : r.step now .decode =
        r.decoded (.finished, { r.server with inbox }.keep a datagram kept) := by
      simp only [step, decode, hloop, hinbox, advance, perform, hhandle]
    refine ⟨kept, hkept, ?_, ?_⟩
    · rw [hstep, tasks, tasks, hloop, decoded, Loop.rest_after]
      rfl
    · rw [hstep]
      rfl

variable {config : Config} {start : Instant}

/-- A new server waits for nobody. -/
theorem waiting_of_create (h : create config start = .ok r₀) : r₀.server.Waiting := by
  obtain ⟨burst, pending, notices, hpending, rfl⟩ := exists_of_create h
  refine ⟨Sharded.length_shards_of_create hpending, List.nodup_nil, fun a ha ↦ ?_, fun a ha ↦ ?_,
    fun a kept hkept ↦ ?_⟩
  · cases ha
  · cases ha
  · cases (Sharded.get?_of_create hpending a).symm.trans hkept

/-- **How requests for circuits fare,** in whatever order things happen. -/
theorem requests_of_run (hcreate : create config start = .ok r₀) (history : List (Instant × Step)) :
    Requests r₀ history := by
  have hr := entrusted_of_create hcreate
  have hs := waiting_of_create hcreate
  have hnone : ∀ a, ¬r₀.server.Waits a := by
    obtain ⟨burst, pending, notices, -, rfl⟩ := exists_of_create hcreate
    exact fun a ha ↦ absurd ha List.not_mem_nil
  have hwaiting := waiting_of_run hs history
  refine ⟨⟨hwaiting.single, hwaiting.apart⟩, fun a ha ↦ exists_request_of_run hr hs (hnone a) ha,
    fun a datagram inbox now ha hloop hinbox hreadable ↦ ?_,
    fun position h session now c hposition hopening ↦ ?_,
    fun position h now hposition ↦ turnsDown_of_denied hwaiting hposition⟩
  · rw [← config_of_run history] at hreadable ⊢
    exact next_of_waits hwaiting ha hloop hinbox hreadable
  · exact setsUp_of_granted (entrusted_of_run hr history) hwaiting
      (sound_of_run (sound_of_create hcreate) history) hposition hopening

/-- Going on with the first of the set-ups again and again. -/
def resuming : ℕ → Instant × Step :=
  fun _ ↦ (0, .resumeSetup 0)

/-- That is fair where nothing else is set up. -/
theorem fair_resuming (hsetups : r.setups.length ≤ 1) (hdecoding : replays id r.decoding.rest = [])
    (hrounds : replays id r.rounds.rest = []) : r.Fair id resuming := by
  have hafter : ∀ n, (r.after resuming n).setups.length ≤ 1 ∧
      (r.after resuming n).decoding = r.decoding ∧ (r.after resuming n).rounds = r.rounds := by
    intro n
    induction n with
    | zero => exact ⟨hsetups, rfl, rfl⟩
    | succ n ih =>
      obtain ⟨hlength, hdecoding, hrounds⟩ := ih
      rw [after_succ, resuming, step, resumeSetup]
      split
      · exact ⟨hlength, hdecoding, hrounds⟩
      · rename_i rest hrest
        have hnil : (r.after resuming n).setups.eraseIdx 0 = [] := by
          refine List.length_eq_zero_iff.1 ?_
          rw [List.length_eraseIdx_of_lt (List.getElem?_eq_some_iff.1 hrest).1]
          omega
        rw [hnil]
        generalize Server.advance _ _ _ = o
        obtain ⟨_ | rest' | fault, server⟩ := o
        · exact ⟨Nat.zero_le _, hdecoding, hrounds⟩
        · exact ⟨Nat.le_refl _, hdecoding, hrounds⟩
        · exact ⟨Nat.zero_le _, hdecoding, hrounds⟩
  intro n hleft
  obtain ⟨hlength, hsame, hsame'⟩ := hafter n
  refine ⟨0, ?_⟩
  rw [left, tasks, hsame, hsame'] at hleft
  rcases hall : (r.after resuming n).setups with _ | ⟨l, _ | ⟨l', rest⟩⟩
  · simp [hall, hdecoding, hrounds] at hleft
  · refine ⟨l, ?_, ?_⟩
    · simp only [Nat.add_zero, resuming, part?, hall]
      rfl
    · simpa [hall, hdecoding, hrounds] using hleft
  · simp [hall] at hlength

/-- A message of the application, in a datagram with a number. -/
def word (sequence : UInt32) : Octets :=
  (Client.datagram ⟨.high 5, [1], false⟩ sequence {} []).toOption.getD []

/-- A datagram arrives and is decoded. -/
def hearing (port : UInt16) (datagram : Octets) : List (Instant × Step) :=
  [(0, .arrive (.loopback port) datagram), (0, .decode)]

/-- An agent asks for a circuit, and goes on sending before it has one. -/
def asking : List (Instant × Step) :=
  hearing 2 ((Client.setup ⟨99, .ofNat 8, .ofNat 7⟩ 1).toOption.getD []) ++
    hearing 2 (word 5) ++ hearing 2 (word 4) ++ hearing 2 (word 6)

/-- The agent may have a circuit. -/
def granting : Instant × Step :=
  (0, .authorize 0 (.granted ⟨.ofNat 7, .ofNat 8, 99, none⟩))

/-- What the agent sends meanwhile is kept, but for the third datagram, for which there is no room.
If the request is granted, the other two are replayed in order. -/
theorem requests_of_asking :
    ∃ r₀ h c, create { maxBuffered := 2 } 0 = .ok r₀ ∧ (r₀.run asking).server.Waits (.loopback 2) ∧
      (r₀.run asking).server.counters.orphaned = 1 ∧
      (r₀.run asking).SetsUp 0 0 h ⟨.ofNat 7, .ofNat 8, 99, none⟩ c [word 5, word 4] ∧
      (r₀.run (asking ++ [granting])).Fair 0 resuming ∧
      replayed 0 (granting :: (List.range 3).map resuming) (r₀.run asking) = [word 5, word 4] ∧
      Requests r₀ asking := by
  obtain ⟨r₀, hcreate, htest⟩ := exists_eq_ok_of_any (x := create { maxBuffered := 2 } 0)
    (p := fun r₀ ↦ decide ((r₀.run asking).server.Waits (.loopback 2) ∧
      (r₀.run asking).server.counters.orphaned = 1 ∧
      (r₀.run asking).server.pending.get? (.loopback 2) = some [word 5, word 4] ∧
      (r₀.run asking).server.authorizing[0]?.map Handshake.address = some (.loopback 2) ∧
      ((r₀.run asking).server.authorizing[0]?.bind fun h ↦ (r₀.run asking).server.opening? h
        ⟨.ofNat 7, .ofNat 8, 99, none⟩ 0).isSome ∧
      ((r₀.run (asking ++ [granting])).setups.length ≤ 1 ∧
        replays 0 (r₀.run (asking ++ [granting])).decoding.rest = [] ∧
        replays 0 (r₀.run (asking ++ [granting])).rounds.rest = []) ∧
      replayed 0 (granting :: (List.range 3).map resuming) (r₀.run asking) = [word 5, word 4]))
    (by decide +kernel)
  obtain ⟨hwaits, horphaned, hpending, haddress, hopening, ⟨hsetups, hdecoding, hrounds⟩, hreplayed⟩ :=
    of_decide_eq_true htest
  obtain ⟨c, hc⟩ := Option.isSome_iff_exists.1 hopening
  obtain ⟨h, hposition, hc⟩ := Option.bind_eq_some_iff.1 hc
  have hrequests := requests_of_run hcreate asking
  obtain ⟨kept, hkept, hsetsUp⟩ := hrequests.granted 0 h _ 0 c hposition hc
  rw [hposition] at haddress
  rw [Option.some.inj haddress, hpending] at hkept
  obtain rfl := Option.some.inj hkept
  exact ⟨r₀, h, c, hcreate, hwaits, horphaned, hsetsUp, fair_resuming hsetups hdecoding hrounds,
    hreplayed, hrequests⟩

/-- Under an MTU whose double leaves 64 bits a fault ends the set-up when it takes in the request.
The circuit is in use then, and what was kept for it is lost. -/
theorem forgotten_of_excessiveMtu :
    ∃ r₀, create { mtu := 2 ^ 63 } 0 = .ok r₀ ∧
      (r₀.run asking).server.pending.get? (.loopback 2) = some [word 5, word 4, word 6] ∧
      (r₀.run (asking ++ [granting])).server.table.byAddress.get? (.loopback 2) = some 0 ∧
      ∀ later, replayed 0 (granting :: later) (r₀.run asking) = [] := by
  obtain ⟨r₀, hcreate, htest⟩ := exists_eq_ok_of_any (x := create { mtu := 2 ^ 63 } 0)
    (p := fun r₀ ↦ decide ((r₀.run asking).server.pending.get? (.loopback 2) =
        some [word 5, word 4, word 6] ∧
      (r₀.run (asking ++ [granting])).server.table.byAddress.get? (.loopback 2) = some 0 ∧
      0 < (r₀.run (asking ++ [granting])).server.circuits.length ∧
      (r₀.run (asking ++ [granting])).left 0 = [] ∧
      replays 0 ((r₀.run asking).performed granting.1 granting.2) = []))
    (by decide +kernel)
  obtain ⟨hpending, htable, hid, hleft, hperformed⟩ := of_decide_eq_true htest
  refine ⟨r₀, hcreate, hpending, htable, fun later ↦ ?_⟩
  have hentrusted := entrusted_of_run (entrusted_of_create hcreate) (asking ++ [granting])
  obtain ⟨lost, hlost, -⟩ := exists_lost_of_run hentrusted hid later
  rw [hleft, run_append] at hlost
  have hreplayed := (List.append_eq_nil_iff.1 (List.append_eq_nil_iff.1 hlost.symm).1).1
  exact List.append_eq_nil_iff.2 ⟨hperformed, hreplayed⟩

end RunningServer

end DatagramCircuits
