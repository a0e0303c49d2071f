import DatagramCircuits.Proofs.Forfeits
import DatagramCircuits.Proofs.Collections
import DatagramCircuits.Datagram.Client
/-!
# The circuits in use

A circuit is **registered** from its set-up until it is closed, under the address of its peer and
under its agent. Between two changes that holds of all open circuits. Within one it does not: a new
circuit takes over the keys of circuits that are still to be closed. So an index names those that it
may miss (`Indexes`), and closing one of them takes it off that list.

**A circuit is closed once,** and the effects and a counter tell which ones are closed
(`Server.Ledger`). Both invariants hold after each step of a running server. What a step has closed
is the difference between what they say before and after it.
-/

namespace DatagramCircuits

/-! ### Indexes -/

section Indexes

variable {κ : Type} [DecidableEq κ] {d : Dict κ CircuitId} {key : Circuit → κ} {D : List CircuitId}
  {f f' : CircuitId → Option Circuit} {id n : CircuitId} {c : Circuit}

/-- The dictionary has open circuits under their own keys, and each open circuit but for the given
ones. -/
structure Indexes (d : Dict κ CircuitId) (key : Circuit → κ) (D : List CircuitId)
    (f : CircuitId → Option Circuit) : Prop where
  distinct : d.Distinct
  sound : ∀ k id, d.get? k = some id → ∃ c, f id = some c ∧ c.isClosed = false ∧ key c = k
  complete : ∀ id c, f id = some c → c.isClosed = false → id ∉ D → d.get? (key c) = some id

namespace Indexes

theorem mono {D' : List CircuitId} (h : Indexes d key D f) (hsub : ∀ id ∈ D, id ∈ D') :
    Indexes d key D' f :=
  ⟨h.distinct, h.sound, fun id c hid hopen hD ↦ h.complete id c hid hopen (mt (hsub id) hD)⟩

/-- A circuit that is not open need not be named. -/
theorem drop (h : Indexes d key (id :: D) f) (hid : ∀ c, f id = some c → c.isClosed = true) :
    Indexes d key D f := by
  refine ⟨h.distinct, h.sound, fun j c hj hopen hD ↦ h.complete j c hj hopen ?_⟩
  refine mt List.mem_cons.1 (not_or.2 ⟨?_, hD⟩)
  rintro rfl
  cases (hid c hj).symm.trans hopen

/-- Circuits may change in all but their keys and whether they are closed. -/
theorem congr (h : Indexes d key D f)
    (hto : ∀ id c, f id = some c → ∃ c', f' id = some c' ∧ c'.isClosed = c.isClosed ∧ key c' = key c)
    (hfrom : ∀ id c', f' id = some c' →
      ∃ c, f id = some c ∧ c'.isClosed = c.isClosed ∧ key c' = key c) : Indexes d key D f' := by
  refine ⟨h.distinct, fun k id hget ↦ ?_, fun id c' hid hopen hD ↦ ?_⟩
  · obtain ⟨c, hc, hopen, hk⟩ := h.sound k id hget
    obtain ⟨c', hc', hclosed, hkey⟩ := hto id c hc
    exact ⟨c', hc', hclosed.trans hopen, hkey.trans hk⟩
  · obtain ⟨c, hc, hclosed, hkey⟩ := hfrom id c' hid
    exact hkey ▸ h.complete id c hc (hclosed.symm.trans hopen) hD

/-- **Closing a circuit** takes it out, unless another one took its place. -/
theorem eraseIf {c' : Circuit} (h : Indexes d key (id :: D) f) (hid : f id = some c)
    (hclosed : c'.isClosed = true) (hf' : ∀ j, f' j = if id = j then some c' else f j) :
    Indexes (Table.eraseIf d (key c) id) key D f' := by
  have hne : ∀ {j e}, f' j = some e → e.isClosed = false → id ≠ j ∧ f j = some e := by
    intro j e hj hopen
    rw [hf'] at hj
    split at hj
    · obtain rfl := Option.some.inj hj
      cases hclosed.symm.trans hopen
    · exact ⟨‹_›, hj⟩
  refine ⟨?_, fun k j hget ↦ ?_, fun j e hj hopen hD ↦ ?_⟩
  · rw [Table.eraseIf]
    split
    · exact h.distinct.erase _
    · exact h.distinct
  · rw [Table.get?_eraseIf] at hget
    split at hget
    · cases hget
    · rename_i hat
      obtain ⟨e, he, hopen, hk⟩ := h.sound k j hget
      have hj : id ≠ j := by
        rintro rfl
        obtain rfl := Option.some.inj (hid.symm.trans he)
        exact hat ⟨hk, hk ▸ hget⟩
      exact ⟨e, by rw [hf', if_neg hj, he], hopen, hk⟩
  · obtain ⟨hj', he⟩ := hne hj hopen
    have hget := h.complete j e he hopen (mt List.mem_cons.1 (not_or.2 ⟨Ne.symm hj', hD⟩))
    rw [Table.get?_eraseIf, if_neg, hget]
    rintro ⟨hk, hat⟩
    exact hj' (Option.some.inj ((hk ▸ hat).symm.trans hget))

/-- **A new circuit** takes the place of the one that had its key. -/
theorem insert (h : Indexes d key [] f) (hnew : f n = none) (hopen : c.isClosed = false)
    (hf' : ∀ j, f' j = if n = j then some c else f j) (hD : ∀ j, d.get? (key c) = some j → j ∈ D) :
    Indexes (d.insert (key c) n) key D f' := by
  refine ⟨h.distinct.insert .., fun k j hget ↦ ?_, fun j e hj hopen' hj' ↦ ?_⟩
  · rw [Dict.get?_insert] at hget
    split at hget
    · obtain rfl := Option.some.inj hget
      exact ⟨c, by rw [hf', if_pos rfl], hopen, ‹_›⟩
    · obtain ⟨e, he, hopen', hk⟩ := h.sound k j hget
      refine ⟨e, ?_, hopen', hk⟩
      rw [hf', if_neg, he]
      rintro rfl
      cases hnew.symm.trans he
  · rw [hf'] at hj
    split at hj
    · obtain rfl := Option.some.inj hj
      rw [Dict.get?_insert, if_pos rfl, ‹n = j›]
    · have hget := h.complete j e hj hopen' List.not_mem_nil
      rw [Dict.get?_insert, if_neg, hget]
      exact fun hk ↦ hj' (hD j (hk ▸ hget))

theorem get?_iff (h : Indexes d key [] f) (k : κ) :
    d.get? k = some id ↔ ∃ c, f id = some c ∧ c.isClosed = false ∧ key c = k := by
  refine ⟨h.sound k id, ?_⟩
  rintro ⟨c, hc, hopen, rfl⟩
  exact h.complete id c hc hopen List.not_mem_nil

theorem mem_values_iff (h : Indexes d key [] f) :
    id ∈ d.values ↔ ∃ c, f id = some c ∧ c.isClosed = false := by
  rw [h.distinct.mem_values_iff]
  constructor
  · rintro ⟨k, hk⟩
    obtain ⟨c, hc, hopen, -⟩ := h.sound k id hk
    exact ⟨c, hc, hopen⟩
  · rintro ⟨c, hc, hopen⟩
    exact ⟨key c, h.complete id c hc hopen List.not_mem_nil⟩

/-- No circuit is registered under two keys. -/
theorem nodup_values (h : Indexes d key [] f) : d.values.Nodup := by
  refine h.distinct.nodup_values fun k k' id hk hk' ↦ ?_
  obtain ⟨c, hc, -, rfl⟩ := h.sound k id hk
  obtain ⟨c', hc', -, rfl⟩ := h.sound k' id hk'
  rw [Option.some.inj (hc.symm.trans hc')]

end Indexes

end Indexes

namespace Server

open Effect (closures closures_append)

variable {s s' : Server} {k : List Effect} {id : CircuitId} {c : Circuit} {D : List CircuitId}

/-! ### The table -/

/-- Both parts of the table index the circuits, but for those that are to be closed next. -/
structure Enrolled (D : List CircuitId) (s : Server) : Prop where
  addresses : Indexes s.table.byAddress Circuit.address D s.circuit?
  agents : Indexes s.table.byAgent Circuit.agent D s.circuit?

theorem Enrolled.mono {D' : List CircuitId} (h : Enrolled D s) (hsub : ∀ id ∈ D, id ∈ D') :
    Enrolled D' s :=
  ⟨h.addresses.mono hsub, h.agents.mono hsub⟩

/-- The table and the standing of the circuits are all that matters. -/
theorem Enrolled.same (h : Enrolled D s) (htable : s'.table = s.table)
    (hcircuits : s'.circuits.map Circuit.standing = s.circuits.map Circuit.standing) :
    Enrolled D s' := by
  have hto : ∀ id c, s.circuit? id = some c → ∃ c', s'.circuit? id = some c' ∧
      c'.standing = c.standing := fun _ _ hid ↦ exists_circuit_of_standing hcircuits hid
  have hfrom : ∀ id c', s'.circuit? id = some c' → ∃ c, s.circuit? id = some c ∧
      c'.standing = c.standing := by
    intro id c' hid
    obtain ⟨c, hc, hstanding⟩ := exists_circuit_of_standing hcircuits.symm hid
    exact ⟨c, hc, hstanding.symm⟩
  have hcongr : ∀ {κ : Type} [DecidableEq κ] {d : Dict κ CircuitId} {key : Circuit → κ},
      (∀ {c c' : Circuit}, c'.standing = c.standing → key c' = key c) →
      Indexes d key D s.circuit? → Indexes d key D s'.circuit? := by
    refine fun hkey hd ↦ hd.congr (fun id c hid ↦ ?_) fun id c hid ↦ ?_
    · obtain ⟨c', hc', hstanding⟩ := hto id c hid
      exact ⟨c', hc', Circuit.isClosed_of_standing hstanding, hkey hstanding⟩
    · obtain ⟨c', hc', hstanding⟩ := hfrom id c hid
      exact ⟨c', hc', Circuit.isClosed_of_standing hstanding, hkey hstanding⟩
  exact ⟨htable ▸ hcongr Circuit.address_of_standing h.addresses,
    htable ▸ hcongr Circuit.agent_of_standing h.agents⟩

/-- **Closing a circuit** leaves one less to be closed. -/
theorem Enrolled.closeCircuit (h : Enrolled (id :: D) s) (reason : CloseReason) :
    Enrolled D (s.closeCircuit id reason).2 := by
  cases hid : s.circuit? id with
  | none =>
    rw [closeCircuit_of_none reason hid]
    have hnone : ∀ c, s.circuit? id = some c → c.isClosed = true := fun c hc ↦ by
      cases hid.symm.trans hc
    exact ⟨h.addresses.drop hnone, h.agents.drop hnone⟩
  | some c =>
    cases hclosed : c.isClosed with
    | true =>
      rw [closeCircuit_of_closed reason hid hclosed]
      have hsome : ∀ c, s.circuit? id = some c → c.isClosed = true := fun c' hc' ↦ by
        rwa [← Option.some.inj (hid.symm.trans hc')]
      exact ⟨h.addresses.drop hsome, h.agents.drop hsome⟩
    | false =>
      have hcircuit := circuit?_closeCircuit reason hid hclosed
      rw [closeCircuit_of_open reason hid hclosed] at hcircuit ⊢
      exact ⟨h.addresses.eraseIf hid rfl hcircuit, h.agents.eraseIf hid rfl hcircuit⟩

theorem Enrolled.supersede {ids : List CircuitId} (h : Enrolled ids s) :
    Enrolled [] (s.supersede ids) := by
  induction ids generalizing s with
  | nil => exact h
  | cons id ids ih => exact ih (h.closeCircuit .superseded)

/-- **A new circuit** is registered, and those that it displaces are to be closed. -/
theorem Enrolled.entered (h : Enrolled [] s) {forest : Forest} (hopen : c.isClosed = false) :
    Enrolled (s.table.insert c.address c.agent s.circuits.length).1
      (s.entered c.address c forest) := by
  have hnew : s.circuit? s.circuits.length = none := List.getElem?_eq_none (Nat.le_refl _)
  have hcircuit := s.circuit?_entered c.address c forest
  have hmem : ∀ j, s.table.byAddress.get? c.address = some j ∨ s.table.byAgent.get? c.agent = some j →
      j ∈ (s.table.insert c.address c.agent s.circuits.length).1 := by
    intro j hj
    have hold : j ≠ s.circuits.length := by
      rintro rfl
      rcases hj with hj | hj
      · obtain ⟨c', hc', -⟩ := h.addresses.sound _ _ hj
        cases hnew.symm.trans hc'
      · obtain ⟨c', hc', -⟩ := h.agents.sound _ _ hj
        cases hnew.symm.trans hc'
    simpa [Table.insert, hold] using hj
  exact ⟨h.addresses.insert hnew hopen hcircuit fun j hj ↦ hmem j (.inl hj),
    h.agents.insert hnew hopen hcircuit fun j hj ↦ hmem j (.inr hj)⟩

/-- **Whatever changes,** all open circuits are registered, and no others. -/
theorem Enrolled.change (h : Enrolled [] s) (hs : Change s k s') : Enrolled [] s' := by
  cases hs with
  | aside hs => exact h.same hs.table hs.circuits
  | close reason => exact (h.mono fun _ h ↦ absurd h List.not_mem_nil).closeCircuit reason
  | @grant position handshake session now c forest _ hposition hopened =>
    obtain ⟨-, haddress, hopen, -⟩ := Circuit.exists_of_opened hopened
    have hdecided : Enrolled [] (s.decided position) := ⟨h.addresses, h.agents⟩
    rw [install_snd, ← haddress]
    exact (hdecided.entered hopen).supersede
  | adjust | keep | request | abandon | deny => exact ⟨h.addresses, h.agents⟩

/-! ### The ledger -/

/-- The effects tell of each circuit that is closed once, by its agent and address, and the counter
tells how many they are. -/
structure Ledger (s : Server) : Prop where
  once : (closures s.effects).Nodup
  closed : ∀ id, id ∈ closures s.effects ↔ ∃ c, s.circuit? id = some c ∧ c.isClosed = true
  counted : s.counters.closed = UInt64.ofNat (closures s.effects).length
  named : ∀ id agent address reason, Effect.closed id agent address reason ∈ s.effects →
    ∃ c, s.circuit? id = some c ∧ c.agent = agent ∧ c.address = address

/-- Effects that tell of no closing, and circuits that keep their standing. -/
theorem Ledger.same (h : Ledger s) (heffects : s'.effects = s.effects ++ k) (hk : closures k = [])
    (hcircuits : s'.circuits.map Circuit.standing = s.circuits.map Circuit.standing)
    (hcounter : s'.counters.closed = s.counters.closed) : Ledger s' := by
  have hsame : closures s'.effects = closures s.effects := by
    rw [heffects, closures_append, hk, List.append_nil]
  refine ⟨hsame ▸ h.once, fun id ↦ ?_, ?_, fun id agent address reason he ↦ ?_⟩
  · rw [hsame, h.closed]
    constructor
    · rintro ⟨c, hc, hclosed⟩
      obtain ⟨c', hc', hstanding⟩ := exists_circuit_of_standing hcircuits hc
      exact ⟨c', hc', (Circuit.isClosed_of_standing hstanding).trans hclosed⟩
    · rintro ⟨c, hc, hclosed⟩
      obtain ⟨c', hc', hstanding⟩ := exists_circuit_of_standing hcircuits.symm hc
      exact ⟨c', hc', (Circuit.isClosed_of_standing hstanding).trans hclosed⟩
  · rw [hcounter, hsame, h.counted]
  · rw [heffects, List.mem_append] at he
    rcases he with he | he
    · obtain ⟨c, hc, hagent, haddress⟩ := h.named id agent address reason he
      obtain ⟨c', hc', hstanding⟩ := exists_circuit_of_standing hcircuits hc
      exact ⟨c', hc', (Circuit.agent_of_standing hstanding).trans hagent,
        (Circuit.address_of_standing hstanding).trans haddress⟩
    · cases List.filterMap_eq_nil_iff.1 hk _ he

/-- One more circuit has ended, and is told to be closed. -/
theorem Ledger.ended (h : Ledger s) (reason : CloseReason) (hid : s.circuit? id = some c)
    (hopen : c.isClosed = false)
    (heffects : s'.effects = s.effects ++ [.closed id c.agent c.address reason])
    (hcounter : s'.counters.closed = s.counters.closed + 1)
    (hcircuit : ∀ j, s'.circuit? j = if id = j then some c.ended else s.circuit? j) :
    Ledger s' := by
  have hadded : closures s'.effects = closures s.effects ++ [id] := by
    rw [heffects, closures_append]
    rfl
  -- an open circuit was not told to be closed, so that this is the first time
  have hnot : id ∉ closures s.effects := by
    rw [h.closed]
    rintro ⟨c', hc', hclosed⟩
    obtain rfl := Option.some.inj (hid.symm.trans hc')
    cases hopen.symm.trans hclosed
  refine ⟨?_, fun j ↦ ?_, ?_, fun j agent address reason' he ↦ ?_⟩
  · rw [hadded]
    exact List.nodup_append.2 ⟨h.once, List.nodup_singleton id,
      fun j hj i hi ↦ by rintro rfl; exact hnot (List.mem_singleton.1 hi ▸ hj)⟩
  · rw [hadded, List.mem_append, List.mem_singleton, h.closed, hcircuit]
    by_cases hj : id = j
    · subst hj
      rw [if_pos rfl]
      exact ⟨fun _ ↦ ⟨_, rfl, rfl⟩, fun _ ↦ .inr rfl⟩
    · rw [if_neg hj]
      exact or_iff_left (Ne.symm hj)
  · rw [hcounter, h.counted, hadded, List.length_append, UInt64.ofNat_add]
    rfl
  · rw [heffects, List.mem_append, List.mem_singleton] at he
    rw [hcircuit]
    rcases he with he | he
    · obtain ⟨c', hc', hnamed⟩ := h.named _ _ _ _ he
      split
      · subst_vars
        obtain rfl := Option.some.inj (hid.symm.trans hc')
        exact ⟨_, rfl, hnamed⟩
      · exact ⟨c', hc', hnamed⟩
    · cases he
      rw [if_pos rfl]
      exact ⟨_, rfl, rfl, rfl⟩

theorem Ledger.closeCircuit (h : Ledger s) (id : CircuitId) (reason : CloseReason) :
    Ledger (s.closeCircuit id reason).2 := by
  cases hid : s.circuit? id with
  | none => rwa [closeCircuit_of_none reason hid]
  | some c =>
    cases hclosed : c.isClosed with
    | true => rwa [closeCircuit_of_closed reason hid hclosed]
    | false =>
      refine h.ended reason hid hclosed ?_ ?_ (circuit?_closeCircuit reason hid hclosed)
      · rw [closeCircuit_of_open reason hid hclosed]
        rfl
      · rw [closeCircuit_of_open reason hid hclosed]
        rfl

theorem Ledger.supersede (h : Ledger s) (ids : List CircuitId) : Ledger (s.supersede ids) := by
  induction ids generalizing s with
  | nil => exact h
  | cons id ids ih => exact ih (h.closeCircuit id .superseded)

theorem Ledger.entered (h : Ledger s) {address : Address} {forest : Forest}
    (hopen : c.isClosed = false) : Ledger (s.entered address c forest) := by
  refine ⟨h.once, fun id ↦ (h.closed id).trans ?_, h.counted, fun id agent address' reason he ↦ ?_⟩
  · rw [circuit?_entered]
    split
    · subst_vars
      constructor
      · rintro ⟨c', hc', -⟩
        cases (List.getElem?_eq_none (Nat.le_refl _)).symm.trans hc'
      · rintro ⟨c', hc', hclosed⟩
        obtain rfl := Option.some.inj hc'
        cases hopen.symm.trans hclosed
    · rfl
  · obtain ⟨c', hc', hnamed⟩ := h.named id agent address' reason he
    have hne : s.circuits.length ≠ id := (Nat.ne_of_lt (lt_length_of_circuit? hc')).symm
    exact ⟨c', by rw [circuit?_entered, if_neg hne, hc'], hnamed⟩

/-- **Whatever changes,** the effects tell of each circuit that is closed once. -/
theorem Ledger.change (h : Ledger s) (hs : Change s k s') : Ledger s' := by
  cases hs with
  | aside hs heffects hk => exact h.same heffects hk hs.circuits hs.closed
  | adjust => exact h.same rfl rfl rfl rfl
  | close reason => exact h.closeCircuit _ reason
  | @grant position handshake session now c forest _ hposition hopened =>
    obtain ⟨-, -, hopen, -⟩ := Circuit.exists_of_opened hopened
    have hdecided : Ledger (s.decided position) := ⟨h.1, h.2, h.3, h.4⟩
    rw [install_snd]
    exact (hdecided.entered hopen).supersede _
  | keep | request | abandon | deny => exact ⟨h.1, h.2, h.3, h.4⟩

/-! ### Every state, and every step -/

/-- What holds of the table and of the bucket of the server between two steps, when so many circuits could
not be opened but for their buckets. -/
structure Consistent (forfeits : Nat) (s : Server) : Prop where
  /-- The circuits under addresses are those under agents. -/
  same : s.table.byAddress.values.Perm s.table.byAgent.values
  /-- None is there twice. -/
  nodup : s.table.byAddress.values.Nodup
  /-- A circuit is under its own address as long as it is open. -/
  byAddress : ∀ address id, s.table.byAddress.get? address = some id ↔
    ∃ c, s.circuit? id = some c ∧ c.isClosed = false ∧ c.address = address
  /-- A circuit is under its own agent as long as it is open. -/
  byAgent : ∀ agent id, s.table.byAgent.get? agent = some id ↔
    ∃ c, s.circuit? id = some c ∧ c.isClosed = false ∧ c.agent = agent
  /-- No two open circuits share an address or an agent. -/
  unique : ∀ i j c d, s.circuit? i = some c → s.circuit? j = some d → c.isClosed = false →
    d.isClosed = false → c.address = d.address ∨ c.agent = d.agent → i = j
  /-- The bucket of the server has promised the limit of each registered circuit, and of each one that
  could not be opened but for its buckets. -/
  committed : ∃ b, s.forest.get? s.root = some b ∧
    b.committed = s.config.circuitRate * UInt64.ofNat (s.table.byAddress.size + forfeits)

/-- What the effects from one state to another one have to do with the circuits that left the table.
-/
structure Departs (s s' : Server) (k : List Effect) : Prop where
  effects : s'.effects = s.effects ++ k
  /-- No circuit is told to be closed twice, now or before. -/
  once : (closures s'.effects).Nodup
  /-- Those are told to be closed that were registered, or are new, and are not registered now. -/
  left : ∀ id, id ∈ closures k ↔
    (id ∈ s.table.byAddress.values ∨ s.circuits.length ≤ id ∧ id < s'.circuits.length) ∧
      id ∉ s'.table.byAddress.values
  /-- They are told by their own agent and address. -/
  named : ∀ id agent address reason, Effect.closed id agent address reason ∈ k →
    ∃ c, s'.circuit? id = some c ∧ c.agent = agent ∧ c.address = address
  /-- The counter goes up by their number. -/
  counted : s'.counters.closed = s.counters.closed + UInt64.ofNat (closures k).length

/-- The three invariants of a server whose circuits come and go. -/
structure Orderly (s : Server) : Prop where
  enrolled : Enrolled [] s
  ledger : Ledger s
  funded : Funded s

theorem Orderly.change (h : Orderly s) (hs : Change s k s') : Orderly s' :=
  ⟨h.enrolled.change hs, h.ledger.change hs, h.funded.change hs⟩

theorem Orderly.chain (h : Orderly s) (hs : Chain Change s k s') : Orderly s' :=
  hs.preserves (motive := fun _ s' ↦ Orderly s') (k := []) h fun hbefore hstep ↦ hbefore.change hstep

/-- As many circuits are registered as are open. -/
theorem Enrolled.size_eq (h : Enrolled [] s) : s.table.byAddress.size = s.openCount := by
  have hperm : s.table.byAddress.values.Perm (s.circuits.findIdxs (!·.isClosed)) := by
    refine (List.perm_ext_iff_of_nodup h.addresses.nodup_values List.nodup_findIdxs).2 fun id ↦ ?_
    rw [h.addresses.mem_values_iff, List.mem_findIdxs_iff_exists_getElem_pos]
    simp only [circuit?, List.getElem?_eq_some_iff, Bool.not_eq_true']
    constructor
    · rintro ⟨c, ⟨hlt, rfl⟩, hopen⟩
      exact ⟨hlt, hopen⟩
    · rintro ⟨hlt, hopen⟩
      exact ⟨_, ⟨hlt, rfl⟩, hopen⟩
  rw [Dict.size, ← List.length_map (f := Prod.snd), openCount, ← List.length_findIdxs]
  exact hperm.length_eq

theorem Orderly.consistent (h : Orderly s) : s.Consistent s.forfeited where
  same := (List.perm_ext_iff_of_nodup h.enrolled.addresses.nodup_values
    h.enrolled.agents.nodup_values).2 fun id ↦ by
      rw [h.enrolled.addresses.mem_values_iff, h.enrolled.agents.mem_values_iff]
  nodup := h.enrolled.addresses.nodup_values
  byAddress _ _ := h.enrolled.addresses.get?_iff _
  byAgent _ _ := h.enrolled.agents.get?_iff _
  unique i j c d hi hj hc hd hsame := by
    rcases hsame with hsame | hsame
    · have hi := h.enrolled.addresses.complete i c hi hc List.not_mem_nil
      have hj := h.enrolled.addresses.complete j d hj hd List.not_mem_nil
      exact Option.some.inj (hi.symm.trans (hsame ▸ hj))
    · have hi := h.enrolled.agents.complete i c hi hc List.not_mem_nil
      have hj := h.enrolled.agents.complete j d hj hd List.not_mem_nil
      exact Option.some.inj (hi.symm.trans (hsame ▸ hj))
  committed := by
    obtain ⟨b, hb, -, hcommitted⟩ := h.funded.committed
    exact ⟨b, hb, h.enrolled.size_eq ▸ hcommitted⟩

/-- A circuit of an orderly server is registered, or is told to be closed. -/
theorem Orderly.mem_values_iff (h : Orderly s) :
    id ∈ s.table.byAddress.values ↔ id < s.circuits.length ∧ id ∉ closures s.effects := by
  rw [h.enrolled.addresses.mem_values_iff, h.ledger.closed]
  constructor
  · rintro ⟨c, hc, hopen⟩
    refine ⟨lt_length_of_circuit? hc, ?_⟩
    rintro ⟨c', hc', hclosed⟩
    obtain rfl := Option.some.inj (hc.symm.trans hc')
    cases hopen.symm.trans hclosed
  · rintro ⟨hlt, hnot⟩
    obtain ⟨c, hc⟩ := exists_circuit_of_lt hlt
    exact ⟨c, hc, Bool.eq_false_iff.2 fun hclosed ↦ hnot ⟨c, hc, hclosed⟩⟩

theorem Orderly.departs (h : Orderly s) (hs : Chain Change s k s') : Departs s s' k := by
  have h' := h.chain hs
  have heffects := effects_of_chain hs
  have hadded : closures s'.effects = closures s.effects ++ closures k := by
    rw [heffects, closures_append]
  have hdisjoint := List.nodup_append.1 (hadded ▸ h'.ledger.once)
  refine ⟨heffects, h'.ledger.once, fun id ↦ ?_, fun id agent address reason he ↦ ?_, ?_⟩
  · rw [h.mem_values_iff, h'.mem_values_iff, hadded, List.mem_append]
    have hlt : id < s.circuits.length → id < s'.circuits.length := (continues_of_chain hs).lt_length
    have hold : id ∈ closures s.effects → id < s.circuits.length := fun hid ↦ by
      obtain ⟨c, hc, -⟩ := (h.ledger.closed id).1 hid
      exact lt_length_of_circuit? hc
    have hnew : id ∈ closures k → id < s'.circuits.length := fun hid ↦ by
      obtain ⟨c, hc, -⟩ := (h'.ledger.closed id).1 (hadded ▸ List.mem_append_right _ hid)
      exact lt_length_of_circuit? hc
    have hnot : id ∈ closures k → id ∉ closures s.effects := fun hid hid' ↦
      hdisjoint.2.2 id hid' id hid rfl
    constructor
    · intro hid
      refine ⟨?_, fun hin ↦ hin.2 (.inr hid)⟩
      rcases Nat.lt_or_ge id s.circuits.length with hlow | hhigh
      · exact .inl ⟨hlow, hnot hid⟩
      · exact .inr ⟨hhigh, hnew hid⟩
    · rintro ⟨hwas, hgone⟩
      have hclosed : id ∈ closures s.effects ∨ id ∈ closures k := by
        refine Classical.not_not.1 fun hopen ↦ hgone ⟨?_, hopen⟩
        rcases hwas with hwas | hwas
        · exact hlt hwas.1
        · exact hwas.2
      rcases hclosed with hbefore | hnow
      · rcases hwas with hwas | hwas
        · exact absurd hbefore hwas.2
        · exact absurd (hold hbefore) (Nat.not_lt.2 hwas.1)
      · exact hnow
  · exact h'.ledger.named id agent address reason (heffects ▸ List.mem_append_right _ he)
  · rw [h'.ledger.counted, hadded, List.length_append, UInt64.ofNat_add, h.ledger.counted]

end Server

namespace RunningServer

open Server
open Effect (closures)

variable {config : Config} {start : Instant} {r₀ : RunningServer}

/-- A new server has the bucket of its own and no other. -/
theorem forfeited_of_create (h : create config start = .ok r₀) : r₀.server.forfeited = 0 := by
  obtain ⟨burst, pending, notices, -, rfl⟩ := exists_of_create h
  show (1 - 1) / 8 - 0 = 0
  rfl

/-- A server without circuits is in order. -/
theorem orderly_of_create (h : create config start = .ok r₀) : Orderly r₀.server := by
  have hnone := forfeited_of_create h
  obtain ⟨burst, pending, notices, -, rfl⟩ := exists_of_create h
  have hindexes : ∀ {κ : Type} [DecidableEq κ] {key : Circuit → κ},
      Indexes Dict.empty key [] fun id ↦ ([] : List Circuit)[id]? :=
    ⟨Dict.distinct_empty, fun _ _ h ↦ (by cases h), fun _ _ h ↦ (by cases h)⟩
  refine ⟨⟨hindexes, hindexes⟩, ⟨List.nodup_nil, fun id ↦ ?_, rfl, fun _ _ _ _ h ↦ ?_⟩, ?_⟩
  · exact ⟨fun h ↦ (by cases h), fun ⟨_, h, _⟩ ↦ (by cases h)⟩
  · cases h
  · refine ⟨rfl, by rw [hnone]; rfl, fun _ _ h ↦ ?_, fun _ _ _ _ h ↦ ?_, fun _ _ h ↦ ?_, fun _ _ h ↦ ?_,
      fun _ _ h ↦ ?_, ?_⟩
    · cases h
    · cases h
    · cases h
    · cases h
    · cases h
    · refine ⟨_, rfl, rfl, ?_⟩
      rw [hnone]
      exact (UInt64.mul_zero).symm

theorem orderly_of_run (h : create config start = .ok r₀) (history : List (Instant × Step)) :
    Orderly (r₀.run history).server := by
  obtain ⟨k, hchain⟩ := chain_of_run history r₀
  exact (orderly_of_create h).chain hchain

/-- **What a server shows of circuits that could not be opened** is what the history says about them. -/
theorem forfeited_run (history : List (Instant × Step)) {r : RunningServer} (h : Orderly r.server) :
    (r.run history).server.forfeited = r.server.forfeited + countForfeits history r := by
  induction history generalizing r with
  | nil => rfl
  | cons e history ih =>
    obtain ⟨now, e⟩ := e
    obtain ⟨k, hchain⟩ := chain_of_step now e r
    rw [run_cons, ih (h.chain hchain), forfeited_step h.funded, countForfeits, Nat.add_assoc]

/-- **The table is right in every state, and each departure is told once.** So is the bucket of the
server, up to what it promised to circuits that could not be opened. -/
theorem consistent_of_run (h : create config start = .ok r₀) (history : List (Instant × Step)) :
    (r₀.run history).server.Consistent (countForfeits history r₀) ∧ ∀ now e, ∃ k,
      (r₀.run history).server.Departs ((r₀.run history).step now e).server k := by
  have horderly := orderly_of_run h history
  have hforfeited := forfeited_run history (orderly_of_create h)
  rw [forfeited_of_create h, Nat.zero_add] at hforfeited
  refine ⟨hforfeited ▸ horderly.consistent, fun now e ↦ ?_⟩
  obtain ⟨k, hchain⟩ := chain_of_step now e (r₀.run history)
  exact ⟨k, horderly.departs hchain⟩

/-- An agent asks for a circuit from a port, and gets it. -/
def settingUp (port : UInt16) (agent : Uuid) : List (Instant × Step) :=
  [(0, .arrive (.loopback port) ((Client.setup ⟨99, .ofNat 8, agent⟩ 1).toOption.getD [])),
    (0, .decode), (0, .authorize 0 (.granted ⟨agent, .ofNat 8, 99, none⟩))]

/-- An agent that comes back from another port leaves one circuit in the table, and one that is told
to be closed. -/
theorem consistent_of_settingUp :
    ∃ r₀ r, create {} 0 = .ok r₀ ∧
      r₀.run (settingUp 2 (.ofNat 7) ++ settingUp 3 (.ofNat 7)) = r ∧
      r.server.table.byAddress.entries = [(.loopback 3, 1)] ∧ closures r.server.effects = [0] ∧
      r.server.Consistent 0 ∧ ∀ now e, ∃ k, r.server.Departs (r.step now e).server k := by
  obtain ⟨r₀, hcreate, htest⟩ := exists_eq_ok_of_any (x := create {} 0)
    (p := fun r₀ ↦ decide
      ((r₀.run (settingUp 2 (.ofNat 7) ++ settingUp 3 (.ofNat 7))).server.table.byAddress.entries =
          [(.loopback 3, 1)] ∧
        closures (r₀.run (settingUp 2 (.ofNat 7) ++ settingUp 3 (.ofNat 7))).server.effects = [0] ∧
        countForfeits (settingUp 2 (.ofNat 7) ++ settingUp 3 (.ofNat 7)) r₀ = 0))
    (by decide +kernel)
  obtain ⟨htable, hclosed, hnone⟩ := of_decide_eq_true htest
  exact ⟨r₀, _, hcreate, rfl, htable, hclosed, hnone ▸ consistent_of_run hcreate _⟩

/-- **A circuit that could not be opened keeps its share** of the bucket of the server, although nothing is
registered: here there is no room for the numbers that it is to remember. -/
theorem promised_of_excessiveCapacity :
    ∃ r₀ r, create { seenCapacity := 2 ^ 62 } 0 = .ok r₀ ∧ r₀.run (settingUp 2 (.ofNat 7)) = r ∧
      r.server.circuits.length = 0 ∧ r.server.table.byAddress.size = 0 ∧
      ∃ b, r.server.forest.get? r.server.root = some b ∧
        b.committed ≠ r.server.config.circuitRate * UInt64.ofNat r.server.table.byAddress.size := by
  obtain ⟨r₀, hcreate, htest⟩ := exists_eq_ok_of_any (x := create { seenCapacity := 2 ^ 62 } 0)
    (p := fun r₀ ↦
      let r := r₀.run (settingUp 2 (.ofNat 7))
      r.server.circuits.length == 0 && r.server.table.byAddress.size == 0 &&
        (r.server.forest.get? r.server.root).any fun b ↦
          b.committed != r.server.config.circuitRate * UInt64.ofNat r.server.table.byAddress.size)
    (by decide +kernel)
  simp only [Bool.and_eq_true, beq_iff_eq, Option.any_eq_true, bne_iff_ne] at htest
  obtain ⟨⟨hcircuits, hsize⟩, b, hb, hcommitted⟩ := htest
  exact ⟨r₀, _, hcreate, rfl, hcircuits, hsize, b, hb, hcommitted⟩

end RunningServer

end DatagramCircuits
