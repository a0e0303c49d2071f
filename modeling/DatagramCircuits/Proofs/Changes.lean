import DatagramCircuits.Proofs.Chain
import DatagramCircuits.Proofs.Standing
import DatagramCircuits.Server.Running
/-!
# The changes of a server

Whatever a task does, the server makes a few kinds of **changes**, each recorded by the effects that
it adds. An invariant of the circuits in use is proved once per change, and holds then of every
action.

Most of what happens is `Change.aside`: it leaves alone which circuits there are, their standing,
the terms of their buckets, the table, and the requests. The other changes are those that have
something to do with that.

**An action reports at most one thing to the application,** and what it may report is known when it
begins, from the action and the circuit it is about. Where it waits first, what is left to be done
reports instead. `Server.Leads` says both, and each function of a server has one lemma about it.
-/

namespace DatagramCircuits

/-- Something that the application hears about a circuit while it lasts. -/
inductive Report where
  /-- The circuit was set up. -/
  | start (circuit : CircuitId)
  /-- A message came, or the rates are negotiated anew. -/
  | news (circuit : CircuitId)
deriving DecidableEq, Repr

/-- The circuit that a report is about. -/
def Report.circuit : Report → CircuitId
  | start id => id
  | news id => id

/-- What an effect reports. -/
def Effect.report? : Effect → Option Report
  | established id _ _ => some (.start id)
  | adjusted id _ _ => some (.news id)
  | delivered id _ _ => some (.news id)
  | _ => none

/-- The circuit of which an effect tells that it was closed. -/
def Effect.closed? : Effect → Option CircuitId
  | closed id _ _ _ => some id
  | _ => none

/-- The circuits that effects tell to be closed. -/
def Effect.closures (l : List Effect) : List CircuitId :=
  l.filterMap closed?

/-- The closures of two parts follow each other. -/
theorem Effect.closures_append (l l' : List Effect) : closures (l ++ l') = closures l ++ closures l' :=
  List.filterMap_append

/-- What an action is there to report, whatever becomes of the circuit meanwhile. -/
def Action.report? : Action → Option Report
  | announce id => some (.start id)
  | deliver id _ => some (.news id)
  | _ => none

/-- What is left to be done. -/
def Outcome.rest : Outcome → List Action
  | waiting rest => rest
  | _ => []

/-- The datagram that an action decodes, and where it came from. -/
def Action.arrival? : Action → Option (Address × Octets)
  | handle source datagram => some (source, datagram)
  | _ => none

/-- Whether an action has to do with the socket only. -/
def Action.isSend : Action → Bool
  | transmit .. | countSent _ => true
  | _ => false

/-- What a task is there to report comes before anything but sending. -/
def Action.Timely : List Action → Prop
  | [] => True
  | a :: l => (a.isSend = true ∧ Timely l) ∨ l.filterMap report? = []

/-- What `sendAll` leaves to be done is sending. -/
theorem Action.isSend_of_mem_sendAll {a : Action} {target : Address} {l : List Octets}
    (h : a ∈ sendAll target l) : a.isSend = true := by
  simp only [sendAll, List.mem_append, List.mem_map, List.mem_singleton] at h
  rcases h with ⟨d, -, rfl⟩ | rfl <;> rfl

/-- Where there is nothing to report, it is reported in good time. -/
theorem Action.timely_of_none {l : List Action} (h : l.filterMap report? = []) : Timely l := by
  cases l with
  | nil => trivial
  | cons a l =>
    refine .inr (List.filterMap_eq_nil_iff.2 fun b hb ↦ ?_)
    exact List.filterMap_eq_nil_iff.1 h b (List.mem_cons_of_mem a hb)

/-- Once the first action is done, the rest still reports in good time. -/
theorem Action.Timely.tail {a : Action} {l : List Action} (h : Timely (a :: l)) : Timely l :=
  h.elim And.right timely_of_none

/-- Sending may come before a report. -/
theorem Action.Timely.append_left {k l : List Action} (h : Timely l)
    (hk : ∀ a ∈ k, a.isSend = true) : Timely (k ++ l) := by
  induction k with
  | nil => exact h
  | cons a k ih =>
    exact .inl ⟨hk a List.mem_cons_self, ih fun b hb ↦ hk b (List.mem_cons_of_mem a hb)⟩

/-- Anything that reports nothing may come after a report. -/
theorem Action.Timely.append_right {k l : List Action} (h : Timely k)
    (hl : l.filterMap report? = []) : Timely (k ++ l) := by
  induction k with
  | nil => exact timely_of_none hl
  | cons a k ih =>
    rcases h with ⟨hsend, hk⟩ | hk
    · exact .inl ⟨hsend, ih hk⟩
    · exact .inr (List.filterMap_append.trans (by rw [hk, hl]; rfl))

theorem Action.report?_of_mem_sendAll {a : Action} {target : Address} {l : List Octets}
    (h : a ∈ sendAll target l) : a.report? = none := by
  simp only [sendAll, List.mem_append, List.mem_map, List.mem_singleton] at h
  rcases h with ⟨d, -, rfl⟩ | rfl <;> rfl

/-- Sending reports nothing. -/
theorem Action.filterMap_report?_sendAll (target : Address) (l : List Octets) :
    (sendAll target l).filterMap report? = [] :=
  List.filterMap_eq_nil_iff.2 fun _ h ↦ report?_of_mem_sendAll h

namespace Server

/-- Nothing about the circuits in use and about requests differs between the servers. -/
structure SameRegistry (s s' : Server) : Prop where
  config : s'.config = s.config
  root : s'.root = s.root
  terms : s'.forest.terms = s.forest.terms
  circuits : s'.circuits.map Circuit.standing = s.circuits.map Circuit.standing
  table : s'.table = s.table
  pending : s'.pending = s.pending
  authorizing : s'.authorizing = s.authorizing
  closed : s'.counters.closed = s.counters.closed

/-- The server when the request at a position is decided. -/
def decided (position : Nat) (s : Server) : Server :=
  { s with authorizing := s.authorizing.eraseIdx position }

/-- A change of a server, recorded by the effects that it adds. -/
inductive Change : Server → List Effect → Server → Prop
  /-- Something that the circuits in use and the requests do not feel. -/
  | aside {s s' : Server} {k : List Effect} (h : SameRegistry s s')
      (heffects : s'.effects = s.effects ++ k) (hk : k.filterMap Effect.closed? = []) :
    Change s k s'
  /-- The rates of a circuit are negotiated anew. -/
  | adjust {s : Server} {id : CircuitId} {c : Circuit} {requested : Rates} {now : Instant}
      {adjustment : Adjustment} {forest : Forest} (hid : s.circuit? id = some c)
      (h : c.renegotiate requested now s.forest = .ok (adjustment, forest)) :
    Change s [.adjusted id c.agent adjustment]
      ({ s with forest }.record (.adjusted id c.agent adjustment))
  /-- A circuit is closed. -/
  | close {s : Server} {id : CircuitId} {c : Circuit} (reason : CloseReason)
      (hid : s.circuit? id = some c) (hopen : c.isClosed = false) :
    Change s [.closed id c.agent c.address reason] (s.closeCircuit id reason).2
  /-- A datagram is kept for a circuit that is being set up. -/
  | keep {s : Server} {source : Address} {datagram : Octets} {kept : List Octets} {p : Packet}
      (hparse : Datagram.parse s.config.mtu datagram = .ok p)
      (hfree : s.table.byAddress.get? source = none) (hkept : s.pending.get? source = some kept)
      (hroom : kept.length < s.config.maxBuffered) :
    Change s [] { s with pending := s.pending.insert source (kept ++ [datagram]) }
  /-- A circuit is requested. -/
  | request {s : Server} {h : Handshake} (hfree : s.table.byAddress.get? h.address = none)
      (hnew : s.pending.get? h.address = none) :
    Change s []
      { s with pending := s.pending.insert h.address [], authorizing := s.authorizing ++ [h] }
  /-- A request is granted, and its circuit taken into the table. -/
  | grant {s : Server} {position : Nat} {h : Handshake} {session : Session} {now : Instant}
      {c : Circuit} {forest : Forest} {k : List Effect} (hposition : s.authorizing[position]? = some h)
      (hopened : Circuit.opened session h.address s.config s.root now s.forest = .ok (c, forest))
      (hk : ((s.decided position).install h.address c forest).2.effects = s.effects ++ k) :
    Change s k ((s.decided position).install h.address c forest).2
  /-- A request is granted, and a fault keeps its circuit from being opened. -/
  | abandon {s : Server} {position : Nat} {h : Handshake} {session : Session} {now : Instant}
      {fault : Fault} {forest : Forest} (hposition : s.authorizing[position]? = some h)
      (hopened :
        Circuit.opened session h.address s.config s.root now s.forest = .error (fault, forest)) :
    Change s [] { s.decided position with forest }
  /-- A request is denied. -/
  | deny {s : Server} {position : Nat} {h : Handshake}
      (hposition : s.authorizing[position]? = some h) :
    Change s [] ((s.decided position).deny h)

/-- How many circuits and how many buckets there are. -/
def extent (s : Server) : Nat × Nat :=
  (s.circuits.length, s.forest.buckets.length)

/-- A change that opens no circuit, and adds no bucket. -/
def Work (s : Server) (k : List Effect) (s' : Server) : Prop :=
  Change s k s' ∧ s'.extent = s.extent

/-- Work that has nothing to do with requests. -/
def Calm (s : Server) (k : List Effect) (s' : Server) : Prop :=
  Work s k s' ∧ s'.pending = s.pending ∧ s'.authorizing = s.authorizing

variable {s s' s'' : Server} {k : List Effect} {id : CircuitId} {c c' : Circuit} {now : Instant}
  {r : Outcome × Server} {q : Option Report}

/-! ### Changes aside -/

theorem SameRegistry.refl (s : Server) : SameRegistry s s :=
  ⟨rfl, rfl, rfl, rfl, rfl, rfl, rfl, rfl⟩

theorem SameRegistry.trans (h : SameRegistry s s') (h' : SameRegistry s' s'') :
    SameRegistry s s'' where
  config := h'.config.trans h.config
  root := h'.root.trans h.root
  terms := h'.terms.trans h.terms
  circuits := h'.circuits.trans h.circuits
  table := h'.table.trans h.table
  pending := h'.pending.trans h.pending
  authorizing := h'.authorizing.trans h.authorizing
  closed := h'.closed.trans h.closed

/-- The circuit at a position is another one in the same standing. -/
theorem exists_circuit_of_standing
    (h : s'.circuits.map Circuit.standing = s.circuits.map Circuit.standing)
    (hid : s.circuit? id = some c) : ∃ c', s'.circuit? id = some c' ∧ c'.standing = c.standing := by
  have hat : (s'.circuits.map Circuit.standing)[id]? = (s.circuits.map Circuit.standing)[id]? := by
    rw [h]
  rw [List.getElem?_map, List.getElem?_map] at hat
  change (s'.circuit? id).map _ = (s.circuit? id).map _ at hat
  rw [hid] at hat
  exact Option.map_eq_some_iff.1 hat

/-- Nothing about circuits and requests depends on the record of the effects. -/
theorem sameRegistry_record (e : Effect) (s : Server) : SameRegistry s (s.record e) :=
  ⟨rfl, rfl, rfl, rfl, rfl, rfl, rfl, rfl⟩

/-- Nor does it on the counters, except for the count of circuits that were closed. -/
theorem sameRegistry_count (change : Counters → Counters) (h : ∀ c, (change c).closed = c.closed)
    (s : Server) : SameRegistry s (s.count change) :=
  ⟨rfl, rfl, rfl, rfl, rfl, rfl, rfl, h s.counters⟩

/-- A drop is only counted. -/
theorem sameRegistry_drop (cause : DropCause) (s : Server) : SameRegistry s (s.drop cause) :=
  sameRegistry_count _ (fun _ ↦ by cases cause <;> rfl) s

/-- A circuit goes on in the same standing. -/
theorem sameRegistry_putCircuit (hid : s.circuit? id = some c) (h : c'.standing = c.standing) :
    SameRegistry s (s.putCircuit id c') := by
  refine ⟨rfl, rfl, rfl, ?_, rfl, rfl, rfl, rfl⟩
  have hat : (s.circuits.map Circuit.standing)[id]? = some c.standing := by
    rw [List.getElem?_map, show s.circuits[id]? = some c from hid]
    rfl
  rw [putCircuit, List.map_set, h]
  refine List.ext_getElem? fun i ↦ ?_
  by_cases hi : id = i
  · subst hi
    rw [hat, List.getElem?_set_self (List.getElem?_eq_some_iff.1 hat).1]
  · rw [List.getElem?_set_ne hi]

/-- A change aside opens no circuit. -/
theorem SameRegistry.length_eq (h : SameRegistry s s') :
    s'.circuits.length = s.circuits.length := by
  simpa using congrArg List.length h.circuits

/-- It opens no circuit and adds no bucket. -/
theorem SameRegistry.extent_eq (h : SameRegistry s s') : s'.extent = s.extent :=
  Prod.ext h.length_eq (Forest.length_eq_of_terms h.terms)

/-- Work is a matter of changes. -/
theorem chain_of_work (h : Chain Work s k s') : Chain Change s k s' :=
  h.mono And.left

/-- Work neither opens a circuit nor adds a bucket. -/
theorem extent_of_work (h : Chain Work s k s') : s'.extent = s.extent :=
  h.preserves (motive := fun _ s' ↦ s'.extent = s.extent) (k := []) rfl
    fun hbefore hstep ↦ hstep.2.trans hbefore

/-- Work opens no circuit. -/
theorem length_of_work (h : Chain Work s k s') : s'.circuits.length = s.circuits.length :=
  congrArg Prod.fst (extent_of_work h)

theorem work_of_calm (h : Chain Calm s k s') : Chain Work s k s' :=
  h.mono And.left

/-- Requests are as they were. -/
theorem requests_of_calm (h : Chain Calm s k s') :
    s'.pending = s.pending ∧ s'.authorizing = s.authorizing :=
  h.preserves (motive := fun _ s' ↦ s'.pending = s.pending ∧ s'.authorizing = s.authorizing) (k := [])
    ⟨rfl, rfl⟩ fun hbefore hstep ↦ ⟨hstep.2.1.trans hbefore.1, hstep.2.2.trans hbefore.2⟩

/-- What the circuits and the requests do not feel, and no effect tells of, is calm work. -/
theorem calm_aside (h : SameRegistry s s') (heffects : s'.effects = s.effects) :
    Chain Calm s [] s' :=
  Chain.single
    ⟨⟨.aside h (by rw [heffects, List.append_nil]) rfl, h.extent_eq⟩, h.pending, h.authorizing⟩

/-- To record anything but a close is calm work. -/
theorem calm_record {e : Effect} (he : e.closed? = none) (s : Server) :
    Chain Calm s [e] (s.record e) :=
  Chain.single ⟨⟨.aside (sameRegistry_record e s) rfl (by simp [he]), rfl⟩, rfl, rfl⟩

/-! ### Circuits stay -/

/-- Putting a circuit back replaces it alone. -/
theorem circuit?_set (hid : s.circuit? id = some c) (c' : Circuit) (j : CircuitId) :
    (s.putCircuit id c').circuit? j = if id = j then some c' else s.circuit? j := by
  rw [circuit?, putCircuit]
  split
  · subst_vars
    exact List.getElem?_set_self (List.getElem?_eq_some_iff.1 hid).1
  · exact List.getElem?_set_ne ‹_›

/-- The circuit that an agent is found to have is one of the server's. -/
theorem circuit?_of_ofAgent? {agent : Uuid} (h : s.ofAgent? agent = some (id, c)) :
    s.circuit? id = some c := by
  obtain ⟨id', -, h⟩ := Option.bind_eq_some_iff.1 h
  obtain ⟨c', hid, h⟩ := Option.bind_eq_some_iff.1 h
  cases h
  exact hid

/-- All circuits are still there with whom they were set up for, and those that were closed are
closed. -/
def Continues (s s' : Server) : Prop :=
  ∀ id c, s.circuit? id = some c → ∃ c', s'.circuit? id = some c' ∧ c'.session = c.session ∧
    c'.address = c.address ∧ (c.isClosed = true → c'.isClosed = true)

theorem Continues.refl (s : Server) : Continues s s :=
  fun _ c hid ↦ ⟨c, hid, rfl, rfl, fun h ↦ h⟩

theorem Continues.trans (h : Continues s s') (h' : Continues s' s'') : Continues s s'' := by
  intro id c hid
  obtain ⟨c', hid', hsession, haddress, hclosed⟩ := h id c hid
  obtain ⟨c'', hid'', hsession', haddress', hclosed'⟩ := h' id c' hid'
  exact ⟨c'', hid'', hsession'.trans hsession, haddress'.trans haddress, fun h ↦ hclosed' (hclosed h)⟩

/-- Circuits are numbered in the order in which they were set up. -/
theorem lt_length_of_circuit? (hid : s.circuit? id = some c) : id < s.circuits.length :=
  (List.getElem?_eq_some_iff.1 hid).1

/-- There is a circuit for every number that was given out. -/
theorem exists_circuit_of_lt (h : id < s.circuits.length) : ∃ c, s.circuit? id = some c :=
  ⟨s.circuits[id], List.getElem?_eq_getElem h⟩

/-- A number that was given out stays so. -/
theorem Continues.lt_length (h : Continues s s') (hid : id < s.circuits.length) :
    id < s'.circuits.length := by
  obtain ⟨c, hc⟩ := exists_circuit_of_lt hid
  obtain ⟨c', hc', -⟩ := h id c hc
  exact lt_length_of_circuit? hc'

/-- Where the standing of all circuits is kept, they go on. -/
theorem SameRegistry.continues (h : SameRegistry s s') : Continues s s' := by
  intro id c hid
  obtain ⟨c', hid', hstanding⟩ := exists_circuit_of_standing h.circuits hid
  exact ⟨c', hid', congrArg Prod.fst hstanding, Circuit.address_of_standing hstanding,
    fun hclosed ↦ (Circuit.isClosed_of_standing hstanding).trans hclosed⟩

/-- Closing an open circuit. -/
theorem closeCircuit_of_open (reason : CloseReason) (hid : s.circuit? id = some c)
    (hopen : c.isClosed = false) :
    s.closeCircuit id reason = (true,
      ({ s.putCircuit id c.ended with
          forest := c.allowance.detach s.forest
          table := s.table.remove c.address c.agent id }.count
        Counters.countClosed).record (.closed id c.agent c.address reason)) := by
  rw [closeCircuit, hid]
  dsimp only
  rw [Circuit.close_of_open hopen]
  rfl

/-- Closing a closed circuit changes nothing. -/
theorem closeCircuit_of_closed (reason : CloseReason) (hid : s.circuit? id = some c)
    (hclosed : c.isClosed = true) : s.closeCircuit id reason = (false, s) := by
  rw [closeCircuit, hid]
  dsimp only
  rw [Circuit.close_of_closed hclosed]

/-- Nor does closing one that was never set up. -/
theorem closeCircuit_of_none (reason : CloseReason) (hid : s.circuit? id = none) :
    s.closeCircuit id reason = (false, s) := by
  rw [closeCircuit, hid]

/-- Closing a circuit ends it, and no other one. -/
theorem circuit?_closeCircuit (reason : CloseReason) (hid : s.circuit? id = some c)
    (hopen : c.isClosed = false) (j : CircuitId) :
    (s.closeCircuit id reason).2.circuit? j = if id = j then some c.ended else s.circuit? j := by
  rw [closeCircuit_of_open reason hid hopen]
  exact circuit?_set hid _ j

/-- Circuits go on while one of them is closed. -/
theorem continues_closeCircuit (id : CircuitId) (reason : CloseReason) (s : Server) :
    Continues s (s.closeCircuit id reason).2 := by
  cases hid : s.circuit? id with
  | none =>
    rw [closeCircuit_of_none reason hid]
    exact .refl s
  | some c =>
    cases hclosed : c.isClosed with
    | true =>
      rw [closeCircuit_of_closed reason hid hclosed]
      exact .refl s
    | false =>
      intro j d hj
      rw [circuit?_closeCircuit reason hid hclosed]
      split
      · subst_vars
        obtain rfl := Option.some.inj (hid.symm.trans hj)
        exact ⟨_, rfl, rfl, rfl, fun _ ↦ rfl⟩
      · exact ⟨d, hj, rfl, rfl, fun h ↦ h⟩

/-- Closes circuits that are in the way of another one. -/
def supersede (ids : List CircuitId) (s : Server) : Server :=
  ids.foldl (fun s id ↦ (s.closeCircuit id .superseded).2) s

theorem continues_supersede (ids : List CircuitId) (s : Server) : Continues s (s.supersede ids) := by
  induction ids generalizing s with
  | nil => exact .refl s
  | cons id ids ih => exact (continues_closeCircuit id .superseded s).trans (ih _)

/-- Circuits that are in nobody's way are left alone. -/
theorem circuit?_supersede (ids : List CircuitId) (s : Server) {j : CircuitId} (hj : j ∉ ids) :
    (s.supersede ids).circuit? j = s.circuit? j := by
  induction ids generalizing s with
  | nil => rfl
  | cons id ids ih =>
    obtain ⟨hne, hj⟩ := not_or.1 (mt List.mem_cons.2 hj)
    refine (ih (s.closeCircuit id .superseded).2 hj).trans ?_
    cases hid : s.circuit? id with
    | none => rw [closeCircuit_of_none .superseded hid]
    | some c =>
      cases hclosed : c.isClosed with
      | true => rw [closeCircuit_of_closed .superseded hid hclosed]
      | false => rw [circuit?_closeCircuit .superseded hid hclosed, if_neg (Ne.symm hne)]

/-- The server with a circuit taken into the table, and those in its way still open. -/
def entered (address : Address) (c : Circuit) (forest : Forest) (s : Server) : Server :=
  { s with
    forest
    circuits := s.circuits ++ [c]
    pending := (s.pending.remove address).2
    table := (s.table.insert address c.agent s.circuits.length).2 }

/-- To install a circuit is to enter it, and then to close those in its way. -/
theorem install_snd (address : Address) (c : Circuit) (forest : Forest) (s : Server) :
    (s.install address c forest).2 =
      (s.entered address c forest).supersede
        (s.table.insert address c.agent s.circuits.length).1 :=
  rfl

/-- The circuit that is entered has the next number. -/
theorem circuit?_entered (address : Address) (c : Circuit) (forest : Forest) (s : Server)
    (j : CircuitId) : (s.entered address c forest).circuit? j =
      if s.circuits.length = j then some c else s.circuit? j := by
  rw [circuit?, circuit?, entered]
  dsimp only
  split
  · subst_vars
    exact List.getElem?_concat_length
  · rename_i hne
    rcases Nat.lt_or_gt_of_ne hne with hlt | hlt
    · rw [List.getElem?_eq_none (by simpa using Nat.succ_le_of_lt hlt),
        List.getElem?_eq_none (Nat.le_of_lt hlt)]
    · exact List.getElem?_append_left hlt

/-- A new circuit is not in its own way. -/
theorem notMem_insert (address : Address) (agent : Uuid) (id : CircuitId) (t : Table) :
    id ∉ (t.insert address agent id).1 := by
  simp [Table.insert]

/-- A new circuit is there as it was opened. -/
theorem circuit?_install_self (address : Address) (c : Circuit) (forest : Forest) (s : Server) :
    (s.install address c forest).2.circuit? s.circuits.length = some c := by
  rw [install_snd, circuit?_supersede _ _ (notMem_insert address c.agent _ _), circuit?_entered,
    if_pos rfl]

/-- Circuits go on while another one is installed. -/
theorem continues_install (address : Address) (c : Circuit) (forest : Forest) (s : Server) :
    Continues s (s.install address c forest).2 := by
  have hentered : Continues s (s.entered address c forest) := by
    intro j d hj
    refine ⟨d, ?_, rfl, rfl, fun h ↦ h⟩
    rw [circuit?_entered, if_neg (Nat.ne_of_gt (lt_length_of_circuit? hj))]
    exact hj
  rw [install_snd]
  exact hentered.trans (continues_supersede _ _)

/-- **Circuits stay:** no change takes one away, gives it to someone else, or opens it again. -/
theorem Change.continues (h : Change s k s') : Continues s s' := by
  cases h with
  | aside h => exact h.continues
  | adjust | keep | request | abandon | deny => exact .refl _
  | close reason => exact continues_closeCircuit _ reason s
  | grant => exact Continues.trans (.refl s) (continues_install _ _ _ (s.decided _))

/-- **Circuits stay** through any number of changes. -/
theorem continues_of_chain (h : Chain Change s k s') : Continues s s' :=
  h.preserves (motive := fun _ s' ↦ Continues s s') (k := []) (.refl s)
    fun hbefore hstep ↦ hbefore.trans hstep.continues

/-- The number of circuits never falls. -/
theorem length_le_of_chain (h : Chain Change s k s') : s.circuits.length ≤ s'.circuits.length :=
  Nat.not_lt.1 fun hlt ↦ Nat.lt_irrefl _ ((continues_of_chain h).lt_length hlt)

/-- Nothing else is ever recorded than effects, one after another. -/
theorem Change.effects (h : Change s k s') : s'.effects = s.effects ++ k := by
  cases h with
  | aside _ heffects => exact heffects
  | adjust => rfl
  | close reason hid hopen => rw [closeCircuit_of_open reason hid hopen]; rfl
  | grant _ _ hk => exact hk
  | keep | request | abandon | deny => exact (List.append_nil _).symm

/-- The effects of changes are recorded one after another. -/
theorem effects_of_chain (h : Chain Change s k s') : s'.effects = s.effects ++ k :=
  h.preserves (motive := fun k s' ↦ s'.effects = s.effects ++ k) (k := []) (List.append_nil _).symm
    fun hbefore hstep ↦ by rw [hstep.effects, hbefore, List.append_assoc]

theorem config_closeCircuit (id : CircuitId) (reason : CloseReason) (s : Server) :
    (s.closeCircuit id reason).2.config = s.config := by
  rw [closeCircuit]
  split
  · rfl
  · split <;> rfl

theorem config_supersede (ids : List CircuitId) (s : Server) :
    (s.supersede ids).config = s.config := by
  induction ids generalizing s with
  | nil => rfl
  | cons id ids ih => exact (ih _).trans (config_closeCircuit ..)

/-- The settings are fixed. -/
theorem Change.config (h : Change s k s') : s'.config = s.config := by
  cases h with
  | aside h => exact h.config
  | adjust | keep | request | abandon | deny => rfl
  | close reason => exact config_closeCircuit ..
  | grant => exact config_supersede ..

/-- No number of changes touches the settings. -/
theorem config_of_chain (h : Chain Change s k s') : s'.config = s.config :=
  h.preserves (motive := fun _ s' ↦ s'.config = s.config) (k := []) rfl
    fun hbefore hstep ↦ hstep.config.trans hbefore

/-! ### What parts of tasks lead to -/

/-- A part of a task leads by steps of a kind to an outcome, and reports what it may, at most once,
by now or in what is left of it, and in good time. Either it reports or it closes circuits. -/
def Leads (R : Server → List Effect → Server → Prop) (s : Server) (q : Option Report)
    (r : Outcome × Server) : Prop :=
  ∃ k, Chain R s k r.2 ∧
    (k.filterMap Effect.report? ++ r.1.rest.filterMap Action.report?).Sublist q.toList ∧
    (k.filterMap Effect.report? = [] ∨ Effect.closures k = []) ∧ Action.Timely r.1.rest

section

variable {R : Server → List Effect → Server → Prop}

/-- A part that is silent may come first. -/
theorem Leads.after (h : Chain R s [] s') (h' : Leads R s' q r) : Leads R s q r := by
  obtain ⟨k', hchain, hreports⟩ := h'
  exact ⟨k', h.trans hchain, hreports⟩

theorem Leads.work (h : Leads Calm s q r) : Leads Work s q r := by
  obtain ⟨k, hcalm, hreports⟩ := h
  exact ⟨k, work_of_calm hcalm, hreports⟩

/-- What reports nothing. -/
theorem leads_of_chain (h : Chain R s k r.2) (hk : k.filterMap Effect.report? = [])
    (hrest : r.1.rest.filterMap Action.report? = []) : Leads R s q r :=
  ⟨k, h, by rw [hk, hrest]; exact List.nil_sublist _, .inl hk, Action.timely_of_none hrest⟩

end

/-- What the circuits and the requests do not feel leads to an outcome without a report. -/
theorem leads_aside (h : SameRegistry s r.2) (heffects : r.2.effects = s.effects)
    (hrest : r.1.rest.filterMap Action.report? = []) : Leads Calm s q r :=
  leads_of_chain (calm_aside h heffects) rfl hrest

/-- Closing a circuit is one change, if it is open, and else none. -/
theorem calm_closeCircuit (id : CircuitId) (reason : CloseReason) (s : Server) :
    ∃ k, Chain Calm s k (s.closeCircuit id reason).2 ∧ k.filterMap Effect.report? = [] := by
  cases hid : s.circuit? id with
  | none =>
    rw [closeCircuit_of_none reason hid]
    exact ⟨[], Chain.refl, rfl⟩
  | some c =>
    cases hclosed : c.isClosed with
    | false =>
      refine ⟨_, Chain.single ⟨⟨.close reason hid hclosed, ?_⟩, ?_⟩, rfl⟩
      · rw [closeCircuit_of_open reason hid hclosed]
        exact Prod.ext List.length_set (Allowance.length_detach ..)
      · rw [closeCircuit_of_open reason hid hclosed]
        exact ⟨rfl, rfl⟩
    | true =>
      rw [closeCircuit_of_closed reason hid hclosed]
      exact ⟨[], Chain.refl, rfl⟩

/-- Circuits that are in the way are closed one by one, and none of that is a report. -/
theorem calm_supersede (ids : List CircuitId) (s : Server) :
    ∃ k, Chain Calm s k (s.supersede ids) ∧ k.filterMap Effect.report? = [] := by
  induction ids generalizing s with
  | nil => exact ⟨[], Chain.refl, rfl⟩
  | cons id ids ih =>
    obtain ⟨k, hchain, hk⟩ := s.calm_closeCircuit id .superseded
    obtain ⟨k', hchain', hk'⟩ := ih (s.closeCircuit id .superseded).2
    exact ⟨k ++ k', hchain.trans hchain', by rw [List.filterMap_append, hk, hk']; rfl⟩

/-! ### Messages and datagrams -/

/-- A message of the protocol is reported as news of its circuit, if at all. -/
theorem leads_control (hid : s.circuit? id = some c) (m : Control) (now : Instant) :
    Leads Calm s (some (.news id)) (s.control id c m now) := by
  cases m with
  | acks sequences =>
    exact leads_aside
      (sameRegistry_putCircuit hid (c.standing_acknowledge sequences now)) rfl rfl
  | ping ping oldest =>
    rw [control]
    split
    · exact leads_of_chain Chain.refl rfl (Action.filterMap_report?_sendAll ..)
    · exact leads_of_chain Chain.refl rfl rfl
  | pong ping =>
    exact leads_aside (sameRegistry_putCircuit hid (c.standing_takePong ping now)) rfl rfl
  | throttle rates =>
    rw [control]
    split
    · rename_i adjustment forest hrates
      have hextent : extent { s with forest } = s.extent :=
        Prod.ext rfl (Allowance.length_renegotiate hrates)
      exact ⟨_, Chain.single ⟨⟨.adjust hid hrates, hextent⟩, rfl, rfl⟩, List.Sublist.refl _, .inr rfl,
        trivial⟩
    · exact leads_of_chain Chain.refl rfl rfl
  | close =>
    obtain ⟨k, hchain, hk⟩ := s.calm_closeCircuit id .protocolClose
    exact leads_of_chain hchain hk rfl
  | setup request => exact leads_of_chain Chain.refl rfl rfl

/-- Delivering a packet is reported as news of its circuit, if at all. -/
theorem leads_deliver (id : CircuitId) (p : Packet) (now : Instant) (s : Server) :
    Leads Calm s (some (.news id)) (s.deliver id p now) := by
  rw [deliver]
  split
  · exact leads_of_chain Chain.refl rfl rfl
  · rename_i c hid
    split
    · exact leads_aside (sameRegistry_drop ..) rfl rfl
    · exact leads_control hid ..
    · exact ⟨_, calm_record rfl s, List.Sublist.refl _, .inr rfl, trivial⟩

/-- What a datagram may be reported as: its circuit has to be open. -/
def news? (s : Server) (id : CircuitId) : Option Report :=
  if (s.circuit? id).any (!·.isClosed) then some (.news id) else none

/-- Taking in a datagram is reported as news only if the circuit is found open; where
acknowledgements have to be sent first, what is left to be done reports instead. -/
theorem leads_receive (id : CircuitId) (p : Packet) (length : Nat) (now : Instant) (s : Server) :
    Leads Calm s (s.news? id) (s.receive id p length now) := by
  rw [receive]
  split
  · exact leads_of_chain Chain.refl rfl rfl
  · rename_i c hid
    have hput : ∀ {c'}, c'.standing = c.standing → Chain Calm s [] (s.putCircuit id c') :=
      fun h ↦ calm_aside (sameRegistry_putCircuit hid h) rfl
    have hstanding := c.standing_receive p length now
    split
    · rename_i c' hreceive
      rw [hreceive] at hstanding
      exact leads_of_chain (hput hstanding) rfl rfl
    · exact leads_aside (sameRegistry_drop ..) rfl rfl
    · rename_i c' hreceive
      rw [hreceive] at hstanding
      exact leads_of_chain
        ((hput hstanding).trans (calm_aside (sameRegistry_drop ..) rfl)) rfl rfl
    all_goals
      rename_i c' hreceive
      rw [hreceive] at hstanding
      -- only an open circuit accepts anything
      have hnews : s.news? id = some (.news id) := by
        cases hclosed : c.isClosed with
        | false => rw [news?, hid, Option.any_some, hclosed]; rfl
        | true => rw [Circuit.receive, if_pos hclosed] at hreceive; cases hreceive
    · rw [hnews]
      exact (leads_deliver ..).after (hput hstanding)
    · have hflush := (c'.standing_flushAcks).trans hstanding
      split
      · rename_i c'' hacks
        rw [hacks] at hflush
        rw [hnews]
        exact (leads_deliver ..).after (hput hflush)
      · rename_i acks c'' hne hacks
        rw [hacks] at hflush
        rw [hnews]
        refine ⟨[], hput hflush, ?_, .inl rfl, ?_⟩
        · rw [Outcome.rest, List.filterMap_append, Action.filterMap_report?_sendAll]
          exact List.Sublist.refl _
        · exact Action.Timely.append_left (.inr rfl) fun a ↦ Action.isSend_of_mem_sendAll

/-- A datagram that can not be read is dropped. -/
theorem leads_readDatagram {R : Server → List Effect → Server → Prop}
    (hR : ∀ {s k s'}, Calm s k s' → R s k s') {datagram : Octets} {next : Packet → Outcome × Server}
    (h : ∀ p, Datagram.parse s.config.mtu datagram = .ok p → Leads R s q (next p)) :
    Leads R s q (s.readDatagram datagram next) := by
  rw [readDatagram]
  split
  · exact h _ ‹_›
  · exact leads_of_chain ((calm_aside (sameRegistry_drop ..) rfl).mono hR) rfl rfl
  · exact leads_of_chain Chain.refl rfl rfl

/-- A datagram that was kept is reported like any other. -/
theorem leads_replay (id : CircuitId) (datagram : Octets) (now : Instant) (s : Server) :
    Leads Calm s (s.news? id) (s.replay id datagram now) :=
  leads_readDatagram (fun h ↦ h) fun _ _ ↦ leads_receive ..

/-- A datagram that comes while its circuit is set up is kept, or dropped where too many are. -/
theorem work_keep {source : Address} {kept : List Octets} {datagram : Octets} {p : Packet}
    (hparse : Datagram.parse s.config.mtu datagram = .ok p)
    (hfree : s.table.byAddress.get? source = none) (hkept : s.pending.get? source = some kept) :
    Chain Work s [] (s.keep source datagram kept) := by
  rw [keep]
  split
  · exact Chain.single ⟨.keep hparse hfree hkept ‹_›, rfl⟩
  · exact work_of_calm (calm_aside (sameRegistry_drop ..) rfl)

/-- A first datagram requests a circuit, or is dropped. -/
theorem work_request {source : Address} (hfree : s.table.byAddress.get? source = none)
    (hnew : s.pending.get? source = none) (p : Packet) (length : Nat) :
    Chain Work s [] (s.request source p length) := by
  rw [request]
  split
  · exact work_of_calm (calm_aside (sameRegistry_drop ..) rfl)
  · split
    · exact work_of_calm (calm_aside (sameRegistry_drop ..) rfl)
    · exact Chain.single
        ⟨.request (h := { address := source, request := _, packet := p, length }) hfree hnew, rfl⟩

/-- An arriving datagram is reported as news of the circuit of its sender, if that circuit is open.
-/
theorem leads_handle (source : Address) (datagram : Octets) (now : Instant) (s : Server) :
    Leads Work s ((s.table.byAddress.get? source).bind s.news?) (s.handle source datagram now) := by
  refine leads_readDatagram And.left fun p hparse ↦ ?_
  split
  · rename_i id hid
    rw [hid]
    exact (leads_receive ..).work
  · rename_i hfree
    split
    · exact leads_of_chain (work_keep hparse hfree ‹_›) rfl rfl
    · exact leads_of_chain (work_request hfree ‹_› _ _) rfl rfl

/-! ### Regular work -/

/-- The beginning of a notice of empty queues is a change aside, and no effect tells of it. -/
theorem sameRegistry_notify (id : CircuitId) (lanes : List Lane) (now : Instant) (s : Server) :
    SameRegistry s (s.notify id lanes now) ∧ (s.notify id lanes now).effects = s.effects := by
  rw [notify]
  split
  · exact ⟨.refl s, rfl⟩
  · rename_i c hid
    have hbegin := c.standing_beginQueueEmpty now
    split
    · exact ⟨.refl s, rfl⟩
    · rename_i c' heq
      rw [heq] at hbegin
      have hput := sameRegistry_putCircuit hid hbegin
      split
      · exact ⟨⟨rfl, rfl, rfl, hput.circuits, rfl, rfl, rfl, rfl⟩, rfl⟩
      · have hend := sameRegistry_putCircuit hid ((c'.standing_endQueueEmpty).trans hbegin)
        exact ⟨hend.trans (sameRegistry_count Counters.countJobRejected (fun _ ↦ rfl) _), rfl⟩

/-- The datagrams that were not acknowledged are told one by one. -/
theorem calm_unacknowledged (id : CircuitId) (agent : Uuid) (l : List Outgoing) (s : Server) :
    ∃ k, Chain Calm s k (l.foldl (fun s p ↦ s.record (.unacknowledged id agent p)) s) ∧
      k.filterMap Effect.report? = [] := by
  induction l generalizing s with
  | nil => exact ⟨[], Chain.refl, rfl⟩
  | cons p l ih =>
    obtain ⟨k, hchain, hk⟩ := ih (s.record (.unacknowledged id agent p))
    exact ⟨_, (calm_record rfl s).trans hchain, by rw [List.filterMap_append, hk]; rfl⟩

/-- What a tick put out is taken in by calm work that reports nothing. -/
theorem calm_takeIn {t : Turn} (hid : s.circuit? id = some c)
    (hstanding : t.circuit.standing = c.standing) (hterms : t.forest.terms = s.forest.terms)
    (now : Instant) :
    ∃ k, Chain Calm s k (s.takeIn id t now) ∧ k.filterMap Effect.report? = [] := by
  have hput := sameRegistry_putCircuit hid hstanding
  have hforest : SameRegistry s { s.putCircuit id t.circuit with forest := t.forest } :=
    ⟨rfl, rfl, hterms, hput.circuits, rfl, rfl, rfl, rfl⟩
  obtain ⟨k, hchain, hk⟩ := calm_unacknowledged id t.circuit.agent t.output.unacknowledged
    { s.putCircuit id t.circuit with forest := t.forest }
  refine ⟨[] ++ (k ++ []), (calm_aside hforest rfl).trans (hchain.trans ?_), by simpa using hk⟩
  unfold takeIn
  dsimp only
  generalize t.output.unacknowledged.foldl _ _ = s₁
  have hcount := sameRegistry_count
    (fun c ↦ (c.countResent t.output.resent).countDroppedUnacked t.output.droppedUnacked)
    (fun _ ↦ rfl) s₁
  have hstall : ∀ s₂ : Server, SameRegistry s₂
      (if t.output.stalled then s₂.count Counters.countAckStall else s₂) ∧
      (if t.output.stalled then s₂.count Counters.countAckStall else s₂).effects = s₂.effects := by
    intro s₂
    split
    · exact ⟨sameRegistry_count Counters.countAckStall (fun _ ↦ rfl) _, rfl⟩
    · exact ⟨.refl s₂, rfl⟩
  have hcounted := hcount.trans (hstall _).1
  split
  · exact calm_aside hcounted (hstall _).2
  · exact calm_aside (hcounted.trans (sameRegistry_notify ..).1)
      ((sameRegistry_notify ..).2.trans (hstall _).2)

/-- A visit of a circuit reports nothing, and keeps to calm work also if a fault ends it. -/
theorem leads_serve (id : CircuitId) (now : Instant) (s : Server) :
    Leads Calm s none (s.serve id now) := by
  rw [serve]
  split
  · exact leads_of_chain Chain.refl rfl rfl
  · rename_i c hid
    split
    · exact leads_aside ⟨rfl, rfl, rfl, rfl, rfl, rfl, rfl, rfl⟩ rfl rfl
    · split
      · rename_i fault t htick
        obtain ⟨hbackground, hterms⟩ := Circuit.background_of_tick_error htick
        have hput := sameRegistry_putCircuit hid (Circuit.standing_of_background hbackground)
        exact leads_aside ⟨rfl, rfl, hterms, hput.circuits, rfl, rfl, rfl, rfl⟩ rfl rfl
      · rename_i t htick
        obtain ⟨hstanding, hterms⟩ := Circuit.keeps_of_tick htick
        obtain ⟨k, hchain, hk⟩ := calm_takeIn hid hstanding hterms now
        dsimp only
        split
        · exact leads_of_chain hchain hk rfl
        · exact leads_of_chain hchain hk (Action.filterMap_report?_sendAll ..)

/-! ### Requests that are decided -/

/-- The server changes, and nothing is reported of circuits that last. New circuits are open. -/
def ChangesQuietly (s s' : Server) : Prop :=
  ∃ k, Chain Change s k s' ∧ k.filterMap Effect.report? = [] ∧
    ∀ id c, s.circuits.length ≤ id → s'.circuit? id = some c → c.isClosed = false

/-- Nor has it to do with requests, or with new circuits. -/
def Quiet (s s' : Server) : Prop :=
  ∃ k, Chain Calm s k s' ∧ k.filterMap Effect.report? = []

/-- Calm work opens no circuit, so there is no new one that could be closed. -/
theorem Quiet.changesQuietly (h : Quiet s s') : ChangesQuietly s s' := by
  obtain ⟨k, hcalm, hk⟩ := h
  have hwork := work_of_calm hcalm
  refine ⟨k, chain_of_work hwork, hk, fun id c hid hc ↦ ?_⟩
  have hlt := lt_length_of_circuit? hc
  rw [length_of_work hwork] at hlt
  exact absurd hlt (Nat.not_lt.2 hid)

theorem Quiet.refl (s : Server) : Quiet s s :=
  ⟨[], Chain.refl, rfl⟩

/-- A change aside is quiet. -/
theorem quiet_aside (h : SameRegistry s s') (heffects : s'.effects = s.effects) : Quiet s s' :=
  ⟨[], calm_aside h heffects, rfl⟩

/-- One circuit is installed at a time. -/
theorem length_install (address : Address) (c : Circuit) (forest : Forest) (s : Server) :
    (s.install address c forest).2.circuits.length = s.circuits.length + 1 := by
  obtain ⟨k, hsupersede, -⟩ := calm_supersede (s.table.insert address c.agent s.circuits.length).1
    (s.entered address c forest)
  rw [install_snd, length_of_work (work_of_calm hsupersede)]
  exact List.length_append

/-- A request that is granted opens a circuit and closes those in its way, or it leaves a fault
behind. Nothing is reported before the circuit is announced. -/
theorem changesQuietly_establish {position : Nat} {h : Handshake}
    (hposition : s.authorizing[position]? = some h) (session : Session) (now : Instant) :
    ChangesQuietly s ((s.decided position).establish h session now).2 := by
  rw [establish]
  split
  · rename_i fault forest hopened
    refine ⟨[], Chain.single (.abandon hposition hopened), rfl, fun id c hid hc ↦ ?_⟩
    exact absurd (lt_length_of_circuit? hc) (Nat.not_lt.2 hid)
  · rename_i c forest hopened
    have hself : ((s.decided position).install h.address c forest).2.circuit? s.circuits.length =
      some c := (s.decided position).circuit?_install_self h.address c forest
    have hlength : ((s.decided position).install h.address c forest).2.circuits.length =
      s.circuits.length + 1 := (s.decided position).length_install h.address c forest
    obtain ⟨k, hsupersede, hk⟩ := calm_supersede
      ((s.decided position).table.insert h.address c.agent (s.decided position).circuits.length).1
      ((s.decided position).entered h.address c forest)
    have hadded := effects_of_chain (chain_of_work (work_of_calm hsupersede))
    have heffects : ((s.decided position).install h.address c forest).2.effects = s.effects ++ k :=
      hadded
    have hgrant := Chain.single (Change.grant hposition hopened heffects)
    have hreceive := c.standing_receive h.packet h.length now
    have hopen := (Circuit.exists_of_opened hopened).2.2.1
    -- the new circuit, which is the last one, stays open
    have hput : ∀ {c'}, c'.standing = c.standing → ChangesQuietly s
        (((s.decided position).install h.address c forest).2.putCircuit s.circuits.length c') := by
      intro c' hc'
      have hsame := sameRegistry_putCircuit hself hc'
      refine ⟨k ++ [], hgrant.trans (chain_of_work (work_of_calm <| calm_aside hsame rfl)),
        by simpa using hk,
        fun id d hid hd ↦ ?_⟩
      have hlt := lt_length_of_circuit? hd
      rw [hsame.length_eq, hlength] at hlt
      obtain rfl := Nat.le_antisymm (Nat.le_of_lt_succ hlt) hid
      rw [circuit?_set hself, if_pos rfl] at hd
      rw [← Option.some.inj hd]
      exact (Circuit.isClosed_of_standing hc').trans hopen
    dsimp only
    split <;> rename_i heq <;> rw [heq] at hreceive
    · exact hput hreceive
    · exact hput ((Circuit.standing_flushAcks _).trans hreceive)

/-! ### Actions -/

/-- The announcement of a circuit is recorded. -/
theorem effects_announce (hid : s.circuit? id = some c) :
    (s.announce id).effects = s.effects ++ [.established id c.address c.session] := by
  rw [announce, hid]
  rfl

/-- The announcement of a circuit reports its start. -/
theorem leads_announce (id : CircuitId) (s : Server) :
    Leads Calm s (some (.start id)) (.finished, s.announce id) := by
  rw [announce]
  split
  · exact leads_of_chain Chain.refl rfl rfl
  · rename_i c hid
    have hput := sameRegistry_putCircuit hid
      (Circuit.standing_transition (by decide) (by decide) c : c.connect.2.standing = _)
    have hcount := hput.trans (sameRegistry_count Counters.countEstablished (fun _ ↦ rfl) _)
    exact ⟨_, (calm_aside hcount rfl).trans (calm_record rfl _), List.Sublist.refl _, .inr rfl, trivial⟩

/-- What an action may report when it begins. -/
def report? (s : Server) : Action → Option Report
  | .announce id => some (.start id)
  | .deliver id _ => some (.news id)
  | .replay id _ => s.news? id
  | .handle source _ => (s.table.byAddress.get? source).bind s.news?
  | _ => none

/-- Only the decoding of a datagram has to do with requests. -/
theorem leads_calm (now : Instant) {a : Action} (ha : a.arrival? = none) (s : Server) :
    Leads Calm s (s.report? a) (s.perform now a) := by
  cases a with
  | handle source datagram => cases ha
  | transmit target datagram => exact leads_of_chain (calm_record rfl s) rfl rfl
  | countSent n => exact leads_aside (sameRegistry_count (·.countSent n) (fun _ ↦ rfl) s) rfl rfl
  | announce id => exact leads_announce id s
  | deliver id p => exact leads_deliver id p now s
  | replay id datagram => exact leads_replay id datagram now s
  | serve id time => exact leads_serve id time s

/-- **An action** leads by work to its outcome, and reports at most what it may. -/
theorem leads_perform (now : Instant) (a : Action) (s : Server) :
    Leads Work s (s.report? a) (s.perform now a) := by
  cases a with
  | handle source datagram => exact leads_handle source datagram now s
  | transmit | countSent | announce | deliver | replay | serve => exact (leads_calm now rfl s).work

end Server

end DatagramCircuits
