import DatagramCircuits.Proofs.Steps
import Mathlib.Data.Multiset.DershowitzManna
import Mathlib.Order.WellFounded
/-!
# Datagrams that were kept

What was kept for a circuit is given to it by the task that set it up, one datagram after another.
Between two of them the task may wait, and other tasks run.

**One task has them,** and only by going on with it they get fewer
(`RunningServer.backlogs_of_step`). So they are given to the circuit in order, each one once, and
none is lost unless a fault ends the task (`RunningServer.exists_lost_of_run`).

**A task comes to its end** if it goes on again and again. How often it waits depends on what it
sends, and cannot be told in advance; but each time some of its actions make way for others of
smaller rank (`Server.ranks_rest_lt`), in an order that has no endless descent.
-/

namespace DatagramCircuits

namespace Action

/-- The datagram that an action gives to the circuit for which it was kept. -/
def replay? (id : CircuitId) : Action → Option Octets
  | replay j datagram => if j = id then some datagram else none
  | _ => none

/-- The datagrams that actions give to the circuit for which they were kept. -/
def replays (id : CircuitId) (l : List Action) : List Octets :=
  l.filterMap (replay? id)

/-- The ranks of actions. -/
def ranks (l : List Action) : Multiset ℕ :=
  (l.map rank : List ℕ)

variable {id j : CircuitId} {l : List Action} {a : Action}

@[simp] theorem replays_nil (id : CircuitId) : replays id [] = [] :=
  rfl

@[simp] theorem replays_append (id : CircuitId) (l l' : List Action) :
    replays id (l ++ l') = replays id l ++ replays id l' :=
  List.filterMap_append

/-- Only the actions of the highest rank have datagrams that were kept. -/
theorem replays_of_rank (h : ∀ a ∈ l, a.rank < maxRank) : replays id l = [] := by
  refine List.filterMap_eq_nil_iff.2 fun a ha ↦ ?_
  have hrank := h a ha
  cases a with
  | replay => exact absurd hrank (Nat.lt_irrefl _)
  | transmit | countSent | announce | deliver | handle | serve => rfl

/-- Actions that owe nothing to a circuit replay nothing. -/
theorem replays_of_duty (h : ∀ a ∈ l, a.duty? = none) : replays id l = [] := by
  refine List.filterMap_eq_nil_iff.2 fun a ha ↦ ?_
  have hduty := h a ha
  cases a with
  | replay => cases hduty
  | transmit | countSent | announce | deliver | handle | serve => rfl

/-- Sending owes nothing to a circuit. -/
theorem duty?_of_isSend (h : a.isSend = true) : a.duty? = none := by
  cases a with
  | transmit | countSent => rfl
  | announce | deliver | replay | handle | serve => cases h

/-- What a set-up has to replay. -/
theorem replays_setup (id : CircuitId) (h : ∀ a ∈ l, a.isSend = true) (kept : List Octets) :
    replays id (l ++ .announce j :: kept.map (.replay j ·)) = if j = id then kept else [] := by
  have hannounce : replays id (.announce j :: kept.map (.replay j ·)) =
      kept.filterMap fun d ↦ if j = id then some d else none := by
    rw [replays, List.filterMap_cons_none rfl, List.filterMap_map]
    rfl
  rw [replays_append, replays_of_duty fun a ha ↦ duty?_of_isSend (h a ha), hannounce]
  split
  · exact List.filterMap_some
  · exact List.filterMap_eq_nil_iff.2 fun _ _ ↦ rfl

/-- Only the actions of the highest rank decode anything. -/
theorem arrival?_of_rank (h : a.rank < maxRank) : a.arrival? = none := by
  cases a with
  | handle => exact absurd h (Nat.lt_irrefl _)
  | transmit | countSent | announce | deliver | replay | serve => rfl

end Action

open DatagramCircuits.Action (replays replays_append replays_of_duty replays_of_rank ranks)

/-- Those among tasks that have something to replay to a circuit. -/
def backlogs (id : CircuitId) (tasks : List (List Action)) : List (List Action) :=
  tasks.filter (replays id · ≠ [])

/-- A task is a backlog if it has anything to replay. -/
theorem backlogs_singleton (id : CircuitId) (l : List Action) :
    backlogs id [l] = if replays id l = [] then [] else [l] := by
  by_cases h : replays id l = [] <;> simp [backlogs, h]

/-- What there is to replay is in those tasks. -/
theorem replays_flatten (id : CircuitId) (tasks : List (List Action)) :
    replays id tasks.flatten = (backlogs id tasks).flatMap (replays id) := by
  induction tasks with
  | nil => rfl
  | cons l tasks ih =>
    rw [List.flatten_cons, replays_append, ih]
    by_cases h : replays id l = [] <;> simp [backlogs, h]

namespace Server

variable {now : Instant} {s : Server} {l : List Action} {b : Action} {id : CircuitId}

/-- A task that goes on does something. -/
theorem performs_ne_nil (now : Instant) (h : l ≠ []) (s : Server) : s.performs now l ≠ [] := by
  cases l with
  | nil => exact absurd rfl h
  | cons a l =>
    rw [performs]
    split <;> exact List.cons_ne_nil _ _

/-- **What was to be replayed** is replayed, or left for later, or a fault ended the task. -/
theorem exists_lost (id : CircuitId) (now : Instant) (l : List Action) (s : Server) :
    ∃ lost, replays id l =
        replays id (s.performs now l) ++ replays id (s.advance now l).1.rest ++ lost ∧
      (lost ≠ [] → ∃ fault, (s.advance now l).1 = .failed fault) := by
  obtain ⟨left, hl, hleft⟩ := exists_left now l s
  have hreplays := congrArg (replays id) hl
  rw [replays_append] at hreplays
  cases ho : (s.advance now l).1 with
  | finished =>
    rw [ho] at hleft
    obtain rfl : left = [] := hleft
    exact ⟨[], by simpa [Outcome.rest] using hreplays, fun h ↦ absurd rfl h⟩
  | waiting rest =>
    rw [ho] at hleft
    obtain ⟨first, a, rfl, -, hranks⟩ := hleft
    have hfirst : replays id first = [] :=
      replays_of_rank fun b hb ↦ Nat.lt_of_lt_of_le (hranks b hb) a.rank_le_maxRank
    refine ⟨[], ?_, fun h ↦ absurd rfl h⟩
    rw [Outcome.rest, replays_append, hfirst, List.nil_append, List.append_nil, hreplays]
  | failed fault =>
    exact ⟨replays id left, by simpa [Outcome.rest] using hreplays, fun _ ↦ ⟨fault, rfl⟩⟩

/-- Where nothing was to be replayed, nothing is, now or later. -/
theorem replays_eq_nil_of_advance (h : replays id l = []) (now : Instant) (s : Server) :
    replays id (s.performs now l) = [] ∧ replays id (s.advance now l).1.rest = [] := by
  obtain ⟨lost, hlost, -⟩ := exists_lost id now l s
  rw [h] at hlost
  exact List.append_eq_nil_iff.1 (List.append_eq_nil_iff.1 hlost.symm).1

/-- What is left was left from the beginning, or follows from something else. -/
theorem mem_rest (h : b ∈ (s.advance now l).1.rest) : b.rank < Action.maxRank ∨ b ∈ l.tail := by
  obtain ⟨left, hl, hleft⟩ := exists_left now l s
  cases ho : (s.advance now l).1 with
  | finished | failed =>
    rw [ho] at h
    cases h
  | waiting rest =>
    rw [ho] at hleft h
    obtain ⟨first, a, rfl, ha, hranks⟩ := hleft
    rcases List.mem_append.1 h with hb | hb
    · exact .inl (Nat.lt_of_lt_of_le (hranks b hb) a.rank_le_maxRank)
    · refine .inr ?_
      obtain ⟨a', performs, hperforms⟩ := List.exists_cons_of_ne_nil (List.ne_nil_of_mem ha)
      rw [hl, hperforms]
      exact List.mem_append_right _ hb

/-- **Each part of a task is a descent** in the order of multisets of ranks. -/
theorem ranks_rest_lt (hl : l ≠ []) (now : Instant) (s : Server) :
    Multiset.IsDershowitzMannaLT (ranks (s.advance now l).1.rest) (ranks l) := by
  obtain ⟨left, hsplit, hleft⟩ := exists_left now l s
  have hne : ranks l ≠ ∅ := by simpa [ranks] using hl
  cases ho : (s.advance now l).1 with
  | finished | failed => exact ⟨0, 0, ranks l, hne, rfl, (zero_add _).symm, fun y hy ↦ by cases hy⟩
  | waiting rest =>
    rw [ho] at hleft
    obtain ⟨first, a, rfl, ha, hranks⟩ := hleft
    refine ⟨ranks left, ranks first, ranks (s.performs now l), ?_, ?_, ?_, fun y hy ↦ ?_⟩
    · simpa [ranks] using performs_ne_nil now hl s
    · rw [Outcome.rest, ranks, List.map_append, ← Multiset.coe_add, add_comm]
      rfl
    · conv_lhs => rw [hsplit]
      rw [ranks, List.map_append, ← Multiset.coe_add, add_comm]
      rfl
    · obtain ⟨b, hb, rfl⟩ := List.mem_map.1 hy
      exact ⟨a.rank, List.mem_map_of_mem ha, hranks b hb⟩

end Server

namespace RunningServer

open Server

variable {now : Instant} {e : Step} {r r' : RunningServer} {l : List Action} {s : Server}
  {tasks others : List (List Action)} {id : CircuitId} {history : List (Instant × Step)}

/-- What a step does until the task that goes on waits. -/
def performed (now : Instant) (e : Step) (r : RunningServer) : List Action :=
  match r.part? now e with
  | none => []
  | some (l, s) => s.performs now l

/-- The datagrams that were given to a circuit in a history, out of those that were kept for it. -/
def replayed (id : CircuitId) : List (Instant × Step) → RunningServer → List Octets
  | [], _ => []
  | (now, e) :: history, r =>
    replays id (r.performed now e) ++ replayed id history (r.step now e)

/-- The datagrams that tasks still have to give to a circuit for which they were kept. -/
def left (id : CircuitId) (r : RunningServer) : List Octets :=
  replays id r.tasks.flatten

/-- A step goes on with a task that has something to replay to a circuit. -/
def GoesOn (id : CircuitId) (now : Instant) (e : Step) (r : RunningServer) : Prop :=
  ∃ l, r.part? now e = some (l, r.server) ∧ replays id l ≠ []

/-- A fault ends a task that has something to replay to a circuit. -/
def Fails (id : CircuitId) (now : Instant) (e : Step) (r : RunningServer) : Prop :=
  ∃ l s fault, r.part? now e = some (l, s) ∧ replays id l ≠ [] ∧ (s.advance now l).1 = .failed fault

/-- **What tasks have to replay** between two steps: each circuit's datagrams are in one task, and a
circuit for which there are any exists. No task is left with a datagram to decode. -/
structure Entrusted (r : RunningServer) : Prop where
  known : ∀ l ∈ r.tasks, ∀ id, replays id l ≠ [] → id < r.server.circuits.length
  alone : ∀ id, (backlogs id r.tasks).length ≤ 1
  plain : ∀ l ∈ r.tasks, ∀ a ∈ l, a.arrival? = none

/-- The backlogs of all tasks are those of one of them and those of the others. -/
theorem Splits.backlogs_perm (h : Splits tasks l others) (id : CircuitId) :
    (backlogs id tasks).Perm (backlogs id [l] ++ backlogs id others) := by
  rcases h with h | ⟨rfl, h⟩
  · exact (h.filter _).trans (List.Perm.of_eq (List.filter_append [l] others))
  · exact h.filter _

/-- A task begins with nothing to replay, unless it sets up a circuit. -/
theorem Begins.replays (h : Begins e r s l) :
    replays id l = [] ∨ id = r.server.circuits.length ∧ s.circuits.length = id + 1 := by
  cases h with
  | arrival => exact .inl rfl
  | round =>
    refine .inl (List.filterMap_eq_nil_iff.2 fun a ha ↦ ?_)
    obtain ⟨j, -, rfl⟩ := List.mem_map.1 ha
    rfl
  | setup kept hsends hlength =>
    rw [Action.replays_setup id hsends]
    split
    · subst_vars
      exact .inr ⟨rfl, hlength⟩
    · exact .inl rfl

/-- Only the first action of a task decodes anything. -/
theorem Begins.tail (h : Begins e r s l) : ∀ a ∈ l.tail, a.arrival? = none := by
  rcases h.eq_or_plain with ⟨-, source, datagram, rfl⟩ | hplain
  · exact fun a ha ↦ absurd ha List.not_mem_nil
  · exact fun a ha ↦ hplain a (List.mem_of_mem_tail ha)

/-! ### Steps -/

/-- One thing alone has no other order. -/
theorem eq_of_perm_of_length_le_one {α : Type} {l k : List α} (h : l.Perm k) (hk : k.length ≤ 1) :
    l = k := by
  match k, hk with
  | [], _ => exact h.eq_nil
  | [a], _ => exact List.perm_singleton.1 h

/-- **Only by going on with the task** that has a circuit's datagrams they get fewer. -/
theorem backlogs_of_step (h : Entrusted r) (hid : id < r.server.circuits.length) (now : Instant)
    (e : Step) :
    (backlogs id (r.step now e).tasks = backlogs id r.tasks ∧
      ∀ l s, r.part? now e = some (l, s) → replays id l = []) ∨
    ∃ l, backlogs id r.tasks = [l] ∧ r.part? now e = some (l, r.server) ∧
      backlogs id (r.step now e).tasks = backlogs id [(r.server.advance now l).1.rest] := by
  have hprogress := progress_of_step now e r
  generalize r.part? now e = part at hprogress
  have hbegins : ∀ {s l}, Begins e r s l → replays id l = [] := fun hl ↦
    hl.replays.resolve_right fun heq ↦ Nat.ne_of_lt hid heq.1
  cases hprogress with
  | stay _ _ htasks => exact .inl ⟨by rw [htasks], fun l s hpart ↦ by cases hpart⟩
  | begin _ _ hl htasks =>
    refine .inl ⟨eq_of_perm_of_length_le_one ?_ (h.alone id), fun l s hpart ↦ by cases hpart⟩
    refine (Splits.backlogs_perm (.inl htasks) id).trans ?_
    rw [backlogs_singleton, if_pos (hbegins hl)]
    exact List.Perm.refl _
  | @go l before s others _ _ hserver hbefore hl hafter =>
    have hperm := hbefore.backlogs_perm id
    have hperm' := hafter.backlogs_perm id
    by_cases hnil : replays id before = []
    · -- another task goes on, or one that begins
      have hl' : replays id l = [] := by
        rcases hl with ⟨rfl, -⟩ | ⟨-, hl⟩
        · exact hnil
        · exact hbegins hl
      have hrest := (replays_eq_nil_of_advance hl' now s).2
      rw [backlogs_singleton, if_pos hnil, List.nil_append] at hperm
      rw [backlogs_singleton, if_pos hrest, List.nil_append] at hperm'
      refine .inl ⟨eq_of_perm_of_length_le_one (hperm'.trans hperm.symm) (h.alone id), ?_⟩
      rintro _ _ ⟨⟩
      exact hl'
    -- the task of the circuit itself goes on, and it is the only one with datagrams of the circuit
    · obtain ⟨rfl, rfl⟩ := hl.resolve_right fun hl ↦ hnil (congrArg (replays id) hl.1)
      rw [backlogs_singleton, if_neg hnil] at hperm
      have hothers : backlogs id others = [] := by
        have hlength := hperm.length_eq
        have halone := h.alone id
        rw [List.length_append, List.length_singleton] at hlength
        exact List.length_eq_zero_iff.1 (by omega)
      rw [hothers, List.append_nil] at hperm hperm'
      refine .inr ⟨l, List.perm_singleton.1 hperm, rfl, eq_of_perm_of_length_le_one hperm' ?_⟩
      exact List.length_filter_le ..

/-- What is left for a circuit is in one task at most. -/
theorem Entrusted.alone_step (h : Entrusted r) (hid : id < r.server.circuits.length) (now : Instant)
    (e : Step) : (backlogs id (r.step now e).tasks).length ≤ 1 := by
  rcases backlogs_of_step h hid now e with ⟨hsame, -⟩ | ⟨l, -, -, hrest⟩
  · rw [hsame]
    exact h.alone id
  · rw [hrest]
    exact List.length_filter_le ..

/-- Tasks replay to circuits that were set up. -/
theorem Entrusted.known_of_splits (h : Entrusted r) (hs : Splits r.tasks l others) :
    (∀ id, replays id l ≠ [] → id < r.server.circuits.length) ∧
      ∀ k ∈ others, ∀ id, replays id k ≠ [] → id < r.server.circuits.length :=
  (hs.forall_iff (p := fun k ↦ ∀ id, replays id k ≠ [] → id < r.server.circuits.length)
    fun _ h ↦ absurd rfl h).1 h.known

/-- Tasks that wait do not decode. -/
theorem Entrusted.plain_of_splits (h : Entrusted r) (hs : Splits r.tasks l others) :
    (∀ a ∈ l, a.arrival? = none) ∧ ∀ k ∈ others, ∀ a ∈ k, a.arrival? = none :=
  (hs.forall_iff (p := fun k ↦ ∀ a ∈ k, a.arrival? = none)
    fun _ h ↦ absurd h List.not_mem_nil).1 h.plain

/-- A task may go on, begin or end. -/
theorem Entrusted.of_splits (h : Entrusted r) {before rest : List Action}
    (hbefore : Splits r.tasks before others) (hafter : Splits r'.tasks rest others)
    (hlow : r.server.circuits.length ≤ r'.server.circuits.length)
    (halone : ∀ id < r.server.circuits.length, (backlogs id r'.tasks).length ≤ 1)
    (hknown : ∀ id, replays id rest ≠ [] → id < r'.server.circuits.length)
    (hplain : ∀ a ∈ rest, a.arrival? = none) : Entrusted r' := by
  have hothers := (h.known_of_splits hbefore).2
  refine ⟨?_, fun id ↦ ?_, ?_⟩
  · refine (hafter.forall_iff fun _ h ↦ absurd rfl h).2 ⟨hknown, fun l hl id hreplays ↦ ?_⟩
    exact Nat.lt_of_lt_of_le (hothers l hl id hreplays) hlow
  · rcases Nat.lt_or_ge id r.server.circuits.length with hid | hid
    · exact halone id hid
    · have hnil : backlogs id others = [] := List.filter_eq_nil_iff.2 fun l hl ↦ by
        have hout := mt (hothers l hl id) (Nat.not_lt.2 hid)
        simpa using hout
      rw [(hafter.backlogs_perm id).length_eq, hnil, List.append_nil]
      exact List.length_filter_le ..
  · exact (hafter.forall_iff fun _ h ↦ absurd h List.not_mem_nil).2
      ⟨hplain, (h.plain_of_splits hbefore).2⟩

/-- All this is kept by every step. -/
theorem entrusted_of_step (h : Entrusted r) (now : Instant) (e : Step) :
    Entrusted (r.step now e) := by
  obtain ⟨k, hchain⟩ := chain_of_step now e r
  have hlow := length_le_of_chain hchain
  have halone := fun id (hid : id < r.server.circuits.length) ↦ h.alone_step hid now e
  have hall : Splits r.tasks [] r.tasks := .inr ⟨rfl, List.Perm.refl _⟩
  have hprogress := progress_of_step now e r
  generalize r.part? now e = part at hprogress
  cases hprogress with
  | stay _ _ htasks =>
    have hsame : Splits (r.step now e).tasks [] r.tasks := .inr ⟨rfl, List.Perm.of_eq htasks⟩
    exact h.of_splits hall hsame hlow halone (fun _ hnil ↦ absurd rfl hnil)
      fun _ ha ↦ absurd ha List.not_mem_nil
  | begin _ hdecides hl htasks =>
    refine h.of_splits hall (.inl htasks) hlow halone (fun id hreplays ↦ ?_)
      (hl.eq_or_plain.resolve_left fun hdecode ↦ hdecides.ne_decode hdecode.1)
    obtain ⟨-, hlength⟩ := hl.replays.resolve_left hreplays
    rw [hlength]
    exact Nat.lt_succ_self id
  | @go l before s others _ _ hserver hbefore hl hafter =>
    obtain ⟨k', hwork⟩ := work_advance now l s
    refine h.of_splits hbefore hafter hlow halone (fun id hreplays ↦ ?_) fun a ha ↦ ?_
    · have hl' : replays id l ≠ [] := fun hnil ↦
        hreplays (replays_eq_nil_of_advance hnil now s).2
      rw [hserver, length_of_work hwork]
      rcases hl with ⟨rfl, rfl⟩ | ⟨-, hl⟩
      · exact (h.known_of_splits hbefore).1 id hl'
      · obtain ⟨-, hlength⟩ := hl.replays.resolve_left hl'
        rw [hlength]
        exact Nat.lt_succ_self id
    · rcases mem_rest ha with hrank | ha
      · exact Action.arrival?_of_rank hrank
      · rcases hl with ⟨rfl, -⟩ | ⟨-, hl⟩
        · exact (h.plain_of_splits hbefore).1 a (List.mem_of_mem_tail ha)
        · exact hl.tail a ha

/-- A new server has nothing to replay. -/
theorem entrusted_of_create {config : Config} {start : Instant} (h : create config start = .ok r) :
    Entrusted r := by
  have htasks : r.tasks = [[], []] := by
    obtain ⟨burst, pending, notices, -, rfl⟩ := exists_of_create h
    rfl
  have hnil : ∀ l ∈ r.tasks, l = [] := by simp [htasks]
  refine ⟨fun l hl id hreplays ↦ ?_, fun id ↦ ?_, fun l hl a ha ↦ ?_⟩
  · rw [hnil l hl] at hreplays
    exact absurd rfl hreplays
  · rw [htasks]
    exact Nat.zero_le _
  · rw [hnil l hl] at ha
    cases ha

/-- All this is kept by every history. -/
theorem entrusted_of_run (h : Entrusted r) (history : List (Instant × Step)) :
    Entrusted (r.run history) :=
  run_induction (p := Entrusted) (fun now e _ hr ↦ entrusted_of_step hr now e) history h

/-! ### What becomes of the datagrams -/

/-- What is left for a circuit is in the backlogs. -/
theorem left_eq (id : CircuitId) (r : RunningServer) :
    r.left id = (backlogs id r.tasks).flatMap (replays id) :=
  replays_flatten ..

/-- A step replays what comes first, and what is not left afterwards is lost, for which there has to
be a fault. -/
theorem exists_lost_of_step (h : Entrusted r) (hid : id < r.server.circuits.length) (now : Instant)
    (e : Step) :
    ∃ lost, r.left id = replays id (r.performed now e) ++ (r.step now e).left id ++ lost ∧
      (lost ≠ [] → r.Fails id now e) := by
  rcases backlogs_of_step h hid now e with ⟨hsame, hpart⟩ | ⟨l, hl, hpart, hrest⟩
  · have hperformed : replays id (r.performed now e) = [] := by
      rw [performed]
      split
      · rfl
      · rename_i l s hsome
        exact (replays_eq_nil_of_advance (hpart l s hsome) now s).1
    refine ⟨[], ?_, fun hlost ↦ absurd rfl hlost⟩
    rw [hperformed, left_eq, left_eq, hsame, List.nil_append, List.append_nil]
  · obtain ⟨lost, hlost, hfails⟩ := exists_lost id now l r.server
    have hreplays : replays id l ≠ [] := by
      have hmem : l ∈ backlogs id r.tasks := hl ▸ List.mem_singleton_self l
      simpa using (List.mem_filter.1 hmem).2
    refine ⟨lost, ?_, fun hne ↦ ?_⟩
    · rw [left_eq, left_eq, hl, hrest, ← replays_flatten, List.flatten_singleton, performed, hpart,
        List.flatMap_singleton]
      exact hlost
    · obtain ⟨fault, hfault⟩ := hfails hne
      exact ⟨l, _, fault, hpart, hreplays, hfault⟩

/-- One step, and the steps after it. -/
theorem exists_lost_cons {kept lost lost' : List Octets}
    (hlost : kept = replays id (r.performed now e) ++ (r.step now e).left id ++ lost)
    (hfails : lost ≠ [] → r.Fails id now e)
    (hlost' : (r.step now e).left id = replayed id history (r.step now e) ++
      ((r.step now e).run history).left id ++ lost')
    (hfails' : lost' ≠ [] → ∃ h₁ now' e' h₂, history = h₁ ++ (now', e') :: h₂ ∧
      ((r.step now e).run h₁).Fails id now' e') :
    ∃ lost, kept = replayed id ((now, e) :: history) r ++ (r.run ((now, e) :: history)).left id ++
        lost ∧
      (lost ≠ [] → ∃ h₁ now' e' h₂, (now, e) :: history = h₁ ++ (now', e') :: h₂ ∧
        (r.run h₁).Fails id now' e') := by
  refine ⟨lost' ++ lost, ?_, fun hne ↦ ?_⟩
  · rw [replayed, run_cons]
    conv_lhs => rw [hlost, hlost']
    simp only [List.append_assoc]
  · by_cases hnil : lost' = []
    · rw [hnil, List.nil_append] at hne
      exact ⟨[], now, e, history, rfl, hfails hne⟩
    · obtain ⟨h₁, now', e', h₂, rfl, hfault⟩ := hfails' hnil
      exact ⟨(now, e) :: h₁, now', e', h₂, rfl, hfault⟩

/-- **What there was to replay** is replayed in order, or left for later, or a fault ended the task.
-/
theorem exists_lost_of_run (h : Entrusted r) (hid : id < r.server.circuits.length)
    (history : List (Instant × Step)) :
    ∃ lost, r.left id = replayed id history r ++ (r.run history).left id ++ lost ∧
      (lost ≠ [] → ∃ h₁ now e h₂, history = h₁ ++ (now, e) :: h₂ ∧ (r.run h₁).Fails id now e) := by
  induction history generalizing r with
  | nil => exact ⟨[], by simp [replayed], fun hlost ↦ absurd rfl hlost⟩
  | cons e history ih =>
    obtain ⟨now, e⟩ := e
    obtain ⟨k, hchain⟩ := chain_of_step now e r
    obtain ⟨lost, hlost, hfails⟩ := exists_lost_of_step h hid now e
    obtain ⟨lost', hlost', hfails'⟩ := ih (entrusted_of_step h now e)
      (Nat.lt_of_lt_of_le hid (length_le_of_chain hchain))
    exact exists_lost_cons hlost hfails hlost' hfails'

/-- Where one task only has to replay something, that is all there is. -/
theorem left_of_splits (h : Splits r.tasks l others) (hothers : ∀ k ∈ others, replays id k = []) :
    r.left id = replays id l := by
  have hnil : backlogs id others = [] :=
    List.filter_eq_nil_iff.2 fun k hk ↦ by simpa using hothers k hk
  have hperm := h.backlogs_perm id
  rw [hnil, List.append_nil] at hperm
  rw [left_eq, eq_of_perm_of_length_le_one hperm (List.length_filter_le ..), ← replays_flatten,
    List.flatten_singleton]

/-- The task that sets up a new circuit has all that was kept for it, from the first. -/
theorem exists_lost_of_grant (hr : Entrusted r) {position : Nat} {h : Handshake} {session : Session}
    {acks kept : List Octets} (hposition : r.server.authorizing[position]? = some h)
    (hid : r.server.circuits.length = id)
    (hestablish : (r.server.decided position).establish h session now =
      (.ok (acks, .announce id :: kept.map (.replay id ·)), s)) :
    ∃ lost, kept = replays id (r.performed now (.authorize position (.granted session))) ++
        (r.step now (.authorize position (.granted session))).left id ++ lost ∧
      (lost ≠ [] → r.Fails id now (.authorize position (.granted session))) := by
  have hothers : ∀ k ∈ r.tasks, replays id k = [] := fun k hk ↦ by
    by_contra hreplays
    exact absurd (hr.known k hk id hreplays) (by rw [hid]; exact Nat.lt_irrefl id)
  have hleft : (r.step now (.authorize position (.granted session))).left id = replays id
      ((r.server.decided position).conclude h (.granted session) now).1.rest := by
    rw [step_authorize_of_some hposition]
    exact left_of_splits (tasks_settled r _) hothers
  have hkept : ∀ sends : List Action, (∀ a ∈ sends, a.isSend = true) →
      replays id (sends ++ .announce id :: kept.map (.replay id ·)) = kept :=
    fun sends hsends ↦ (Action.replays_setup id hsends kept).trans (if_pos rfl)
  rw [hleft]
  -- the task waits for the socket if there is anything to send, and else begins to replay at once
  cases acks with
  | nil =>
    have hpart : r.part? now (.authorize position (.granted session)) =
        some (.announce id :: kept.map (.replay id ·), s) := by
      simp only [part?, hposition, hestablish]
    have hall := hkept [] fun a ha ↦ absurd ha List.not_mem_nil
    rw [List.nil_append] at hall
    obtain ⟨lost, hlost, hfails⟩ :=
      exists_lost id now (.announce id :: kept.map (.replay id ·)) s
    refine ⟨lost, ?_, fun hne ↦ ?_⟩
    · rw [performed, hpart, conclude, hestablish]
      exact hall.symm.trans hlost
    · obtain ⟨fault, hfault⟩ := hfails hne
      refine ⟨_, s, fault, hpart, ?_, hfault⟩
      rw [hlost]
      exact fun hnil ↦ hne (List.append_eq_nil_iff.1 hnil).2
  | cons d acks =>
    have hpart : r.part? now (.authorize position (.granted session)) = none := by
      simp only [part?, hposition, hestablish]
    refine ⟨[], ?_, fun hne ↦ absurd rfl hne⟩
    rw [performed, hpart, conclude, hestablish, List.append_nil]
    exact (hkept _ fun a ↦ Action.isSend_of_mem_sendAll).symm

/-! ### The end of a set-up -/

/-- What the first steps of a schedule make of a running server. -/
def after (schedule : ℕ → Instant × Step) (n : ℕ) (r : RunningServer) : RunningServer :=
  r.run ((List.range n).map schedule)

theorem after_succ (schedule : ℕ → Instant × Step) (n : ℕ) (r : RunningServer) :
    r.after schedule (n + 1) = (r.after schedule n).step (schedule n).1 (schedule n).2 := by
  rw [after, List.range_succ, List.map_append, run_append]
  rfl

/-- The task that has to replay something to a circuit goes on again and again, until nothing is
left. -/
def Fair (id : CircuitId) (schedule : ℕ → Instant × Step) (r : RunningServer) : Prop :=
  ∀ n, (r.after schedule n).left id ≠ [] →
    ∃ d, (r.after schedule (n + d)).GoesOn id (schedule (n + d)).1 (schedule (n + d)).2

/-- The ranks of the task that has to replay something to a circuit. -/
def backlogRanks (id : CircuitId) (r : RunningServer) : Multiset ℕ :=
  ranks (backlogs id r.tasks).flatten

/-- A step that does not go on with the backlog leaves its ranks alone; one that does lowers them.
-/
theorem backlogRanks_step (h : Entrusted r) (hid : id < r.server.circuits.length)
    (now : Instant) (e : Step) (hleft : (r.step now e).left id ≠ []) :
    ¬r.GoesOn id now e ∧ (r.step now e).backlogRanks id = r.backlogRanks id ∨
      Multiset.IsDershowitzMannaLT ((r.step now e).backlogRanks id) (r.backlogRanks id) := by
  rcases backlogs_of_step h hid now e with ⟨hsame, hpart⟩ | ⟨l, hl, hpart, hrest⟩
  · refine .inl ⟨?_, by rw [backlogRanks, backlogRanks, hsame]⟩
    rintro ⟨l, hsome, hreplays⟩
    exact hreplays (hpart l _ hsome)
  · rw [left_eq, hrest, backlogs_singleton] at hleft
    split at hleft
    · exact absurd rfl hleft
    · rename_i hreplays
      rw [backlogRanks, backlogRanks, hrest, hl, backlogs_singleton, if_neg hreplays,
        List.flatten_singleton, List.flatten_singleton]
      refine .inr (ranks_rest_lt ?_ now r.server)
      rintro rfl
      exact hreplays rfl

/-- **All that was kept is replayed in the end,** or a fault ends the task. -/
theorem exists_left_eq_nil (h : Entrusted r) (hid : id < r.server.circuits.length)
    {schedule : ℕ → Instant × Step} (hfair : r.Fair id schedule) :
    ∃ n, (r.after schedule n).left id = [] := by
  by_contra hnone
  have hleft : ∀ n, (r.after schedule n).left id ≠ [] := fun n hn ↦ hnone ⟨n, hn⟩
  have hentrusted : ∀ n, Entrusted (r.after schedule n) := fun n ↦ entrusted_of_run h _
  have hthere : ∀ n, id < (r.after schedule n).server.circuits.length := by
    intro n
    obtain ⟨k, hchain⟩ := chain_of_run ((List.range n).map schedule) r
    exact Nat.lt_of_lt_of_le hid (length_le_of_chain hchain)
  have hstep := fun n ↦ backlogRanks_step (hentrusted n) (hthere n) (schedule n).1 (schedule n).2
    (after_succ schedule n r ▸ hleft (n + 1))
  simp only [← after_succ] at hstep
  -- when the task goes on, if not before, the ranks descend
  have hdescent : ∀ d n,
      (r.after schedule (n + d)).GoesOn id (schedule (n + d)).1 (schedule (n + d)).2 →
      ∃ m, Multiset.IsDershowitzMannaLT ((r.after schedule m).backlogRanks id)
        ((r.after schedule n).backlogRanks id) := by
    intro d
    induction d with
    | zero =>
      intro n hgoes
      rcases hstep n with ⟨hnot, -⟩ | hlt
      · exact absurd hgoes hnot
      · exact ⟨n + 1, hlt⟩
    | succ d ih =>
      intro n hgoes
      rcases hstep n with ⟨-, hsame⟩ | hlt
      · rw [← hsame]
        exact ih (n + 1) (by rwa [Nat.add_right_comm])
      · exact ⟨n + 1, hlt⟩
  have hwf : WellFounded (Multiset.IsDershowitzMannaLT : Multiset ℕ → Multiset ℕ → Prop) :=
    Multiset.wellFounded_isDershowitzMannaLT
  obtain ⟨_, ⟨n, rfl⟩, hleast⟩ := hwf.has_min
    (Set.range fun n ↦ (r.after schedule n).backlogRanks id) ⟨_, 0, rfl⟩
  obtain ⟨d, hgoes⟩ := hfair n (hleft n)
  obtain ⟨m, hm⟩ := hdescent d n hgoes
  exact hleast _ ⟨m, rfl⟩ hm

end RunningServer

end DatagramCircuits
