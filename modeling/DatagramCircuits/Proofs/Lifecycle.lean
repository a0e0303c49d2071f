import DatagramCircuits.Proofs.Registry
import Mathlib.Data.List.Infix
/-!
# The life of a circuit, as the application hears of it

The application hears that a circuit was set up, then of its rates and its messages, and at last
that it was closed. In between, a task may wait for the socket with something to report: the set-up
of a circuit waits until its acknowledgements are sent, and a datagram that a circuit accepted waits
likewise. Neither looks again whether the circuit is still open when it goes on.

So what is heard is in order **unless such a task is overtaken** (`Undisturbed`), and what comes too
late is what some task had to report already when the circuit was closed (`Lives.late`). It comes
once, and nothing is added to it (`Lives.dwindles`).

The proofs follow the effects back to the actions that brought them. A report is brought by an
action that was there for it, which is the first in its task but for sending, or by one that saw the
circuit open.
-/

namespace DatagramCircuits

open Effect (closures closures_append)

/-- What the application is told of the life of a circuit. -/
inductive Mark where
  /-- It was set up. -/
  | started
  /-- Its rates were negotiated anew. -/
  | adjusted
  /-- It was closed. -/
  | closed
deriving DecidableEq, Repr

/-- What an effect tells of the life of a circuit. -/
def Effect.mark? (id : CircuitId) : Effect → Option Mark
  | established j _ _ => if j = id then some .started else none
  | adjusted j _ _ => if j = id then some .adjusted else none
  | closed j _ _ _ => if j = id then some .closed else none
  | _ => none

/-- What effects tell of the life of a circuit, in order. -/
def Effect.marks (id : CircuitId) (l : List Effect) : List Mark :=
  l.filterMap (mark? id)

/-- The life of a circuit is told in order: it is set up, its rates change, it is closed, as far as
it went. -/
def Mark.InOrder (l : List Mark) : Prop :=
  l = [] ∨ ∃ n, l = started :: List.replicate n adjusted ∨
    l = started :: (List.replicate n adjusted ++ [closed])

/-- Marks are in order if the start comes before all others, once, and nothing comes after a close.
-/
theorem Mark.inOrder_of {l : List Mark}
    (hfirst : ∀ b m a, l = b ++ m :: a → m ≠ started → started ∈ b)
    (hlast : ∀ b m a, l = b ++ m :: a → closed ∉ b) (honce : l.count started ≤ 1) : InOrder l := by
  induction l using List.reverseRecOn with
  | nil => exact .inl rfl
  | append_singleton l m ih =>
    rw [List.count_append] at honce
    have hclosed := hlast l m [] rfl
    rcases ih (fun b m' a hl ↦ hfirst b m' (a ++ [m]) (by simp [hl]))
        (fun b m' a hl ↦ hlast b m' (a ++ [m]) (by simp [hl])) (by omega) with rfl | ⟨n, rfl | rfl⟩
    · cases m with
      | started => exact .inr ⟨0, .inl rfl⟩
      | adjusted | closed => exact absurd (hfirst [] _ [] rfl (by decide)) List.not_mem_nil
    · cases m with
      | started =>
        rw [List.count_cons_self, List.count_singleton_self] at honce
        omega
      | adjusted => exact .inr ⟨n + 1, .inl (by rw [List.replicate_succ']; rfl)⟩
      | closed => exact .inr ⟨n, .inr rfl⟩
    · simp at hclosed

/-- The circuit that the application hears about. -/
def Effect.subject? (e : Effect) : Option CircuitId :=
  (e.report?.map Report.circuit).or e.closed?

/-- A close is about its circuit. -/
theorem Effect.subject?_of_closed? {e : Effect} {id : CircuitId} (h : e.closed? = some id) :
    e.subject? = some id := by
  cases e <;> cases h
  rfl

/-- A mark is about its circuit. -/
theorem Effect.subject?_of_mark? {e : Effect} {id : CircuitId} {m : Mark} (h : e.mark? id = some m) :
    e.subject? = some id := by
  cases e with
  | established | adjusted | closed =>
    rw [mark?] at h
    split at h
    · subst_vars
      rfl
    · cases h
  | sent | delivered | unacknowledged | queueEmpty => cases h

theorem Effect.mark?_of_start {e : Effect} {id : CircuitId} {m : Mark}
    (he : e.report? = some (.start id)) (h : e.mark? id = some m) : m = .started := by
  cases e <;> cases he
  rw [mark?, if_pos rfl] at h
  exact (Option.some.inj h).symm

/-- Starts are counted by marks as they are by reports. -/
theorem Effect.count_started (id : CircuitId) (l : List Effect) :
    (marks id l).count .started = (l.filterMap report?).count (.start id) := by
  rw [marks, List.count_eq_countP, List.countP_filterMap, List.count_eq_countP, List.countP_filterMap]
  refine List.countP_congr fun e _ ↦ ?_
  cases e with
  | established j | adjusted j | closed j => by_cases hj : j = id <;> simp [mark?, report?, hj]
  | sent | delivered | unacknowledged | queueEmpty => simp [mark?, report?]

/-- Closes are counted by marks as they are by closures. -/
theorem Effect.count_closed (id : CircuitId) (l : List Effect) :
    (marks id l).count .closed = (closures l).count id := by
  rw [marks, closures, List.count_eq_countP, List.countP_filterMap, List.count_eq_countP,
    List.countP_filterMap]
  refine List.countP_congr fun e _ ↦ ?_
  cases e with
  | established j | adjusted j | closed j => by_cases hj : j = id <;> simp [mark?, closed?, hj]
  | sent | delivered | unacknowledged | queueEmpty => simp [mark?, closed?]

/-- What stands at a place among what effects tell of a circuit was told by an effect. -/
theorem Effect.exists_of_marks {id : CircuitId} {l : List Effect} {b a : List Mark} {m : Mark}
    (h : marks id l = b ++ m :: a) :
    ∃ before e after, l = before ++ e :: after ∧ marks id before = b ∧ e.mark? id = some m := by
  obtain ⟨l₁, l₂, rfl, rfl, h₂⟩ := List.filterMap_eq_append_iff.1 h
  obtain ⟨silent, e, after, rfl, hsilent, he, -⟩ := List.filterMap_eq_cons_iff.1 h₂
  refine ⟨l₁ ++ silent, e, after, (List.append_assoc ..).symm, ?_, he⟩
  rw [marks, List.filterMap_append, List.filterMap_eq_nil_iff.2 hsilent, List.append_nil]

theorem Effect.started_mem_marks {id : CircuitId} {l : List Effect} :
    Mark.started ∈ marks id l ↔ Report.start id ∈ l.filterMap report? := by
  rw [← List.count_pos_iff, ← List.count_pos_iff, count_started]

theorem Effect.notMem_closures {id : CircuitId} {k : List Effect}
    (h : ∀ f ∈ k, f.subject? ≠ some id) : id ∉ closures k := by
  intro hid
  obtain ⟨f, hf, hclosed⟩ := List.mem_filterMap.1 hid
  exact h f hf (subject?_of_closed? hclosed)

namespace Server

variable {s s' : Server} {k : List Effect} {id : CircuitId} {now : Instant} {a : Action} {x : Report}
  {l : List Action}

/-! ### What brings a report -/

/-- Sending is not about circuits. -/
theorem subject?_of_isSend (ha : a.isSend = true) (h : (s.perform now a).2.effects = s.effects ++ k) :
    ∀ f ∈ k, f.subject? = none := by
  cases a with
  | transmit target datagram =>
    obtain rfl : [Effect.sent target datagram] = k := List.append_cancel_left h
    intro f hf
    rw [List.mem_singleton.1 hf]
    rfl
  | countSent n =>
    obtain rfl : [] = k := List.append_cancel_left ((List.append_nil _).trans h)
    exact fun f hf ↦ absurd hf List.not_mem_nil
  | announce | deliver | replay | handle | serve => cases ha

/-- An action that reports does so at once, and either was there for it, or sees the circuit open.
-/
theorem order_perform (now : Instant) (a : Action) (s : Server) :
    ∃ k, Chain Work s k (s.perform now a).2 ∧
      ∀ before e after x, k = before ++ e :: after → e.report? = some x →
        (∀ f ∈ before, f.subject? = none) ∧ (a.report? = some x ∨
          x = .news x.circuit ∧ ∃ c, s.circuit? x.circuit = some c ∧ c.isClosed = false) := by
  obtain ⟨k, hwork, hreports, hclosures, -⟩ := leads_perform now a s
  refine ⟨k, hwork, fun before e after x hk he ↦ ?_⟩
  have hsplit : k.filterMap Effect.report? =
      before.filterMap Effect.report? ++ x :: after.filterMap Effect.report? := by
    rw [hk, List.filterMap_append, List.filterMap_cons, he]
  have hnone : closures k = [] := hclosures.resolve_left fun hnil ↦ by
    rw [hnil] at hsplit
    exact absurd hsplit.symm (by simp)
  rw [hsplit, List.append_assoc] at hreports
  cases ha : s.report? a with
  | none =>
    rw [ha] at hreports
    exact absurd (List.eq_nil_of_sublist_nil hreports) (by simp)
  | some y =>
    rw [ha] at hreports
    have hlength := hreports.length_le
    have hbefore : before.filterMap Effect.report? = [] := by
      refine List.length_eq_zero_iff.1 ?_
      simp only [Option.toList_some, List.length_append, List.length_cons, List.length_nil] at hlength
      omega
    obtain rfl : x = y := by
      have hmem : x ∈ [y] := hreports.subset
        (List.mem_append_right _ (List.mem_append_left _ List.mem_cons_self))
      exact List.mem_singleton.1 hmem
    refine ⟨fun f hf ↦ ?_, report?_cases ha⟩
    have hclosed : f.closed? = none :=
      List.filterMap_eq_nil_iff.1 hnone f (hk ▸ List.mem_append_left _ hf)
    rw [Effect.subject?, List.filterMap_eq_nil_iff.1 hbefore f hf, hclosed]
    rfl

/-- The ledger is kept by changes. -/
theorem Ledger.chain (h : Ledger s) (hs : Chain Change s k s') : Ledger s' :=
  hs.preserves (motive := fun _ s' ↦ Ledger s') (k := []) h fun hbefore hstep ↦ hbefore.change hstep

/-- A circuit that is open later on was open before, and not told to be closed in between. -/
theorem Ledger.open_before (h : Ledger s) (hs : Chain Change s k s') {c' : Circuit}
    (hid : s'.circuit? id = some c') (hopen : c'.isClosed = false) (hlt : id < s.circuits.length) :
    (∃ c, s.circuit? id = some c ∧ c.isClosed = false) ∧ id ∉ closures k := by
  constructor
  · obtain ⟨c, hc⟩ := exists_circuit_of_lt hlt
    obtain ⟨c'', hc'', -, -, hstays⟩ := continues_of_chain hs id c hc
    obtain rfl := Option.some.inj (hid.symm.trans hc'')
    refine ⟨c, hc, Bool.eq_false_iff.2 fun hclosed ↦ ?_⟩
    cases hopen.symm.trans (hstays hclosed)
  · intro hk
    have hmem : id ∈ closures s'.effects := by
      rw [effects_of_chain hs, closures_append]
      exact List.mem_append_right _ hk
    obtain ⟨c, hc, hclosed⟩ := ((h.chain hs).closed id).1 hmem
    obtain rfl := Option.some.inj (hid.symm.trans hc)
    cases hopen.symm.trans hclosed

/-- Where the reports of a part of a task come from: the part was there for them, and then nothing
about circuits is told before; or it saw the circuit open, and the circuit is not told to be closed
before. -/
def Sources (s : Server) (l : List Action) (k : List Effect) : Prop :=
  ∀ before e after x, k = before ++ e :: after → e.report? = some x →
    (x ∈ l.filterMap Action.report? ∧ ∀ f ∈ before, f.subject? = none) ∨
      x = .news x.circuit ∧ (∃ c, s.circuit? x.circuit = some c ∧ c.isClosed = false) ∧
        x.circuit ∉ closures before

theorem sources_nil (l : List Action) (s : Server) : s.Sources l [] :=
  fun before e after x hnil ↦ absurd hnil.symm (by simp)

/-- **A part of a task** knows where its reports come from. -/
theorem sources_advance (now : Instant) (hs : Ledger s) (hl : Action.Timely l) :
    ∃ k, Chain Work s k (s.advance now l).2 ∧ s.Sources l k := by
  induction l generalizing s with
  | nil => exact ⟨[], Chain.refl, sources_nil [] s⟩
  | cons a l ih =>
    obtain ⟨k, hwork, hk⟩ := order_perform now a s
    have hfirst : s.Sources (a :: l) k := by
      intro before e after x hsplit he
      obtain ⟨hbefore, hx | ⟨hnews, hopen⟩⟩ := hk before e after x hsplit he
      · exact .inl ⟨List.mem_filterMap.2 ⟨a, List.mem_cons_self, hx⟩, hbefore⟩
      · refine .inr ⟨hnews, hopen, Effect.notMem_closures fun f hf ↦ ?_⟩
        rw [hbefore f hf]
        exact (Option.some_ne_none _).symm
    have heffects := effects_of_chain (chain_of_work hwork)
    rw [advance]
    split <;> rename_i s₁ heq <;> rw [heq] at hwork heffects
    · obtain ⟨k', hwork', hk'⟩ := ih (hs.chain (chain_of_work hwork)) hl.tail
      refine ⟨k ++ k', hwork.trans hwork', fun before e after x hsplit he ↦ ?_⟩
      rcases append_eq_append_cons hsplit with ⟨middle, rfl, hmiddle⟩ | ⟨rest, hk₁⟩
      · rcases hk' middle e after x hmiddle he with ⟨hx, hnone⟩ | ⟨hnews, ⟨c, hc, hopen⟩, hnot⟩
        · -- what is reported later was waited for with sending only
          have hsend : a.isSend = true := hl.elim And.left fun hnil ↦ by
            rw [hnil] at hx
            cases hx
          have hadded : (s.perform now a).2.effects = s.effects ++ k := by
            rw [heq]
            exact heffects
          have hquiet := subject?_of_isSend hsend hadded
          refine .inl ⟨?_, fun f hf ↦ (List.mem_append.1 hf).elim (hquiet f) (hnone f)⟩
          exact (List.sublist_cons_self a l).filterMap _ |>.subset hx
        · have hlt := lt_length_of_circuit? hc
          rw [length_of_work hwork] at hlt
          obtain ⟨hbefore, hnot'⟩ := hs.open_before (chain_of_work hwork) hc hopen hlt
          refine .inr ⟨hnews, hbefore, ?_⟩
          rw [closures_append, List.mem_append]
          exact not_or.2 ⟨hnot', hnot⟩
      · exact hfirst before e rest x hk₁ he
    · exact ⟨k, hwork, hfirst⟩
    · exact ⟨k, hwork, hfirst⟩

end Server

namespace RunningServer

open Server

variable {now : Instant} {r r' r₀ : RunningServer} {l before : List Action} {s s' : Server}
  {others : List (List Action)} {k : List Effect} {x : Report} {id : CircuitId}
  {history : List (Instant × Step)}

/-- What tasks that wait have to report when they go on. -/
def promises (r : RunningServer) : List Report :=
  r.tasks.flatten.filterMap Action.report?

/-- How often a report was or is still to be made. -/
def told (x : Report) (r : RunningServer) : Nat :=
  Effect.tellings x r.server.effects + Action.tellings x r.tasks.flatten

/-! ### Steps -/

/-- What the tasks have to tell is what one of them has, and what the others have. -/
theorem Splits.tellings {tasks : List (List Action)} (h : Splits tasks l others) (x : Report) :
    Action.tellings x tasks.flatten = Action.tellings x l + Action.tellings x others.flatten := by
  rcases h with h | ⟨rfl, h⟩
  · rw [← Action.tellings_append]
    exact (h.flatten.filterMap Action.report?).count_eq x
  · rw [Action.tellings_nil, Nat.zero_add]
    exact (h.flatten.filterMap Action.report?).count_eq x

/-- What holds between two steps: each task reports in good time, no circuit is announced twice, and
all reports are about circuits that there are. -/
structure Sound (r : RunningServer) : Prop where
  orderly : Orderly r.server
  timely : ∀ l ∈ r.tasks, Action.Timely l
  once : ∀ id, r.told (.start id) ≤ 1
  promised : ∀ x ∈ r.promises, x.circuit < r.server.circuits.length
  recorded : ∀ x ∈ r.server.effects.filterMap Effect.report?,
    x.circuit < r.server.circuits.length

/-- Where a report among new effects comes from: a task had it to make, and nothing about circuits
is told before; or the circuit was open; or the circuit is new, and its announcement is the first
about it. -/
def Ordered (r : RunningServer) (k : List Effect) : Prop :=
  ∀ before e after x, k = before ++ e :: after → e.report? = some x →
    (x ∈ r.promises ∧ ∀ f ∈ before, f.subject? = none) ∨
    (x = .news x.circuit ∧ (∃ c, r.server.circuit? x.circuit = some c ∧ c.isClosed = false) ∧
      x.circuit ∉ closures before) ∨
    (r.server.circuits.length ≤ x.circuit ∧ x.circuit ∉ closures before ∧
      (x = .start x.circuit → ∀ f ∈ before, f.subject? ≠ some x.circuit))

/-- What a step does for reports. -/
structure Advances (r r' : RunningServer) (k : List Effect) : Prop where
  chain : Chain Change r.server k r'.server
  sound : Sound r'
  /-- No report is made twice, but for news of circuits that are open. -/
  fixed : ∀ x, r.server.Fixed x → x.circuit < r.server.circuits.length → r'.told x ≤ r.told x
  /-- No announcement gets lost. -/
  starts : ∀ id < r.server.circuits.length, r'.told (.start id) = r.told (.start id)
  ordered : Ordered r k

/-- Nothing is told of a circuit that was not set up yet. -/
theorem Sound.told_eq_zero (h : Sound r) (hid : r.server.circuits.length ≤ id) :
    r.told (.start id) = 0 := by
  have heffects : Report.start id ∉ r.server.effects.filterMap Effect.report? := fun hmem ↦
    Nat.not_lt.2 hid (h.recorded _ hmem)
  have hpromises : Report.start id ∉ r.promises := fun hmem ↦ Nat.not_lt.2 hid (h.promised _ hmem)
  exact Nat.add_eq_zero_iff.2 ⟨List.count_eq_zero.2 heffects, List.count_eq_zero.2 hpromises⟩

/-- What the application hears of is there. -/
theorem Sound.lt_length (h : Sound r) {e : Effect} (he : e ∈ r.server.effects)
    (hid : e.subject? = some id) : id < r.server.circuits.length := by
  rw [Effect.subject?] at hid
  cases hx : e.report? with
  | some x =>
    rw [hx] at hid
    obtain rfl := Option.some.inj hid
    exact h.recorded x (List.mem_filterMap.2 ⟨e, he, hx⟩)
  | none =>
    rw [hx] at hid
    obtain ⟨c, hc, -⟩ := (h.orderly.ledger.closed id).1 (List.mem_filterMap.2 ⟨e, he, hid⟩)
    exact lt_length_of_circuit? hc

/-- A step in two: the server changes quietly to `s`, where a task goes on with `l`. Of what it had
to do, `before` it waited or nothing if it begins, `rest` is left in the end. -/
structure Part (e : Step) (s : Server) (before l rest : List Action) (others : List (List Action))
    (k k' : List Effect) (r r' : RunningServer) : Prop where
  chain : Chain Change r.server k s
  quiet : k.filterMap Effect.report? = []
  opens : ∀ id c, r.server.circuits.length ≤ id → s.circuit? id = some c → c.isClosed = false
  splits : Splits r.tasks before others
  goes : l = before ∧ (s = r.server ∨ l = []) ∨ before = [] ∧ Begins e r s l
  work : Chain Work s k' r'.server
  accounts : s.Accounts l k' rest
  sources : s.Sources l k'
  leaves : Splits r'.tasks rest others

namespace Part

variable {e : Step} {rest : List Action} {k' : List Effect}

/-- The part and what goes before it are one chain of changes. -/
theorem all (h : Part e s before l rest others k k' r r') :
    Chain Change r.server (k ++ k') r'.server :=
  h.chain.trans (chain_of_work h.work)

theorem length_le (h : Part e s before l rest others k k' r r') :
    r.server.circuits.length ≤ r'.server.circuits.length :=
  length_le_of_chain h.all

/-- The reports add up. -/
theorem told_add (h : Part e s before l rest others k k' r r') (x : Report) :
    r'.told x + Action.tellings x before =
      r.told x + (Effect.tellings x k' + Action.tellings x rest) := by
  rw [told, told, effects_of_chain h.all, Effect.tellings_append, Effect.tellings_append,
    Effect.tellings_eq_zero h.quiet, h.leaves.tellings, h.splits.tellings]
  omega

/-- What the tasks had to report was promised. -/
theorem mem_promises (h : Part e s before l rest others k k' r r')
    (hx : x ∈ before.filterMap Action.report? ∨ x ∈ others.flatten.filterMap Action.report?) :
    x ∈ r.promises := by
  have hpos : 0 < Action.tellings x r.tasks.flatten := by
    rw [h.splits.tellings]
    rcases hx with hx | hx
    · exact Nat.add_pos_left (List.count_pos_iff.2 hx) _
    · exact Nat.add_pos_right _ (List.count_pos_iff.2 hx)
  exact List.count_pos_iff.1 hpos

/-- What the task has to report was promised, or is the start of a new circuit. -/
theorem promised_or_new (h : Part e s before l rest others k k' r r')
    (hx : x ∈ l.filterMap Action.report?) : (x ∈ r.promises ∧ s = r.server ∧ l = before) ∨
      x = .start r.server.circuits.length ∧ x.circuit < s.circuits.length ∧ before = [] := by
  rcases h.goes with ⟨rfl, hs | rfl⟩ | ⟨hnil, hbegins⟩
  · exact .inl ⟨h.mem_promises (.inl hx), hs, rfl⟩
  · cases hx
  · rcases hbegins.reports with ⟨hnone, -⟩ | ⟨hone, hlength⟩
    · rw [hnone] at hx
      cases hx
    · rw [hone] at hx
      obtain rfl := List.mem_singleton.1 hx
      exact .inr ⟨rfl, by rw [hlength]; exact Nat.lt_succ_self _, hnil⟩

/-- What is reported is about a circuit that was set up. -/
theorem lt_length (h : Part e s before l rest others k k' r r') (hr : Sound r)
    (hx : x ∈ k'.filterMap Effect.report? ∨ x ∈ rest.filterMap Action.report?) :
    x.circuit < r'.server.circuits.length := by
  rw [length_of_work h.work]
  rcases h.accounts.known x hx with hx | hlt
  · rcases h.promised_or_new hx with ⟨hx, -⟩ | ⟨-, hlt, -⟩
    · exact Nat.lt_of_lt_of_le (hr.promised x hx) (length_le_of_chain h.chain)
    · exact hlt
  · exact hlt

/-- A task that begins has nothing to report about circuits that were there. -/
theorem tellings_le (h : Part e s before l rest others k k' r r')
    (hx : x.circuit < r.server.circuits.length) :
    Action.tellings x l ≤ Action.tellings x before := by
  by_cases hmem : x ∈ l.filterMap Action.report?
  · rcases h.promised_or_new hmem with ⟨-, -, rfl⟩ | ⟨rfl, -⟩
    · exact Nat.le_refl _
    · exact absurd hx (Nat.lt_irrefl _)
  · rw [Action.tellings, List.count_eq_zero.2 hmem]
    exact Nat.zero_le _

/-- A start that was made, or is still to be made, stays so, and there is no other one. -/
theorem told_start (h : Part e s before l rest others k k' r r')
    (hid : id < r.server.circuits.length) : r'.told (.start id) = r.told (.start id) := by
  have hsame : Action.tellings (.start id) l = Action.tellings (.start id) before := by
    rcases h.goes with ⟨rfl, -⟩ | ⟨hnil, -⟩
    · rfl
    · refine Nat.le_antisymm (h.tellings_le hid) ?_
      rw [hnil]
      exact Nat.zero_le _
  have hall := h.accounts.starts id (Nat.lt_of_lt_of_le hid (length_le_of_chain h.chain))
  have htotal := h.told_add (.start id)
  omega

/-- A fixed report is made, or still to be made, no more often than before. -/
theorem told_le (h : Part e s before l rest others k k' r r') (hx : r.server.Fixed x)
    (hlt : x.circuit < r.server.circuits.length) : r'.told x ≤ r.told x := by
  have hall := h.accounts.atMost x (hx.continues (continues_of_chain h.chain))
  have htotal := h.told_add x
  have hfew := h.tellings_le hlt
  omega

/-- A circuit is announced once. -/
theorem told_start_le (h : Part e s before l rest others k k' r r') (hr : Sound r)
    (id : CircuitId) : r'.told (.start id) ≤ 1 := by
  rcases Nat.lt_or_ge id r.server.circuits.length with hid | hid
  · exact (h.told_start hid).trans_le (hr.once id)
  · have hall := h.accounts.atMost (.start id) trivial
    have htotal := h.told_add (.start id)
    rw [hr.told_eq_zero hid] at htotal
    rcases h.goes with ⟨rfl, -⟩ | ⟨hnil, hbegins⟩
    · omega
    · have hfew : Action.tellings (.start id) l ≤ 1 := by
        rcases hbegins.reports with ⟨hnone, -⟩ | ⟨hone, -⟩
        · rw [Action.tellings_eq_zero hnone]
          exact Nat.zero_le _
        · rw [Action.tellings, hone]
          exact List.count_le_length
      omega

/-- The part keeps the server sound. -/
theorem sound (h : Part e s before l rest others k k' r r') (hr : Sound r) : Sound r' := by
  refine ⟨hr.orderly.chain h.all, ?_, h.told_start_le hr, fun x hx ↦ ?_, fun x hx ↦ ?_⟩
  · have htasks := (h.splits.forall_iff (p := Action.Timely) trivial).1 hr.timely
    exact (h.leaves.forall_iff (p := Action.Timely) trivial).2 ⟨h.accounts.timely, htasks.2⟩
  · have hpos : 0 < Action.tellings x r'.tasks.flatten := List.count_pos_iff.2 hx
    rw [h.leaves.tellings] at hpos
    rcases Nat.add_pos_iff_pos_or_pos.1 hpos with hpos | hpos
    · exact h.lt_length hr (.inr (List.count_pos_iff.1 hpos))
    · have hpromised := hr.promised x (h.mem_promises (.inr (List.count_pos_iff.1 hpos)))
      exact Nat.lt_of_lt_of_le hpromised h.length_le
  · rw [effects_of_chain h.all, List.filterMap_append, List.filterMap_append, h.quiet,
      List.nil_append, List.mem_append] at hx
    rcases hx with hx | hx
    · exact Nat.lt_of_lt_of_le (hr.recorded x hx) h.length_le
    · exact h.lt_length hr (.inl hx)

/-- A circuit that is open when the task goes on was not told to be closed on the way there. -/
theorem notMem_closures (h : Part e s before l rest others k k' r r') (hr : Sound r) {c : Circuit}
    (hc : s.circuit? id = some c) (hopen : c.isClosed = false) : id ∉ closures k := by
  intro hmem
  have hmem' : id ∈ closures s.effects := by
    rw [effects_of_chain h.chain, closures_append]
    exact List.mem_append_right _ hmem
  obtain ⟨c', hc', hclosed⟩ := ((hr.orderly.chain h.chain).ledger.closed _).1 hmem'
  obtain rfl := Option.some.inj (hc.symm.trans hc')
  cases hopen.symm.trans hclosed

/-- What the part reports is in order. -/
theorem ordered (h : Part e s before l rest others k k' r r') (hr : Sound r) :
    Ordered r (k ++ k') := by
  intro start f after x hsplit hf
  rcases append_eq_append_cons hsplit with ⟨middle, rfl, hmiddle⟩ | ⟨rest', hk⟩
  · rcases h.sources middle f after x hmiddle hf with ⟨hx, hnone⟩ | ⟨hnews, ⟨c, hc, hc'⟩, hnot⟩
    · rcases h.promised_or_new hx with ⟨hx, rfl, -⟩ | ⟨rfl, hlt, -⟩
      · have hnil : k = [] := by simpa using effects_of_chain h.chain
        subst hnil
        exact .inl ⟨hx, hnone⟩
      · obtain ⟨c, hc⟩ := exists_circuit_of_lt hlt
        have hnot := h.notMem_closures hr hc (h.opens _ c (Nat.le_refl _) hc)
        have hfirst : ∀ g ∈ k ++ middle, g.subject? ≠ some r.server.circuits.length := by
          intro g hg
          rcases List.mem_append.1 hg with hg | hg
          · rw [Effect.subject?, List.filterMap_eq_nil_iff.1 h.quiet g hg]
            exact fun hclosed ↦ hnot (List.mem_filterMap.2 ⟨g, hg, hclosed⟩)
          · rw [hnone g hg]
            exact (Option.some_ne_none _).symm
        exact .inr (.inr ⟨Nat.le_refl _, Effect.notMem_closures hfirst, fun _ ↦ hfirst⟩)
    · have hnot' : x.circuit ∉ closures (k ++ middle) := by
        rw [closures_append, List.mem_append]
        exact not_or.2 ⟨h.notMem_closures hr hc hc', hnot⟩
      rcases Nat.lt_or_ge x.circuit r.server.circuits.length with hlt | hge
      · exact .inr (.inl ⟨hnews, (hr.orderly.ledger.open_before h.chain hc hc' hlt).1, hnot'⟩)
      · refine .inr (.inr ⟨hge, hnot', fun hx ↦ ?_⟩)
        rw [hx] at hnews
        cases hnews
  · have hmem : x ∈ k.filterMap Effect.report? :=
      List.mem_filterMap.2 ⟨f, hk ▸ List.mem_append_right _ List.mem_cons_self, hf⟩
    rw [h.quiet] at hmem
    cases hmem

/-- The part is an advance. -/
theorem advances (h : Part e s before l rest others k k' r r') (hr : Sound r) :
    Advances r r' (k ++ k') :=
  ⟨h.all, h.sound hr, fun _ hx hlt ↦ h.told_le hx hlt, fun _ hid ↦ h.told_start hid, h.ordered hr⟩

end Part

/-- **A step** brings reports in order. -/
theorem advances_of_step (h : Sound r) (now : Instant) (e : Step) :
    ∃ k, Advances r (r.step now e) k := by
  have hprogress := progress_of_step now e r
  generalize r.part? now e = part at hprogress
  have hall : Splits r.tasks [] r.tasks := .inr ⟨rfl, List.Perm.refl _⟩
  cases hprogress with
  | stay hquiet _ htasks =>
    obtain ⟨k, hchain, hk, hopens⟩ := hquiet
    have hpart : Part e _ [] [] [] r.tasks k [] r (r.step now e) :=
      ⟨hchain, hk, hopens, hall, .inl ⟨rfl, .inr rfl⟩, Chain.refl,
        accounts_waiting (l := []) trivial _, sources_nil [] _, .inr ⟨rfl, List.Perm.of_eq htasks⟩⟩
    exact ⟨_, hpart.advances h⟩
  | @begin l hquiet _ hbegins htasks =>
    obtain ⟨k, hchain, hk, hopens⟩ := hquiet
    have hpart : Part e _ [] l l r.tasks k [] r (r.step now e) :=
      ⟨hchain, hk, hopens, hall, .inr ⟨rfl, hbegins⟩, Chain.refl, accounts_waiting hbegins.timely _,
        sources_nil l _, .inl htasks⟩
    exact ⟨_, hpart.advances h⟩
  | @go l before s others hquiet _ hserver hbefore hl hafter =>
    obtain ⟨k₀, hchain, hk₀, hopens⟩ := hquiet
    have hledger : Ledger s := h.orderly.ledger.chain hchain
    have htimely : Action.Timely l := by
      rcases hl with ⟨rfl, -⟩ | ⟨-, hbegins⟩
      · exact ((hbefore.forall_iff (p := Action.Timely) trivial).1 h.timely).1
      · exact hbegins.timely
    obtain ⟨k, hwork, haccounts⟩ := accounts_advance now htimely s
    obtain ⟨k', hwork', hsources⟩ := sources_advance now hledger htimely
    obtain rfl : k = k' := List.append_cancel_left
      ((effects_of_chain (chain_of_work hwork)).symm.trans (effects_of_chain (chain_of_work hwork')))
    rw [← hserver] at hwork
    have hpart : Part e s before l _ others k₀ k r (r.step now e) :=
      ⟨hchain, hk₀, hopens, hbefore, hl.imp_left fun ⟨hl, hs⟩ ↦ ⟨hl, .inl hs⟩, hwork, haccounts,
        hsources, hafter⟩
    exact ⟨_, hpart.advances h⟩

/-! ### Histories -/

variable {config : Config} {start : Instant}

/-- A new server is sound. -/
theorem sound_of_create (h : create config start = .ok r₀) : Sound r₀ := by
  have horderly := orderly_of_create h
  obtain ⟨burst, pending, notices, -, rfl⟩ := exists_of_create h
  refine ⟨horderly, fun l hl ↦ ?_, fun _ ↦ Nat.zero_le _, fun x hx ↦ ?_, fun x hx ↦ ?_⟩
  · simp only [tasks, Loop.rest, List.mem_cons, List.not_mem_nil, or_false, or_self] at hl
    rw [hl]
    trivial
  · cases hx
  · cases hx

/-- A server stays sound. -/
theorem sound_of_run (h : Sound r₀) (history : List (Instant × Step)) : Sound (r₀.run history) :=
  run_induction (p := Sound)
    (fun now e _ hr ↦ (advances_of_step hr now e).elim fun _ hadvances ↦ hadvances.sound) history h

/-- An effect was added by some step of the history. -/
theorem exists_step_of_run (h : Sound r₀) (hnil : r₀.server.effects = []) {before after : List Effect}
    {e : Effect} (heffects : (r₀.run history).server.effects = before ++ e :: after) :
    ∃ h₁ now step h₂ k middle rest, history = (h₁ ++ [(now, step)]) ++ h₂ ∧
      Advances (r₀.run h₁) (r₀.run (h₁ ++ [(now, step)])) k ∧ k = middle ++ e :: rest ∧
      before = (r₀.run h₁).server.effects ++ middle := by
  induction history using List.reverseRecOn generalizing after with
  | nil =>
    rw [run_nil, hnil] at heffects
    exact absurd heffects.symm (by simp)
  | append_singleton h₁ e₁ ih =>
    obtain ⟨now, step⟩ := e₁
    obtain ⟨k, hadvances⟩ := advances_of_step (sound_of_run h h₁) now step
    have hlast : r₀.run (h₁ ++ [(now, step)]) = (r₀.run h₁).step now step := by
      rw [run_append, run_cons, run_nil]
    rw [hlast, effects_of_chain hadvances.chain] at heffects
    rw [← hlast] at hadvances
    rcases append_eq_append_cons heffects with ⟨middle, hbefore, hk⟩ | ⟨rest, hrest⟩
    · exact ⟨h₁, now, step, [], k, middle, after, (List.append_nil _).symm, hadvances, hk, hbefore⟩
    · obtain ⟨h₁', now', step', h₂, k', middle, rest', rfl, hfound⟩ := ih hrest
      exact ⟨h₁', now', step', h₂ ++ [(now, step)], k', middle, rest', by simp, hfound⟩

/-- No task that has something to report about a circuit was overtaken: the circuit is not told to
be closed, and where it is still to be announced, nothing is told of its life at all. -/
def Undisturbed (r : RunningServer) : Prop :=
  ∀ x ∈ r.promises, x.circuit ∉ closures r.server.effects ∧
    (x = .start x.circuit → Effect.marks x.circuit r.server.effects = [])

instance (r : RunningServer) : Decidable r.Undisturbed :=
  inferInstanceAs (Decidable (∀ x ∈ r.promises, _ ∧ (_ → _)))

/-- What the application hears of circuits in a history. -/
structure Lives (r₀ : RunningServer) (history : List (Instant × Step)) : Prop where
  /-- No circuit is told to be set up twice, or to be closed twice. -/
  once : ∀ id, (Effect.marks id (r₀.run history).server.effects).count .started ≤ 1 ∧
    (Effect.marks id (r₀.run history).server.effects).count .closed ≤ 1
  /-- What is reported of a circuit after it was told to be closed, some task had to report when the
  circuit was closed already. -/
  late : ∀ before e after x, (r₀.run history).server.effects = before ++ e :: after →
    e.report? = some x → x.circuit ∈ closures before →
    ∃ h₁ h₂, history = h₁ ++ h₂ ∧ x.circuit ∈ closures (r₀.run h₁).server.effects ∧
      x ∈ (r₀.run h₁).promises
  /-- Nothing is added to what is to be reported of a circuit once it is closed. -/
  dwindles : ∀ h₁ h₂ x, history = h₁ ++ h₂ → x.circuit ∈ closures (r₀.run h₁).server.effects →
    (r₀.run history).told x ≤ (r₀.run h₁).told x
  /-- Where no task was overtaken, a circuit that was announced, or is going to be, is told to be
  set up, to have its rates changed any number of times, and to be closed; and no message is
  delivered then. -/
  ordered : (∀ h₁ ∈ history.inits, (r₀.run h₁).Undisturbed) → ∀ id,
    0 < (r₀.run history).told (.start id) →
    Mark.InOrder (Effect.marks id (r₀.run history).server.effects) ∧
      ∀ before agent message after,
        (r₀.run history).server.effects = before ++ .delivered id agent message :: after →
        id ∉ closures before

/-- Nor does any history add to a fixed report. -/
theorem told_le_of_run (h : Sound r) (history : List (Instant × Step)) (hx : r.server.Fixed x)
    (hlt : x.circuit < r.server.circuits.length) : (r.run history).told x ≤ r.told x := by
  induction history generalizing r with
  | nil => exact Nat.le_refl _
  | cons e history ih =>
    obtain ⟨k, hadvances⟩ := advances_of_step h e.1 e.2
    refine Nat.le_trans (ih hadvances.sound (hx.continues (continues_of_chain hadvances.chain)) ?_)
      (hadvances.fixed x hx hlt)
    exact Nat.lt_of_lt_of_le hlt (length_le_of_chain hadvances.chain)

/-- No history adds another start, or loses one. -/
theorem told_start_of_run (h : Sound r) (history : List (Instant × Step))
    (hlt : id < r.server.circuits.length) :
    (r.run history).told (.start id) = r.told (.start id) := by
  induction history generalizing r with
  | nil => rfl
  | cons e history ih =>
    obtain ⟨k, hadvances⟩ := advances_of_step h e.1 e.2
    exact (ih hadvances.sound (Nat.lt_of_lt_of_le hlt (length_le_of_chain hadvances.chain))).trans
      (hadvances.starts id hlt)

/-- A closed circuit is reported on only by tasks that had to. -/
theorem late_of_run (h : Sound r₀) (hnil : r₀.server.effects = []) {before after : List Effect}
    {e : Effect} (heffects : (r₀.run history).server.effects = before ++ e :: after)
    (he : e.report? = some x) (hclosed : x.circuit ∈ closures before) :
    ∃ h₁ h₂, history = h₁ ++ h₂ ∧ x.circuit ∈ closures (r₀.run h₁).server.effects ∧
      x ∈ (r₀.run h₁).promises := by
  obtain ⟨h₁, now, step, h₂, k, middle, rest, rfl, hadvances, hk, rfl⟩ :=
    exists_step_of_run h hnil heffects
  have hsound := sound_of_run h h₁
  rw [closures_append, List.mem_append] at hclosed
  have hsplit : h₁ ++ [(now, step)] ++ h₂ = h₁ ++ ((now, step) :: h₂) := by simp
  rcases hadvances.ordered middle e rest x hk he with ⟨hx, hnone⟩ | ⟨-, ⟨c, hc, hopen⟩, hnot⟩ |
    ⟨hnew, hnot, -⟩
  · refine ⟨h₁, _, hsplit, hclosed.resolve_right (Effect.notMem_closures fun f hf ↦ ?_), hx⟩
    rw [hnone f hf]
    exact (Option.some_ne_none _).symm
  · obtain ⟨c', hc', hclosed'⟩ := (hsound.orderly.ledger.closed _).1 (hclosed.resolve_right hnot)
    obtain rfl := Option.some.inj (hc.symm.trans hc')
    cases hopen.symm.trans hclosed'
  · obtain ⟨c, hc, -⟩ := (hsound.orderly.ledger.closed _).1 (hclosed.resolve_right hnot)
    exact absurd (lt_length_of_circuit? hc) (Nat.not_lt.2 hnew)

/-- Where no task was overtaken, nothing is told of a circuit after it was told to be closed. -/
theorem closed_last_of_run (h : Sound r₀) (hnil : r₀.server.effects = [])
    (hundisturbed : ∀ h₁ ∈ history.inits, (r₀.run h₁).Undisturbed) {before after : List Effect}
    {e : Effect} (heffects : (r₀.run history).server.effects = before ++ e :: after)
    (he : e.subject? = some id) : id ∉ closures before := by
  intro hclosed
  rw [Effect.subject?] at he
  cases hx : e.report? with
  | some x =>
    rw [hx] at he
    obtain rfl := Option.some.inj he
    obtain ⟨h₁, h₂, rfl, hclosed', hx'⟩ := late_of_run h hnil heffects hx hclosed
    exact (hundisturbed h₁ ((List.mem_inits ..).2 (List.prefix_append ..)) x hx').1 hclosed'
  | none =>
    -- no circuit is told to be closed twice
    rw [hx] at he
    have hnodup := (sound_of_run h history).orderly.ledger.once
    rw [heffects, closures_append, List.nodup_append] at hnodup
    exact hnodup.2.2 id hclosed id (List.mem_filterMap.2 ⟨e, List.mem_cons_self, he⟩) rfl

/-- A step that announces a circuit tells nothing else of it before. -/
theorem Advances.started_mem {r r' : RunningServer} {k middle rest : List Effect} {e : Effect}
    {m : Mark} (h : Advances r r' k) (hk : k = middle ++ e :: rest) (he : e.mark? id = some m)
    (hm : m ≠ .started) (hstart : .start id ∈ k.filterMap Effect.report?) :
    .start id ∈ middle.filterMap Effect.report? := by
  obtain ⟨g, hg, hreport⟩ := List.mem_filterMap.1 hstart
  obtain ⟨b, a, hb⟩ := List.append_of_mem hg
  have hfirst : ∀ f ∈ b, f.subject? ≠ some id := by
    rcases h.ordered b g a _ hb hreport with ⟨-, hnone⟩ | ⟨hnews, -⟩ | ⟨-, -, hfirst⟩
    · intro f hf
      rw [hnone f hf]
      exact (Option.some_ne_none _).symm
    · cases hnews
    · exact hfirst rfl
  rcases append_eq_append_cons (k := b ++ [g]) (by simpa using hb.symm.trans hk) with
    ⟨between, hmiddle, -⟩ | ⟨tail, hb'⟩
  · refine List.mem_filterMap.2 ⟨g, ?_, hreport⟩
    rw [hmiddle]
    exact List.mem_append_left _ (List.mem_append_right _ (List.mem_singleton_self g))
  · rcases List.mem_append.1 (hb' ▸ List.mem_append_right middle List.mem_cons_self :
        e ∈ b ++ [g]) with hin | hin
    · exact absurd (Effect.subject?_of_mark? he) (hfirst e hin)
    · obtain rfl := List.mem_singleton.1 hin
      exact absurd (Effect.mark?_of_start hreport he) hm

/-- Where no task was overtaken, nothing is told of a circuit before it is announced. -/
theorem started_first_of_run (h : Sound r₀) (hnil : r₀.server.effects = [])
    (hundisturbed : ∀ h₁ ∈ history.inits, (r₀.run h₁).Undisturbed)
    (htold : 0 < (r₀.run history).told (.start id)) {before after : List Effect} {e : Effect}
    {m : Mark} (heffects : (r₀.run history).server.effects = before ++ e :: after)
    (he : e.mark? id = some m) (hm : m ≠ .started) : Mark.started ∈ Effect.marks id before := by
  obtain ⟨h₁, now, step, h₂, k, middle, rest, rfl, hadvances, hk, rfl⟩ :=
    exists_step_of_run h hnil heffects
  have hafter := effects_of_chain hadvances.chain
  have hmem : e ∈ (r₀.run (h₁ ++ [(now, step)])).server.effects := by
    rw [hafter, hk]
    exact List.mem_append_right _ (List.mem_append_right _ List.mem_cons_self)
  have hlt : id < (r₀.run (h₁ ++ [(now, step)])).server.circuits.length :=
    hadvances.sound.lt_length hmem (Effect.subject?_of_mark? he)
  -- the announcement was made by the end of the step, since otherwise the step overtook it
  rw [run_append, told_start_of_run hadvances.sound h₂ hlt] at htold
  have hstart : Report.start id ∈ (r₀.run (h₁ ++ [(now, step)])).server.effects.filterMap
      Effect.report? := by
    rcases Nat.add_pos_iff_pos_or_pos.1 htold with hpos | hpos
    · exact List.count_pos_iff.1 hpos
    · have hprefix : h₁ ++ [(now, step)] ∈ (h₁ ++ [(now, step)] ++ h₂).inits :=
        (List.mem_inits ..).2 (List.prefix_append ..)
      have hmarks := (hundisturbed _ hprefix _ (List.count_pos_iff.1 hpos)).2 rfl
      cases List.filterMap_eq_nil_iff.1 hmarks e hmem ▸ he
  rw [hafter, List.filterMap_append, List.mem_append] at hstart
  rw [Effect.started_mem_marks, List.filterMap_append, List.mem_append]
  exact hstart.imp_right (hadvances.started_mem hk he hm)

/-- **How circuits live,** as far as the application hears of it. -/
theorem lives_of_run (h : create config start = .ok r₀) (history : List (Instant × Step)) :
    Lives r₀ history := by
  have hsound := sound_of_create h
  have hnil : r₀.server.effects = [] := by
    obtain ⟨burst, pending, notices, -, rfl⟩ := exists_of_create h
    rfl
  have hrun := sound_of_run hsound history
  have hstarted : ∀ id, (Effect.marks id (r₀.run history).server.effects).count .started ≤ 1 := by
    intro id
    rw [Effect.count_started]
    exact Nat.le_trans (Nat.le_add_right ..) (hrun.once id)
  refine ⟨fun id ↦ ⟨hstarted id, ?_⟩, fun before e after x heffects he hclosed ↦
    late_of_run hsound hnil heffects he hclosed, fun h₁ h₂ x hhistory hclosed ↦ ?_,
    fun hundisturbed id htold ↦ ?_⟩
  · rw [Effect.count_closed]
    exact List.nodup_iff_count_le_one.1 hrun.orderly.ledger.once id
  · obtain ⟨c, hc, hc'⟩ := ((sound_of_run hsound h₁).orderly.ledger.closed _).1 hclosed
    rw [hhistory, run_append]
    refine told_le_of_run (sound_of_run hsound h₁) h₂ ?_ (lt_length_of_circuit? hc)
    cases x with
    | start id => trivial
    | news id => exact ⟨c, hc, hc'⟩
  · refine ⟨Mark.inOrder_of (fun b m a hl hm ↦ ?_) (fun b m a hl hclosed ↦ ?_) (hstarted id),
      fun before agent message after heffects ↦
        closed_last_of_run hsound hnil hundisturbed heffects rfl⟩
    · obtain ⟨before, e, after, heffects, rfl, he⟩ := Effect.exists_of_marks hl
      exact started_first_of_run hsound hnil hundisturbed htold heffects he hm
    · obtain ⟨before, e, after, heffects, rfl, he⟩ := Effect.exists_of_marks hl
      rw [← List.count_pos_iff, Effect.count_closed, List.count_pos_iff] at hclosed
      exact closed_last_of_run hsound hnil hundisturbed heffects (Effect.subject?_of_mark? he) hclosed

/-- The message by which a peer asks for 8000 bits per second on each lane. -/
def throttle : Message where
  id := .throttle
  payload := 28 :: (List.replicate 7 [0x00, 0x00, 0xFA, 0x45]).flatten

/-- A peer asks for rates. -/
def throttling (port : UInt16) (sequence : UInt32) : List (Instant × Step) :=
  [(0, .arrive (.loopback port) ((Client.datagram throttle sequence {} []).toOption.getD [])),
    (0, .decode)]

/-- A circuit that is set up to the end, gets other rates and is closed by the application. -/
def leading : List (Instant × Step) :=
  settingUp 2 (.ofNat 7) ++ [(0, .resumeSetup 0), (0, .resumeSetup 0)] ++ throttling 2 2 ++
    [(0, .close (.ofNat 7) .logout)]

/-- No task of that history is overtaken, so that the life of the circuit is told in order. -/
theorem lives_of_leading :
    ∃ r₀, create {} 0 = .ok r₀ ∧ (∀ h₁ ∈ leading.inits, (r₀.run h₁).Undisturbed) ∧
      0 < (r₀.run leading).told (.start 0) ∧
      Effect.marks 0 (r₀.run leading).server.effects = [.started, .adjusted, .closed] ∧
      Lives r₀ leading := by
  obtain ⟨r₀, hcreate, htest⟩ := exists_eq_ok_of_any (x := create {} 0)
    (p := fun r₀ ↦ decide ((∀ h₁ ∈ leading.inits, (r₀.run h₁).Undisturbed) ∧
      0 < (r₀.run leading).told (.start 0) ∧
      Effect.marks 0 (r₀.run leading).server.effects = [.started, .adjusted, .closed]))
    (by decide +kernel)
  obtain ⟨hundisturbed, htold, hmarks⟩ := of_decide_eq_true htest
  exact ⟨r₀, hcreate, hundisturbed, htold, hmarks, lives_of_run hcreate leading⟩

/-- **The order is lost** where a circuit is closed while its set-up waits for the socket: it is
told to be set up afterwards. -/
theorem unordered_of_overtaken :
    ∃ r₀, create {} 0 = .ok r₀ ∧
      Effect.marks 0 (r₀.run (settingUp 2 (.ofNat 7) ++ [(0, .close (.ofNat 7) .logout),
        (0, .resumeSetup 0), (0, .resumeSetup 0)])).server.effects = [.closed, .started] := by
  obtain ⟨r₀, hcreate, htest⟩ := exists_eq_ok_of_any (x := create {} 0)
    (p := fun r₀ ↦ decide (Effect.marks 0 (r₀.run (settingUp 2 (.ofNat 7) ++
      [(0, .close (.ofNat 7) .logout), (0, .resumeSetup 0),
        (0, .resumeSetup 0)])).server.effects = [.closed, .started]))
    (by decide +kernel)
  exact ⟨r₀, hcreate, of_decide_eq_true htest⟩

/-- Where a fault ends the set-up, which it does under an MTU whose double leaves 64 bits, the circuit is
never told to be set up, and still it is told what becomes of it. -/
theorem unordered_of_fault :
    ∃ r₀, create { mtu := 2 ^ 63 } 0 = .ok r₀ ∧
      Effect.marks 0 (r₀.run (settingUp 2 (.ofNat 7) ++ throttling 2 2 ++
        [(0, .close (.ofNat 7) .logout)])).server.effects = [.adjusted, .closed] := by
  obtain ⟨r₀, hcreate, htest⟩ := exists_eq_ok_of_any (x := create { mtu := 2 ^ 63 } 0)
    (p := fun r₀ ↦ decide (Effect.marks 0 (r₀.run (settingUp 2 (.ofNat 7) ++ throttling 2 2 ++
      [(0, .close (.ofNat 7) .logout)])).server.effects = [.adjusted, .closed]))
    (by decide +kernel)
  exact ⟨r₀, hcreate, of_decide_eq_true htest⟩

end RunningServer

end DatagramCircuits
