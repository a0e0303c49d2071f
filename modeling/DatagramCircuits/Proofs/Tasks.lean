import DatagramCircuits.Proofs.Changes
import DatagramCircuits.Server.Completion
/-!
# What tasks do, and what they still have to do

A task goes through its actions until it waits. What it did then and what is left make up what it
had to do, but for the follow-ups of the last action, which come first (`Server.exists_left`). A
fault makes a task forget what is left.

**Reports are conserved.** A report that only those actions bring that are there for it is neither
made twice nor out of nothing: with what the tasks still have to report, the effects tell of it as
often as before, or it got lost.
-/

namespace DatagramCircuits

/-- How often effects tell a report. -/
def Effect.tellings (x : Report) (k : List Effect) : Nat :=
  (k.filterMap report?).count x

/-- How often actions are there for a report. -/
def Action.tellings (x : Report) (l : List Action) : Nat :=
  (l.filterMap report?).count x

@[simp] theorem Effect.tellings_append (x : Report) (k k' : List Effect) :
    tellings x (k ++ k') = tellings x k + tellings x k' := by
  rw [tellings, List.filterMap_append, List.count_append]
  rfl

@[simp] theorem Action.tellings_append (x : Report) (l l' : List Action) :
    tellings x (l ++ l') = tellings x l + tellings x l' := by
  rw [tellings, List.filterMap_append, List.count_append]
  rfl

@[simp] theorem Action.tellings_nil (x : Report) : tellings x [] = 0 :=
  rfl

/-- Effects that report nothing tell of nothing. -/
theorem Effect.tellings_eq_zero {x : Report} {k : List Effect} (h : k.filterMap report? = []) :
    tellings x k = 0 := by
  rw [tellings, h]
  rfl

/-- Actions that report nothing are there to tell of nothing. -/
theorem Action.tellings_eq_zero {x : Report} {l : List Action} (h : l.filterMap report? = []) :
    tellings x l = 0 := by
  rw [tellings, h]
  rfl

/-- How a task that was left to do some actions comes out, once it has done others. -/
def Outcome.Leaves (done left : List Action) : Outcome → Prop
  | finished => left = []
  | waiting rest => ∃ first a, rest = first ++ left ∧ a ∈ done ∧ ∀ b ∈ first, b.rank < a.rank
  | failed _ => True

/-- One more action that is done leaves the same. -/
theorem Outcome.Leaves.cons {done left : List Action} {o : Outcome} (h : o.Leaves done left)
    (a : Action) : o.Leaves (a :: done) left := by
  cases o with
  | finished => exact h
  | waiting rest =>
    obtain ⟨first, b, hrest, hb, hranks⟩ := h
    exact ⟨first, b, hrest, List.mem_cons_of_mem a hb, hranks⟩
  | failed fault => trivial

namespace Server

variable {s s' : Server} {k k' : List Effect} {id : CircuitId} {now : Instant} {x : Report}
  {a : Action} {l l' rest rest' : List Action}

/-! ### Until a task waits -/

/-- The actions that are done until the task waits. -/
def performs (now : Instant) : List Action → Server → List Action
  | [], _ => []
  | a :: rest, s =>
    match s.perform now a with
    | (.finished, s) => a :: performs now rest s
    | _ => [a]

/-- **What is done and what is left** make up what was to be done. In front of what is left there
are follow-ups of an action that was done. -/
theorem exists_left (now : Instant) (l : List Action) (s : Server) :
    ∃ left, l = s.performs now l ++ left ∧
      (s.advance now l).1.Leaves (s.performs now l) left := by
  induction l generalizing s with
  | nil => exact ⟨[], rfl, rfl⟩
  | cons a l ih =>
    rw [performs, advance]
    rcases ha : s.perform now a with ⟨_ | first | fault, s₁⟩
    · obtain ⟨left, hl, hleft⟩ := ih s₁
      exact ⟨left, congrArg (a :: ·) hl, hleft.cons a⟩
    · exact ⟨l, rfl, first, a, rfl, List.mem_cons_self, fun b ↦ rank_lt_of_perform ha⟩
    · exact ⟨l, rfl, trivial⟩

/-! ### Reports -/

/-- No other actions bring the report than those that are there for it. -/
def Fixed (s : Server) : Report → Prop
  | .start _ => True
  | .news id => ∃ c, s.circuit? id = some c ∧ c.isClosed = true

/-- A report that is fixed stays so. -/
theorem Fixed.continues (h : s.Fixed x) (hs : Continues s s') : s'.Fixed x := by
  cases x with
  | start id => trivial
  | news id =>
    obtain ⟨c, hc, hclosed⟩ := h
    obtain ⟨c', hc', -, -, hstays⟩ := hs id c hc
    exact ⟨c', hc', hstays hclosed⟩

/-- Only news that is not fixed is found out when a datagram is decoded. -/
theorem start_ne_of_news? {i : CircuitId} (h : s.news? i = some x) :
    x = .news i ∧ ¬s.Fixed x := by
  rw [news?] at h
  split at h
  · rename_i hopen
    obtain rfl := Option.some.inj h
    refine ⟨rfl, ?_⟩
    rintro ⟨c, hc, hclosed⟩
    rw [hc, Option.any_some, hclosed] at hopen
    exact absurd hopen (by decide)
  · cases h

/-- A report that is fixed is made by the actions that are there for it, and by no others. -/
theorem Fixed.report? (h : s.Fixed x) {a : Action} (ha : s.report? a = some x) :
    a.report? = some x := by
  cases a with
  | announce id => exact ha
  | deliver id p => exact ha
  | replay id datagram => exact absurd h (start_ne_of_news? ha).2
  | handle source datagram =>
    obtain ⟨id, -, hnews⟩ := Option.bind_eq_some_iff.1 ha
    exact absurd h (start_ne_of_news? hnews).2
  | transmit | countSent | serve => cases ha

/-- An action may report what it is there for, or news of a circuit that it finds open. -/
theorem report?_cases {a : Action} (h : s.report? a = some x) : a.report? = some x ∨
    x = .news x.circuit ∧ ∃ c, s.circuit? x.circuit = some c ∧ c.isClosed = false := by
  have hnews : ∀ {i}, s.news? i = some x →
      x = .news x.circuit ∧ ∃ c, s.circuit? x.circuit = some c ∧ c.isClosed = false := by
    intro i hi
    rw [news?] at hi
    split at hi
    · rename_i hopen
      obtain rfl := Option.some.inj hi
      obtain ⟨c, hc, hopen⟩ := (Option.any_eq_true ..).1 hopen
      exact ⟨rfl, c, hc, by simpa using hopen⟩
    · cases hi
  cases a with
  | announce | deliver => exact .inl h
  | replay id datagram => exact .inr (hnews h)
  | handle source datagram =>
    obtain ⟨id, -, h⟩ := Option.bind_eq_some_iff.1 h
    exact .inr (hnews h)
  | transmit | countSent | serve => cases h

/-- What becomes of the reports that actions are there for: `k` tells of them, or `rest` still has
to. The start of a circuit never gets lost, and all else is about circuits that there are. -/
structure Accounts (s : Server) (l : List Action) (k : List Effect) (rest : List Action) : Prop where
  atMost : ∀ x, s.Fixed x → Effect.tellings x k + Action.tellings x rest ≤ Action.tellings x l
  starts : ∀ id < s.circuits.length,
    Effect.tellings (.start id) k + Action.tellings (.start id) rest = Action.tellings (.start id) l
  timely : Action.Timely rest
  known : ∀ x, x ∈ k.filterMap Effect.report? ∨ x ∈ rest.filterMap Action.report? →
    x ∈ l.filterMap Action.report? ∨ x.circuit < s.circuits.length

/-- An action that is there for a report brings it once, now or later, and no other action does. -/
theorem accounts_perform (now : Instant) (a : Action) (s : Server) :
    ∃ k, Chain Work s k (s.perform now a).2 ∧ s.Accounts [a] k (s.perform now a).1.rest := by
  obtain ⟨k, hwork, hreports, -, htimely⟩ := leads_perform now a s
  have hmost : ∀ x, s.Fixed x → Effect.tellings x k +
      Action.tellings x (s.perform now a).1.rest ≤ Action.tellings x [a] := by
    intro x hx
    have hcount := hreports.count_le x
    rw [List.count_append] at hcount
    refine Nat.le_trans hcount ?_
    cases ha : s.report? a with
    | none => exact Nat.zero_le _
    | some y =>
      by_cases hy : y = x
      · subst hy
        rw [Action.tellings, List.filterMap_cons, hx.report? ha]
        exact Nat.le_refl _
      · rw [Option.toList_some, List.count_singleton, if_neg (by simpa using hy)]
        exact Nat.zero_le _
  -- a start is reported exactly as often as it is there for: the announcement is never dropped
  refine ⟨k, hwork, hmost, fun id hid ↦ ?_, htimely, fun x hx ↦ ?_⟩
  · refine Nat.le_antisymm (hmost (.start id) trivial) ?_
    cases a with
    | announce j =>
      by_cases hj : j = id
      · subst hj
        obtain ⟨c, hc⟩ := exists_circuit_of_lt hid
        have heffects := (effects_of_chain (chain_of_work hwork)).symm.trans (effects_announce hc)
        rw [List.append_cancel_left heffects]
        exact Nat.le_add_right ..
      · rw [Action.tellings, List.filterMap_cons, Action.report?, List.filterMap_nil,
          List.count_singleton, if_neg (by simpa using hj)]
        exact Nat.zero_le _
    | deliver => exact Nat.zero_le _
    | transmit | countSent | replay | handle | serve => exact Nat.zero_le _
  · have ha : s.report? a = some x := by
      have hmem : x ∈ (s.report? a).toList := hreports.subset (List.mem_append.2 hx)
      simpa using hmem
    rcases report?_cases ha with hx | ⟨-, c, hc, -⟩
    · exact .inl (List.mem_filterMap.2 ⟨a, List.mem_singleton_self a, hx⟩)
    · exact .inr (lt_length_of_circuit? hc)

/-- A task works until it waits. -/
theorem work_advance (now : Instant) (l : List Action) (s : Server) :
    ∃ k, Chain Work s k (s.advance now l).2 := by
  induction l generalizing s with
  | nil => exact ⟨[], Chain.refl⟩
  | cons a l ih =>
    obtain ⟨k, hwork, -⟩ := accounts_perform now a s
    rw [advance]
    split <;> rename_i s₁ heq <;> rw [heq] at hwork
    · obtain ⟨k', hwork'⟩ := ih s₁
      exact ⟨k ++ k', hwork.trans hwork'⟩
    · exact ⟨k, hwork⟩
    · exact ⟨k, hwork⟩

/-- Nothing is lost while nothing is done. -/
theorem accounts_waiting (hl : Action.Timely l) (s : Server) : s.Accounts l [] l :=
  ⟨fun _ _ ↦ (Nat.zero_add _).le, fun _ _ ↦ Nat.zero_add _, hl, fun _ h ↦
    h.elim (fun h ↦ absurd h List.not_mem_nil) .inl⟩

/-- Without a report in them, actions may as well be forgotten. -/
theorem accounts_forgotten (hl : l.filterMap Action.report? = []) (s : Server) :
    s.Accounts l [] [] :=
  ⟨fun _ _ ↦ Nat.zero_le _, fun _ _ ↦ (Action.tellings_eq_zero hl).symm, trivial, fun _ h ↦
    h.elim (absurd · List.not_mem_nil) (absurd · List.not_mem_nil)⟩

/-- **Some actions after others,** each with what is left of them. -/
theorem Accounts.append (h : s.Accounts l k rest) (h' : s'.Accounts l' k' rest')
    (hwork : Chain Work s k s') (htimely : Action.Timely (rest ++ rest')) :
    s.Accounts (l ++ l') (k ++ k') (rest ++ rest') := by
  refine ⟨fun x hx ↦ ?_, fun id hid ↦ ?_, htimely, fun x hx ↦ ?_⟩
  · have hfirst := h.atMost x hx
    have hthen := h'.atMost x (hx.continues (continues_of_chain (chain_of_work hwork)))
    rw [Effect.tellings_append, Action.tellings_append, Action.tellings_append]
    omega
  · have hfirst := h.starts id hid
    have hthen := h'.starts id (by rwa [length_of_work hwork])
    rw [Effect.tellings_append, Action.tellings_append, Action.tellings_append]
    omega
  · have hthen := h'.known x
    rw [length_of_work hwork] at hthen
    rw [List.filterMap_append, List.filterMap_append, List.mem_append, List.mem_append,
      or_or_or_comm] at hx
    rw [List.filterMap_append, List.mem_append]
    rcases hx with hx | hx
    · exact (h.known x hx).imp_left .inl
    · exact (hthen hx).imp_left .inr

/-- Sending has no follow-ups, and after anything else there is nothing to report. -/
theorem timely_of_waiting (h : Action.Timely (a :: l)) (ha : s.perform now a = (.waiting rest, s'))
    (hrest : Action.Timely rest) : Action.Timely (rest ++ l) := by
  rcases h with ⟨hsend, hl⟩ | hl
  · cases a with
    | transmit target datagram =>
      obtain ⟨rfl, -⟩ := Prod.mk.inj ha |>.imp_left Outcome.waiting.inj
      exact hl
    | countSent n => cases ha
    | announce | deliver | replay | handle | serve => cases hsend
  · exact hrest.append_right hl

/-- Sending always goes well, and after anything else there is nothing to report. -/
theorem reports_eq_nil_of_failed {fault : Fault} (h : Action.Timely (a :: l))
    (ha : s.perform now a = (.failed fault, s')) : l.filterMap Action.report? = [] := by
  rcases h with ⟨hsend, -⟩ | hl
  · cases a with
    | transmit | countSent => cases ha
    | announce | deliver | replay | handle | serve => cases hsend
  · exact hl

/-- **Going through actions,** and what becomes of the reports in them. -/
theorem accounts_advance (now : Instant) {l : List Action} (h : Action.Timely l) (s : Server) :
    ∃ k, Chain Work s k (s.advance now l).2 ∧ s.Accounts l k (s.advance now l).1.rest := by
  induction l generalizing s with
  | nil => exact ⟨[], Chain.refl, accounts_waiting (l := []) trivial s⟩
  | cons a l ih =>
    obtain ⟨k, hwork, haccounts⟩ := accounts_perform now a s
    rw [advance]
    split <;> rename_i s₁ heq <;> rw [heq] at hwork haccounts
    · obtain ⟨k', hwork', haccounts'⟩ := ih h.tail s₁
      exact ⟨k ++ k', hwork.trans hwork', haccounts.append haccounts' hwork haccounts'.timely⟩
    · have htimely := timely_of_waiting h heq haccounts.timely
      have happend := haccounts.append (accounts_waiting h.tail s₁) hwork htimely
      rw [List.append_nil] at happend
      exact ⟨k, hwork, happend⟩
    · have hforgotten := accounts_forgotten (reports_eq_nil_of_failed h heq) s₁
      have happend := haccounts.append hforgotten hwork trivial
      rw [List.append_nil] at happend
      exact ⟨k, hwork, happend⟩

/-! ### What the application and the workers do -/

/-- A datagram that arrives is queued, which is quiet. -/
theorem quiet_arrive (source : Address) (datagram : Octets) (s : Server) :
    Quiet s (s.arrive source datagram) := by
  have hcount := sameRegistry_count Counters.countReceived (fun _ ↦ rfl) s
  unfold arrive
  dsimp only
  split
  · exact quiet_aside ⟨rfl, rfl, rfl, rfl, rfl, rfl, rfl, rfl⟩ rfl
  · exact quiet_aside hcount rfl

/-- So is sending a message. -/
theorem quiet_send (agent : Uuid) (category : Category) (m : Message)
    (reliable notify : Bool) (s : Server) :
    Quiet s ((s.send agent category m reliable notify).toOption.getD s) := by
  rw [send]
  split
  · exact .refl s
  · rename_i id c hof
    have hid := circuit?_of_ofAgent? hof
    cases hsend : c.send category m reliable notify with
    | error e => exact .refl s
    | ok c' =>
      exact quiet_aside (sameRegistry_putCircuit hid (Circuit.standing_send hsend)) rfl

/-- The close of a circuit reports nothing of circuits that last. -/
theorem quiet_closeCircuit (id : CircuitId) (reason : CloseReason) (s : Server) :
    Quiet s (s.closeCircuit id reason).2 :=
  s.calm_closeCircuit id reason

theorem quiet_close (agent : Uuid) (reason : CloseReason) (s : Server) :
    Quiet s (s.close agent reason).2 := by
  rw [close]
  split
  · exact .refl s
  · exact quiet_closeCircuit ..

/-- Pausing and resuming keep the standing of the circuit, and are quiet. -/
theorem quiet_changePhase {change : Circuit → Bool × Circuit}
    (h : ∀ c, (change c).2.standing = c.standing) (agent : Uuid) (s : Server) :
    Quiet s (s.changePhase agent change).2 := by
  rw [changePhase]
  split
  · exact .refl s
  · rename_i id c hof
    exact quiet_aside (sameRegistry_putCircuit (circuit?_of_ofAgent? hof) (h c)) rfl

/-- The close of a circuit that was found silent is quiet. -/
theorem quiet_closeSilentAt (position : Nat) (s : Server) :
    Quiet s (s.closeSilentAt position) := by
  rw [closeSilentAt]
  split
  · exact .refl s
  · obtain ⟨k, hcalm, hk⟩ := calm_closeCircuit _ .timeout
      { s with closing := s.closing.eraseIdx position }
    have haside : SameRegistry s { s with closing := s.closing.eraseIdx position } :=
      ⟨rfl, rfl, rfl, rfl, rfl, rfl, rfl, rfl⟩
    exact ⟨_, (calm_aside haside rfl).trans hcalm, hk⟩

/-- The end of a notice is a change aside. -/
theorem sameRegistry_endNotice (notice : Notice) (s : Server) :
    SameRegistry s (s.endNotice notice) := by
  unfold endNotice
  dsimp only
  split
  · exact ⟨rfl, rfl, rfl, rfl, rfl, rfl, rfl, rfl⟩
  · rename_i c hid
    exact ⟨rfl, rfl, rfl, (sameRegistry_putCircuit hid c.standing_endQueueEmpty).circuits,
      rfl, rfl, rfl, rfl⟩

theorem effects_endNotice (notice : Notice) (s : Server) :
    (s.endNotice notice).effects = s.effects := by
  unfold endNotice
  dsimp only
  split <;> rfl

/-- The beginning of a notice is quiet. -/
theorem quiet_beginNotice {notice : Option Notice} (h : s.beginNotice now = some (notice, s')) :
    Quiet s s' := by
  rw [beginNotice] at h
  split at h
  · cases h
  · rename_i taken notices htaken
    have haside : SameRegistry s { s with notices } := ⟨rfl, rfl, rfl, rfl, rfl, rfl, rfl, rfl⟩
    split at h
    · obtain ⟨-, rfl⟩ := Prod.mk.inj (Option.some.inj h)
      exact quiet_aside ⟨rfl, rfl, rfl, rfl, rfl, rfl, rfl, rfl⟩ rfl
    · rename_i c hid
      split at h <;> obtain ⟨-, rfl⟩ := Prod.mk.inj (Option.some.inj h)
      · exact quiet_aside ⟨rfl, rfl, rfl,
          (sameRegistry_putCircuit hid c.standing_endQueueEmpty).circuits, rfl, rfl, rfl, rfl⟩ rfl
      · exact ⟨_, (calm_aside haside rfl).trans
          (calm_record (e := .queueEmpty taken.circuit c.agent taken.lanes now) rfl _), rfl⟩

end Server

end DatagramCircuits
