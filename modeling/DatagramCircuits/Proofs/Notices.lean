import DatagramCircuits.Proofs.Accounting
import DatagramCircuits.Proofs.Alarms
import Mathlib.Data.List.Chain
/-!
# Notices of empty queues

A notice begins with regular work, waits for a worker, and is under way until the application is done
with it, or a worker drops it since its circuit is closed.

**A circuit knows whether a notice of it is under way** (`Server.Noted.underWay`): the mark is set where a
notice is accepted, and taken away where it is refused, dropped or done. So there is one at most, and a circuit
that has none is free for the next.

**The time between two notices** rests on what the circuit remembers of the last one, whether or not
there was room for it.
-/

namespace DatagramCircuits

namespace Pool

variable {ι : Type} {p p' : Pool ι} {job : ι}

theorem waiting_of_create {capacity : Nat} (h : create capacity = .ok p) : p.waiting = [] := by
  rw [create] at h
  split at h
  · cases h
  · obtain ⟨n, -, h⟩ := bind_eq_ok_iff.1 h
    obtain rfl := Except.ok.inj h
    rfl

/-- Workers start without a job. -/
theorem waiting_start (workers : Nat) (p : Pool ι) : (p.start workers).2.waiting = p.waiting := by
  rw [start]
  split <;> rfl

/-- A job that is accepted waits behind the others. -/
theorem waiting_of_submit (h : p.submit job = (true, p')) : p'.waiting = p.waiting ++ [job] := by
  rw [submit] at h
  split at h
  · obtain rfl := (Prod.mk.inj h).2
    rfl
  · cases h

/-- The job that waited longest is taken first. -/
theorem waiting_of_take? (h : p.take? = some (job, p')) : p.waiting = job :: p'.waiting := by
  rw [take?] at h
  split at h
  · cases h
  · rename_i hwaiting
    split at h
    · cases h
    · obtain ⟨rfl, rfl⟩ := Prod.mk.inj (Option.some.inj h)
      exact hwaiting

end Pool

/-- How many notices are of a circuit. -/
def Notice.countOf (id : CircuitId) (l : List Notice) : Nat :=
  l.countP (·.circuit = id)

theorem Notice.countOf_cons (id : CircuitId) (notice : Notice) (l : List Notice) :
    Notice.countOf id (notice :: l) =
      Notice.countOf id l + if notice.circuit = id then 1 else 0 := by
  rw [countOf, List.countP_cons]
  simp only [decide_eq_true_eq]
  rfl

/-- The instants at which notices of a circuit began. -/
def Attempt.timesOf (id : CircuitId) (l : List Attempt) : List Instant :=
  (l.filter (·.circuit = id)).map Attempt.time

theorem Attempt.timesOf_append_singleton (id : CircuitId) (l : List Attempt) (x : Attempt) :
    Attempt.timesOf id (l ++ [x]) =
      if x.circuit = id then Attempt.timesOf id l ++ [x.time] else Attempt.timesOf id l := by
  rw [timesOf, timesOf, List.filter_append, List.map_append]
  by_cases h : x.circuit = id <;> simp [h]

/-- Whether a circuit takes a notice of it to be under way. -/
def Watch.isBusy (w : Watch) (id : CircuitId) : Bool :=
  (w.alerts[id]?).any Circuit.Alert.busy

/-- When a circuit takes the last notice of it to have begun. -/
def Watch.last? (w : Watch) (id : CircuitId) : Option Instant :=
  (w.alerts[id]?).bind Circuit.Alert.last

namespace Server

variable {config : Config} {l : List Attempt} {running : List Notice} {w w' : Watch} {s s' : Server}
  {id : CircuitId} {a : Circuit.Alert} {time : Instant}

/-- **What is known about notices,** given those that began and those that workers are busy with. -/
structure Noted (config : Config) (l : List Attempt) (running : List Notice) (w : Watch) : Prop where
  uniform : w.Uniform config
  underWay : ∀ id, Notice.countOf id (w.notices.waiting ++ running) = if w.isBusy id then 1 else 0
  rejected : w.rejected = UInt64.ofNat (l.countP (!·.accepted))
  last : ∀ id, w.last? id = (Attempt.timesOf id l).getLast?
  spaced : ∀ id, (Attempt.timesOf id l).IsChain fun t t' ↦ config.queueEmptyInterval ≤ t' - t

/-- What is known about notices rests on these parts of the watch. -/
theorem Noted.steady (h : Noted config l running w) (hw : w.Steady w') : Noted config l running w' := by
  refine ⟨⟨hw.config.trans h.uniform.settings, hw.alerts ▸ h.uniform.alerts⟩, fun id ↦ ?_,
    hw.rejected.trans h.rejected, fun id ↦ ?_, h.spaced⟩
  · rw [hw.waiting, Watch.isBusy, hw.alerts]
    exact h.underWay id
  · rw [Watch.last?, hw.alerts]
    exact h.last id

/-! ### A notice begins -/

/-- A notice may begin if the last one is long past. -/
theorem Noted.spaced_append (h : Noted config l running w) (ha : w.alerts[id]? = some a)
    (hready : a.Ready time) (accepted : Bool) (j : CircuitId) :
    (Attempt.timesOf j (l ++ [⟨id, time, accepted⟩])).IsChain
      fun t t' ↦ config.queueEmptyInterval ≤ t' - t := by
  rw [Attempt.timesOf_append_singleton]
  split
  · obtain rfl : id = j := ‹_›
    refine List.isChain_append.2 ⟨h.spaced id, .singleton _, fun t ht t' ht' ↦ ?_⟩
    obtain rfl := Option.some.inj ht'
    have hlast : a.last = some t := by
      have hw := h.last id
      rw [Watch.last?, ha] at hw
      exact hw.trans ht
    exact h.uniform.alerts a (List.mem_of_getElem? ha) ▸ hready.2 t hlast
  · exact h.spaced j

/-- **A notice begins,** whether or not there is room for it. -/
theorem Noted.begin {accepted : Bool} (lanes : List Lane) (h : Noted config l running w)
    (huniform : w'.Uniform config) (ha : w.alerts[id]? = some a) (hready : a.Ready time)
    (halerts : w'.alerts = w.alerts.set id { a with busy := accepted, last := some time })
    (hwaiting : w'.notices.waiting =
      if accepted then w.notices.waiting ++ [⟨id, lanes⟩] else w.notices.waiting)
    (hrejected : w'.rejected = if accepted then w.rejected else w.rejected + 1) :
    Noted config (l ++ [⟨id, time, accepted⟩]) running w' := by
  have hlt : id < w.alerts.length := (List.getElem?_eq_some_iff.1 ha).1
  -- only what is known about one circuit changes
  have hother {j : CircuitId} (hj : id ≠ j) : w'.alerts[j]? = w.alerts[j]? := by
    rw [halerts, List.getElem?_set_ne hj]
  have hself : w'.alerts[id]? = some { a with busy := accepted, last := some time } := by
    rw [halerts, List.getElem?_set_self hlt]
  have hidle : w.isBusy id = false := by rw [Watch.isBusy, ha, Option.any_some, hready.1]
  refine ⟨huniform, fun j ↦ ?_, ?_, fun j ↦ ?_, h.spaced_append ha hready accepted⟩
  · have hcount := h.underWay j
    rw [Notice.countOf, List.countP_append] at hcount ⊢
    by_cases hj : id = j
    · subst hj
      rw [hidle] at hcount
      rw [hwaiting, Watch.isBusy, hself, Option.any_some]
      cases accepted with
      | false => exact hcount
      | true =>
        rw [if_pos rfl, List.countP_append]
        simp only [List.countP_singleton, decide_true, if_true]
        simp only [Bool.false_eq_true, if_false] at hcount
        omega
    · have hsame : w'.isBusy j = w.isBusy j := by rw [Watch.isBusy, Watch.isBusy, hother hj]
      rw [hwaiting, hsame, ← hcount]
      cases accepted with
      | false => rfl
      | true => simp [List.countP_append, hj]
  · rw [hrejected, List.countP_append, h.rejected]
    cases accepted with
    | false => exact (UInt64.ofNat_add ..).symm
    | true => rfl
  · rw [Attempt.timesOf_append_singleton, Watch.last?]
    split
    · obtain rfl : id = j := ‹_›
      rw [hself, List.getLast?_concat]
      rfl
    · rw [hother ‹_›]
      exact h.last j

/-- A visit notes the notice that it begins, whether the workers accept it or not. -/
theorem Noted.serve (h : Noted config l running s.watch) (id : CircuitId) (time : Instant) :
    Noted config (l ++ (s.attempt? (.serve id time)).toList) running (s.serve id time).2.watch := by
  have huniform := h.uniform.serve id time
  have hserved := served id time s
  generalize s.attempt? (.serve id time) = attempt, (s.serve id time).2.watch = w at huniform hserved
  cases hserved with
  | nothing => exact (List.append_nil l).symm ▸ h
  | silent => exact (List.append_nil l).symm ▸ ⟨huniform, h.underWay, h.rejected, h.last, h.spaced⟩
  | accepted ha hready hsubmit =>
    exact h.begin _ huniform ha hready rfl (Pool.waiting_of_submit hsubmit) rfl
  | rejected ha hready => exact h.begin [] huniform ha hready rfl rfl rfl

/-- A circuit is new. -/
theorem Noted.enter (h : Noted config l running s.watch)
    (hnew : s'.watch = { s.watch with alerts := s.watch.alerts ++ [⟨s.config, false, none⟩] }) :
    Noted config l running s'.watch := by
  have hget (j : CircuitId) : s'.watch.alerts[j]? = s.watch.alerts[j]? ∨
      s.watch.alerts[j]? = none ∧ s'.watch.alerts[j]? = some ⟨s.config, false, none⟩ := by
    rw [hnew]
    rcases Nat.lt_or_ge j s.watch.alerts.length with hj | hj
    · exact .inl (List.getElem?_append_left hj)
    · have hnone := List.getElem?_eq_none hj
      dsimp only
      rw [hnone, List.getElem?_append_right hj]
      cases j - s.watch.alerts.length with
      | zero => exact .inr ⟨rfl, rfl⟩
      | succ n => exact .inl rfl
  have hbusy (j : CircuitId) : s'.watch.isBusy j = s.watch.isBusy j := by
    rw [Watch.isBusy, Watch.isBusy]
    rcases hget j with hj | ⟨hnone, hj⟩
    · rw [hj]
    · rw [hnone, hj]
      rfl
  have hlast (j : CircuitId) : s'.watch.last? j = s.watch.last? j := by
    rw [Watch.last?, Watch.last?]
    rcases hget j with hj | ⟨hnone, hj⟩
    · rw [hj]
    · rw [hnone, hj]
      rfl
  refine ⟨h.uniform.change (.enter hnew), fun j ↦ ?_, ?_, fun j ↦ ?_, h.spaced⟩
  · rw [hbusy, hnew]
    exact h.underWay j
  · rw [hnew]
    exact h.rejected
  · rw [hlast]
    exact h.last j

/-- Whatever changes the watch keeps the notices in step with the history. -/
theorem Noted.change {k : List (Action × Server)} (h : Noted config l running s.watch)
    (hs : Watches s k s') :
    Noted config (l ++ k.filterMap fun x ↦ x.2.attempt? x.1) running s'.watch := by
  have hnil (h : Noted config l running s'.watch) :
      Noted config (l ++ [].filterMap fun x : Action × Server ↦ x.2.attempt? x.1) running s'.watch :=
    (List.append_nil l).symm ▸ h
  cases hs with
  | aside hsame => exact hnil (hsame ▸ h)
  | enter hnew => exact hnil (h.enter hnew)
  | act now a =>
    have hapart (ha : a.round? = none) (hnone : s.attempt? a = none) : Noted config
        (l ++ [(a, s)].filterMap fun x ↦ x.2.attempt? x.1) running (s.perform now a).2.watch := by
      rw [(apart_perform now ha s).1, List.filterMap_cons, hnone]
      exact (List.append_nil l).symm ▸ h
    cases a with
    | serve id time =>
      have hrecord : [(Action.serve id time, s)].filterMap (fun x ↦ x.2.attempt? x.1) =
          (s.attempt? (.serve id time)).toList := by
        rw [List.filterMap_cons]
        cases s.attempt? (.serve id time) <;> rfl
      exact hrecord ▸ h.serve id time
    | _ => exact hapart rfl rfl

/-- A notice that begins is under way if there is room for it, and is counted as refused otherwise. -/
theorem begun_of_attempt? {x : Attempt} {b : Action} (h : s.attempt? b = some x) (now : Instant) :
    ∃ c lanes, (s.perform now b).2.circuit? x.circuit = some c ∧ c.queueEmptyBusy = x.accepted ∧
      c.lastQueueEmpty = some x.time ∧
      (s.perform now b).2.notices.waiting =
        (if x.accepted then s.notices.waiting ++ [⟨x.circuit, lanes⟩] else s.notices.waiting) ∧
      (s.perform now b).2.counters.jobsRejected =
        if x.accepted then s.counters.jobsRejected else s.counters.jobsRejected + 1 := by
  cases b with
  | serve id time =>
    have hserved := served id time s
    rw [h] at hserved
    change ∃ c lanes, (s.serve id time).2.circuit? x.circuit = some c ∧ _
    generalize hw : (s.serve id time).2.watch = w at hserved
    -- the circuit is known by what the watch knows about it
    have hcircuit {a b : Circuit.Alert} (ha : s.watch.alerts[id]? = some a)
        (halerts : w.alerts = s.watch.alerts.set id b) :
        ∃ c, (s.serve id time).2.circuit? id = some c ∧ c.alert = b := by
      have hget : (s.serve id time).2.watch.alerts[id]? = some b := by
        rw [hw, halerts, List.getElem?_set_self (List.getElem?_eq_some_iff.1 ha).1]
      rw [watch, List.getElem?_map] at hget
      exact Option.map_eq_some_iff.1 hget
    cases hserved with
    | @accepted a lanes notices ha hready hsubmit =>
      obtain ⟨c, hc, halert⟩ := hcircuit ha rfl
      exact ⟨c, lanes, hc, congrArg Circuit.Alert.busy halert, congrArg Circuit.Alert.last halert,
        (congrArg (·.notices.waiting) hw).trans (Pool.waiting_of_submit hsubmit),
        congrArg Watch.rejected hw⟩
    | rejected ha hready =>
      obtain ⟨c, hc, halert⟩ := hcircuit ha rfl
      exact ⟨c, [], hc, congrArg Circuit.Alert.busy halert, congrArg Circuit.Alert.last halert,
        congrArg (·.notices.waiting) hw, congrArg Watch.rejected hw⟩
  | _ => cases h

/-! ### A notice ends -/

/-- **A notice is done with,** or dropped. -/
theorem Noted.quit {running' : List Notice} (h : Noted config l running w) (notice : Notice)
    (huniform : w'.Uniform config)
    (halerts : w'.alerts = w.alerts.modify notice.circuit Circuit.Alert.quit)
    (hnotices : ∀ id, Notice.countOf id (w.notices.waiting ++ running) =
      Notice.countOf id (w'.notices.waiting ++ running') + if notice.circuit = id then 1 else 0)
    (hrejected : w'.rejected = w.rejected) : Noted config l running' w' := by
  have hget (j : CircuitId) : w'.alerts[j]? =
      if notice.circuit = j then (w.alerts[j]?).map Circuit.Alert.quit else w.alerts[j]? := by
    rw [halerts, List.getElem?_modify]
    cases w.alerts[j]? <;> split <;> rfl
  refine ⟨huniform, fun j ↦ ?_, hrejected.trans h.rejected, fun j ↦ ?_, h.spaced⟩
  · have hcount := (hnotices j).symm.trans (h.underWay j)
    have hself := hget j
    rw [Watch.isBusy]
    by_cases hj : notice.circuit = j
    · rw [if_pos hj] at hself hcount
      have hidle : (w'.alerts[j]?).any Circuit.Alert.busy = false := by
        rw [hself]
        cases w.alerts[j]? <;> rfl
      rw [hidle, if_neg Bool.false_ne_true]
      split at hcount <;> omega
    · rw [if_neg hj] at hself hcount
      rw [hself]
      exact hcount
  · rw [Watch.last?, hget, ← h.last j, Watch.last?]
    cases w.alerts[j]? <;> split <;> rfl

end Server

namespace RunningServer

open Server

variable {now start : Instant} {e : Step} {r r₀ : RunningServer} {config : Config} {l : List Attempt}
  {history : List (Instant × Step)}

/-! ### Steps -/

/-- The notices that regular work goes to begin in a step. -/
def attempts (now : Instant) (e : Step) (r : RunningServer) : List Attempt :=
  (r.occasions now e).filterMap fun x ↦ x.2.attempt? x.1

/-- A notice that a worker takes is under way, or dropped. -/
theorem noted_beginNotice (h : Noted config l r.notices r.server.watch) (now : Instant) :
    Noted config l (r.beginNotice now).notices (r.beginNotice now).server.watch := by
  rw [RunningServer.beginNotice]
  split
  · exact h
  · rename_i told s' hbegin
    have huniform := (Incident.beginNotice hbegin).uniform h.uniform
    obtain ⟨notice, notices, htake, hs'⟩ := watch_beginNotice hbegin
    have hwaiting : r.server.watch.notices.waiting = notice :: notices.waiting :=
      Pool.waiting_of_take? htake
    dsimp only
    obtain ⟨rfl, hs'⟩ | ⟨rfl, c, -, -, hs'⟩ := hs'
    · refine h.quit notice huniform (by rw [hs']) (fun id ↦ ?_) (by rw [hs'])
      rw [hwaiting, hs', Option.toList_none, List.append_nil, List.cons_append]
      exact Notice.countOf_cons ..
    · refine ⟨huniform, fun id ↦ ?_, ?_, fun id ↦ ?_, h.spaced⟩
      · have hsame : Notice.countOf id (notices.waiting ++ (r.notices ++ [notice])) =
            Notice.countOf id (r.server.watch.notices.waiting ++ r.notices) := by
          rw [hwaiting, ← List.append_assoc]
          exact List.Perm.countP_eq _ (List.perm_append_singleton ..)
        rw [hs']
        exact hsame.trans (h.underWay id)
      · rw [hs']
        exact h.rejected
      · rw [hs']
        exact h.last id

/-- A notice that is done is under way no more. -/
theorem noted_endNotice (h : Noted config l r.notices r.server.watch) (position : Nat) :
    Noted config l (r.endNotice position).notices (r.endNotice position).server.watch := by
  rw [RunningServer.endNotice]
  split
  · exact h
  · rename_i notice hposition
    have hincident : Incident 0 r.server (.endNotice position) (r.server.endNotice notice) :=
      .endNotice notice
    have hs' := r.server.watch_endNotice notice
    obtain ⟨hlt, rfl⟩ := List.getElem?_eq_some_iff.1 hposition
    refine h.quit _ (hincident.uniform h.uniform) (by rw [hs']) (fun id ↦ ?_) (by rw [hs'])
    rw [hs', ← Notice.countOf_cons]
    have hperm := (List.getElem_cons_eraseIdx_perm hlt).symm.append_left r.server.notices.waiting
    exact List.Perm.countP_eq _ (hperm.trans List.perm_middle)

/-- Tasks give the workers nothing but jobs. -/
theorem notices_settled (r : RunningServer) (o : Outcome × Server) :
    (r.settled o).notices = r.notices := by
  obtain ⟨_ | rest | fault, s⟩ := o <;> rfl

/-- Other steps have nothing to do with the notices that workers are busy with. -/
theorem notices_of_step (he : seesToNotice e = false) (now : Instant) (r : RunningServer) :
    (r.step now e).notices = r.notices := by
  cases e with
  | beginNotice | endNotice => cases he
  | arrive source datagram =>
    rw [step, RunningServer.arrive]
    split <;> rfl
  | decode =>
    rw [step, RunningServer.decode]
    split <;> rfl
  | resumeDecoding =>
    rw [step, resumeDecoding]
    split <;> rfl
  | stopDecoding =>
    rw [step, stopDecoding]
    split <;> rfl
  | authorize position result =>
    rw [step, authorize]
    split
    · rfl
    · exact notices_settled ..
  | resumeSetup position =>
    rw [step, resumeSetup]
    split
    · rfl
    · exact notices_settled ..
  | beginRound =>
    rw [step, beginRound]
    split
    · split <;> rfl
    · rfl
  | resumeRound =>
    rw [step, resumeRound]
    split <;> rfl
  | stopWorkers =>
    rw [step, stopWorkers]
    split <;> rfl
  | _ => rfl

/-- **What a step does to notices.** -/
theorem noted_of_step (h : Noted config l r.notices r.server.watch) (now : Instant) (e : Step) :
    Noted config (l ++ r.attempts now e) (r.step now e).notices (r.step now e).server.watch := by
  cases honce : atOnce e with
  | false =>
    have he : seesToNotice e = false := by
      cases e <;> first | rfl | cases honce
    rw [notices_of_step he]
    have hnoted := (chain_of_task honce now r).preserves (motive := fun log s ↦
      Noted config (l ++ log.filterMap fun x ↦ x.2.attempt? x.1) r.notices s.watch)
      (k := []) ((List.append_nil l).symm ▸ h) fun hbefore hstep ↦ by
        rw [List.filterMap_append, ← List.append_assoc]
        exact hbefore.change hstep
    exact hnoted
  | true =>
    obtain ⟨hincident, -, hpart⟩ := incident_of_atOnce honce now r
    have hnone : r.attempts now e = [] := by rw [attempts, occasions, hpart, List.filterMap_nil]
    rw [hnone, List.append_nil]
    have hsteady (he : seesToNotice e = false) :
        Noted config l (r.step now e).notices (r.step now e).server.watch := by
      rw [notices_of_step he]
      exact h.steady (hincident.steady he)
    cases e with
    | beginNotice => exact noted_beginNotice h now
    | endNotice position => exact noted_endNotice h position
    | _ => exact hsteady rfl

/-- **A history notes all notices,** and which of them are under way. -/
theorem noted_of_run (h : Noted config l r.notices r.server.watch) (history : List (Instant × Step)) :
    Noted config (l ++ collect attempts history r) (r.run history).notices
      (r.run history).server.watch := by
  induction history generalizing l r with
  | nil => exact (List.append_nil l).symm ▸ h
  | cons x history ih =>
    obtain ⟨now, e⟩ := x
    rw [collect, run_cons, ← List.append_assoc]
    exact ih (noted_of_step h now e)

/-- There are no notices in the beginning. -/
theorem waiting_eq_nil_of_create (h : create config start = .ok r) : r.server.notices.waiting = [] := by
  obtain ⟨s, hs, h⟩ := bind_eq_ok_iff.1 h
  obtain rfl := Except.ok.inj h
  obtain ⟨-, -, hs⟩ := bind_eq_ok_iff.1 hs
  obtain ⟨-, -, hs⟩ := bind_eq_ok_iff.1 hs
  obtain ⟨pending, -, hs⟩ := bind_eq_ok_iff.1 hs
  obtain ⟨notices, hnotices, hs⟩ := bind_eq_ok_iff.1 hs
  obtain rfl := Except.ok.inj hs
  have hempty : notices.waiting = [] := Pool.waiting_of_create (mapError_eq_ok_iff.1 hnotices)
  rw [Server.start]
  split
  · exact hempty
  · rename_i started heq
    have hstarted := Pool.waiting_start config.workers notices
    rw [heq] at hstarted
    exact hstarted.trans hempty

/-- **What is known of notices of empty queues** after a history. -/
structure Notified (config : Config) (history : List (Instant × Step)) (r₀ : RunningServer) :
    Prop where
  /-- A circuit takes a notice of it to be under way while one waits or is worked on, which is one at
  most. -/
  underWay : ∀ id c, (r₀.run history).server.circuit? id = some c →
    Notice.countOf id ((r₀.run history).server.notices.waiting ++ (r₀.run history).notices) =
      if c.queueEmptyBusy then 1 else 0
  /-- There are notices of circuits of the server only. -/
  known : ∀ notice ∈ (r₀.run history).server.notices.waiting ++ (r₀.run history).notices,
    ∃ c, (r₀.run history).server.circuit? notice.circuit = some c
  /-- A notice that begins is under way if there is room for it. Otherwise it leaves the circuit free for
  another one, and is counted. -/
  begun : ∀ a s x, (a, s) ∈ collect occasions history r₀ → s.attempt? a = some x → ∀ now,
    ∃ c lanes, (s.perform now a).2.circuit? x.circuit = some c ∧ c.queueEmptyBusy = x.accepted ∧
      c.lastQueueEmpty = some x.time ∧
      (s.perform now a).2.notices.waiting =
        (if x.accepted then s.notices.waiting ++ [⟨x.circuit, lanes⟩] else s.notices.waiting) ∧
      (s.perform now a).2.counters.jobsRejected =
        if x.accepted then s.counters.jobsRejected else s.counters.jobsRejected + 1
  /-- Each notice that there was no room for is counted once, and nothing else is. -/
  rejected : (r₀.run history).server.counters.jobsRejected =
    UInt64.ofNat ((collect attempts history r₀).countP (!·.accepted))
  /-- A circuit remembers when the last notice of it began. -/
  last : ∀ id c, (r₀.run history).server.circuit? id = some c →
    c.lastQueueEmpty = (Attempt.timesOf id (collect attempts history r₀)).getLast?
  /-- Between two notices of a circuit is as much time as there has to be. -/
  spaced : ∀ id, (Attempt.timesOf id (collect attempts history r₀)).Pairwise fun t t' ↦
    config.queueEmptyInterval ≤ t' - t
  /-- The application is told where a worker takes a notice and its circuit is not closed. -/
  told : ∀ now e k id agent lanes time,
    ((r₀.run history).step now e).server.effects = (r₀.run history).server.effects ++ k →
    .queueEmpty id agent lanes time ∈ k → e = .beginNotice ∧ time = now ∧
      (∃ rest, (r₀.run history).server.notices.waiting = ⟨id, lanes⟩ :: rest) ∧
      ∃ c, (r₀.run history).server.circuit? id = some c ∧ c.isClosed = false ∧ c.agent = agent

/-- **Notices of empty queues** are under way one at a time for each circuit, and not too often, in
whatever order things happen. -/
theorem notified_of_run (hcreate : create config start = .ok r₀) (history : List (Instant × Step)) :
    Notified config history r₀ := by
  have hbegin : Noted config [] r₀.notices r₀.server.watch := by
    have huniform := uniform_of_create hcreate
    have hwaiting := waiting_eq_nil_of_create hcreate
    obtain ⟨burst, pending, notices, -, rfl⟩ := exists_of_create hcreate
    refine ⟨huniform, fun id ↦ ?_, rfl, fun _ ↦ rfl, fun _ ↦ .nil⟩
    exact congrArg (Notice.countOf id) ((List.append_nil _).trans hwaiting)
  have hnoted := noted_of_run hbegin history
  rw [List.nil_append] at hnoted
  refine ⟨fun id c hid ↦ ?_, fun notice hnotice ↦ ?_, fun a s x _ hx now ↦ begun_of_attempt? hx now,
    hnoted.rejected, fun id c hid ↦ ?_, fun id ↦ ?_, fun now e k id agent lanes time hk htold ↦ ?_⟩
  · have hcount := hnoted.underWay id
    rw [Watch.isBusy, getElem?_alerts hid] at hcount
    exact hcount
  · have hcount := hnoted.underWay notice.circuit
    have hpos : 0 < Notice.countOf notice.circuit
        ((r₀.run history).server.notices.waiting ++ (r₀.run history).notices) :=
      List.countP_pos_iff.2 ⟨notice, hnotice, decide_eq_true rfl⟩
    have hbusy : (r₀.run history).server.watch.isBusy notice.circuit = true := by
      by_contra hidle
      rw [if_neg hidle] at hcount
      exact absurd hcount (Nat.pos_iff_ne_zero.1 hpos)
    obtain ⟨alert, halert, -⟩ := (Option.any_eq_true ..).1 hbusy
    rw [watch, List.getElem?_map] at halert
    obtain ⟨c, hc, -⟩ := Option.map_eq_some_iff.1 halert
    exact ⟨c, hc⟩
  · have hlast := hnoted.last id
    rw [Watch.last?, getElem?_alerts hid] at hlast
    exact hlast
  · have htrans : ∀ n a b c : Nat, n ≤ b - a → n ≤ c - b → n ≤ c - a := by omega
    have : IsTrans Instant fun t t' ↦ config.queueEmptyInterval ≤ t' - t := ⟨htrans _⟩
    exact List.isChain_iff_pairwise.1 (hnoted.spaced id)
  · cases alarms_of_step hk htold rfl with
    | notice htake hid hopen =>
      exact ⟨rfl, rfl, ⟨_, Pool.waiting_of_take? htake⟩, _, hid, hopen, rfl⟩

/-- Two circuits have nothing to send in two rounds. The application is told of the first notice and is
done with it in between, and is told of the next one. -/
def runningEmpty : List (Instant × Step) :=
  settingUp 2 (.ofNat 7) ++ settingUp 3 (.ofNat 8) ++
    [(0, .resumeSetup 0), (0, .resumeSetup 0), (0, .resumeSetup 0), (0, .resumeSetup 0),
      (5 * Span.millisecond, .beginRound []), (6 * Span.millisecond, .beginNotice),
      (7 * Span.millisecond, .endNotice 0), (25 * Span.millisecond, .beginRound []),
      (25 * Span.millisecond, .beginNotice)]

/-- Where one notice may wait, that of the second circuit finds no room in either round. -/
theorem notified_of_runningEmpty :
    ∃ r₀, create { jobCapacity := 1 } 0 = .ok r₀ ∧
      collect attempts runningEmpty r₀ =
        [⟨0, 5 * Span.millisecond, true⟩, ⟨1, 5 * Span.millisecond, false⟩,
          ⟨0, 25 * Span.millisecond, true⟩, ⟨1, 25 * Span.millisecond, false⟩] ∧
      (r₀.run runningEmpty).server.circuits.map Circuit.queueEmptyBusy = [true, false] ∧
      (r₀.run runningEmpty).notices.map Notice.circuit = [0] ∧
      Notified { jobCapacity := 1 } runningEmpty r₀ := by
  obtain ⟨r₀, hcreate, htest⟩ := exists_eq_ok_of_any (x := create { jobCapacity := 1 } 0)
    (p := fun r₀ ↦ decide (collect attempts runningEmpty r₀ =
        [⟨0, 5 * Span.millisecond, true⟩, ⟨1, 5 * Span.millisecond, false⟩,
          ⟨0, 25 * Span.millisecond, true⟩, ⟨1, 25 * Span.millisecond, false⟩] ∧
      (r₀.run runningEmpty).server.circuits.map Circuit.queueEmptyBusy = [true, false] ∧
      (r₀.run runningEmpty).notices.map Notice.circuit = [0])) (by decide +kernel)
  obtain ⟨hattempts, hbusy, hnotices⟩ := of_decide_eq_true htest
  exact ⟨r₀, hcreate, hattempts, hbusy, hnotices, notified_of_run hcreate runningEmpty⟩

end RunningServer

end DatagramCircuits
