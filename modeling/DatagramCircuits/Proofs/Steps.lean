import DatagramCircuits.Proofs.Tasks
import Mathlib.Data.List.Perm.Basic
/-!
# What a step of a running server does

There are three kinds of steps. A task goes on, if it has anything to go on with
(`RunningServer.Conduct`); or a request is decided; or something is done at once, whatever the tasks
are at (`RunningServer.Incident`). The tasks are told apart by nothing, so they are known up to their
order.

**One step of a running server** either leaves all tasks where they are, or goes on with one of
them, or makes a new one wait. `RunningServer.Progress` says what there is to know about that, and
holds of every step (`RunningServer.progress_of_step`).
-/

namespace DatagramCircuits

/-- What is left of the work of a loop. -/
def Loop.rest : Loop → List Action
  | busy rest => rest
  | _ => []

/-- A loop is left with what its task is left with, whether or not it stops. -/
theorem Loop.rest_after (stopping : Bool) (o : Outcome) : (Loop.after stopping o).rest = o.rest := by
  cases o with
  | finished => cases stopping <;> rfl
  | waiting | failed => rfl

/-- The circuit to which an action owes something, as part of its set-up or on behalf of a datagram
that it accepted. -/
def Action.duty? : Action → Option CircuitId
  | announce id => some id
  | deliver id _ => some id
  | replay id _ => some id
  | _ => none

namespace RunningServer

open Server

variable {now : Instant} {e : Step} {r r' : RunningServer} {l : List Action} {s : Server}
  {o : Outcome × Server}

/-- What the tasks still have to do, task by task. -/
def tasks (r : RunningServer) : List (List Action) :=
  r.decoding.rest :: r.rounds.rest :: r.setups

/-- The actions that a step goes through, until the task waits, and the server in which it begins
to. -/
def part? (now : Instant) (e : Step) (r : RunningServer) : Option (List Action × Server) :=
  match e with
  | .decode =>
    match r.decoding, r.server.inbox with
    | .idle, (source, datagram) :: inbox =>
      some ([.handle source datagram], { r.server with inbox })
    | _, _ => none
  | .resumeDecoding =>
    match r.decoding with
    | .busy rest => some (rest, r.server)
    | _ => none
  | .beginRound order =>
    match r.rounds with
    | .idle => if r.server.stopping then none else some (r.server.roundOf order now, r.server)
    | _ => none
  | .resumeRound =>
    match r.rounds with
    | .busy rest => some (rest, r.server)
    | _ => none
  | .authorize position (.granted session) =>
    match r.server.authorizing[position]? with
    | none => none
    | some h =>
      match (r.server.decided position).establish h session now with
      | (.ok ([], rest), server) => some (rest, server)
      | _ => none
  | .resumeSetup position => r.setups[position]?.map (·, r.server)
  | _ => none

/-- There is a task with `l` left to be done, if that is anything, beside the others. -/
def Splits (tasks : List (List Action)) (l : List Action) (others : List (List Action)) : Prop :=
  tasks.Perm (l :: others) ∨ l = [] ∧ tasks.Perm others

/-- What holds of all tasks holds of the one and of the others. -/
theorem Splits.forall_iff {tasks others : List (List Action)} (h : Splits tasks l others)
    {p : List Action → Prop} (hnil : p []) :
    (∀ k ∈ tasks, p k) ↔ p l ∧ ∀ k ∈ others, p k := by
  rcases h with h | ⟨rfl, h⟩
  · rw [← List.forall_mem_cons]
    exact ⟨fun hp k hk ↦ hp k (h.mem_iff.2 hk), fun hp k hk ↦ hp k (h.mem_iff.1 hk)⟩
  · exact ⟨fun hp ↦ ⟨hnil, fun k hk ↦ hp k (h.mem_iff.2 hk)⟩, fun hp k hk ↦ hp.2 k (h.mem_iff.1 hk)⟩

/-- The step decides a request. -/
def Decides : Step → Prop
  | .authorize .. => True
  | _ => False

/-- A decision decodes nothing. -/
theorem Decides.ne_decode (h : Decides e) : e ≠ .decode := by
  rintro rfl
  exact h

/-- The actions may begin a task in a step, in a server that was made ready for it. -/
inductive Begins (e : Step) (r : RunningServer) (s : Server) : List Action → Prop
  /-- A datagram is decoded. -/
  | arrival {source : Address} {datagram : Octets} (he : e = .decode)
      (hlength : s.circuits.length = r.server.circuits.length) :
    Begins e r s [.handle source datagram]
  /-- A round of regular work. -/
  | round {ids order : List CircuitId} {time : Instant}
      (hlength : s.circuits.length = r.server.circuits.length) (he : e = .beginRound order) :
    Begins e r s (ids.map (.serve · time))
  /-- The set-up of a circuit: what waits for its address is taken in behind the announcement. -/
  | setup {k : List Action} (kept : List Octets) (hsends : ∀ a ∈ k, a.isSend = true)
      (hlength : s.circuits.length = r.server.circuits.length + 1) :
    Begins e r s (k ++ .announce r.server.circuits.length ::
      kept.map (.replay r.server.circuits.length ·))

/-- What there is to know about a step, given what it goes through. Only the decision of a request
and the decoding of datagrams have to do with requests. -/
inductive Progress (now : Instant) (e : Step) (r r' : RunningServer) :
    Option (List Action × Server) → Prop
  /-- No task goes on. -/
  | stay (h : ChangesQuietly r.server r'.server) (hcalm : Decides e ∨ Quiet r.server r'.server)
      (htasks : r'.tasks = r.tasks) : Progress now e r r' none
  /-- A task begins and waits. -/
  | begin {l : List Action} (h : ChangesQuietly r.server r'.server) (hdecides : Decides e)
      (hl : Begins e r r'.server l) (htasks : r'.tasks.Perm (l :: r.tasks)) : Progress now e r r' none
  /-- A task goes on with what was left of it, or begins. -/
  | go {l before : List Action} {s : Server} {others : List (List Action)}
      (h : ChangesQuietly r.server s) (hcalm : Decides e ∨ Quiet r.server s)
      (hserver : r'.server = (s.advance now l).2) (hbefore : Splits r.tasks before others)
      (hl : l = before ∧ s = r.server ∨ before = [] ∧ Begins e r s l)
      (hafter : Splits r'.tasks (s.advance now l).1.rest others) : Progress now e r r' (some (l, s))

/-- A step that neither decides a request nor goes on with a task. -/
theorem Progress.quiet (h : Quiet r.server r'.server) (htasks : r'.tasks = r.tasks) :
    Progress now e r r' none :=
  .stay h.changesQuietly (.inr h) htasks

/-- What is replayed has nothing to report until it is read. -/
theorem filterMap_report?_replays (id : CircuitId) (kept : List Octets) :
    (kept.map (Action.replay id ·)).filterMap Action.report? = [] := by
  refine List.filterMap_eq_nil_iff.2 fun a ha ↦ ?_
  obtain ⟨d, -, rfl⟩ := List.mem_map.1 ha
  rfl

/-- Sending reports nothing. -/
theorem filterMap_report?_sends (h : ∀ a ∈ l, a.isSend = true) : l.filterMap Action.report? = [] := by
  refine List.filterMap_eq_nil_iff.2 fun a ha ↦ ?_
  have hsend := h a ha
  cases a <;> first | rfl | cases hsend

/-- Visits of circuits report nothing. -/
theorem filterMap_report?_round (ids : List CircuitId) (time : Instant) :
    (ids.map (Action.serve · time)).filterMap Action.report? = [] := by
  refine List.filterMap_eq_nil_iff.2 fun a ha ↦ ?_
  obtain ⟨id, -, rfl⟩ := List.mem_map.1 ha
  rfl

/-- A task begins with nothing to report, or with the start of a new circuit. -/
theorem Begins.reports (h : Begins e r s l) :
    l.filterMap Action.report? = [] ∧ s.circuits.length = r.server.circuits.length ∨
      l.filterMap Action.report? = [.start r.server.circuits.length] ∧
        s.circuits.length = r.server.circuits.length + 1 := by
  cases h with
  | arrival _ hlength => exact .inl ⟨rfl, hlength⟩
  | round hlength _ => exact .inl ⟨filterMap_report?_round .., hlength⟩
  | setup kept hsends hlength =>
    refine .inr ⟨?_, hlength⟩
    rw [List.filterMap_append, filterMap_report?_sends hsends, List.filterMap_cons,
      filterMap_report?_replays]
    rfl

/-- A task that begins reports in good time. -/
theorem Begins.timely (h : Begins e r s l) : Action.Timely l := by
  cases h with
  | arrival => exact .inr rfl
  | round => exact Action.timely_of_none (filterMap_report?_round ..)
  | setup kept hsends =>
    exact Action.Timely.append_left (.inr (filterMap_report?_replays ..)) hsends

/-- Only decoding begins with a datagram to decode, and it begins with nothing else. -/
theorem Begins.eq_or_plain (h : Begins e r s l) :
    (e = .decode ∧ ∃ source datagram, l = [.handle source datagram]) ∨
      ∀ a ∈ l, a.arrival? = none := by
  cases h with
  | arrival he => exact .inl ⟨he, _, _, rfl⟩
  | round =>
    refine .inr fun a ha ↦ ?_
    obtain ⟨id, -, rfl⟩ := List.mem_map.1 ha
    rfl
  | setup kept hsends =>
    refine .inr fun a ha ↦ ?_
    rcases List.mem_append.1 ha with ha | ha
    · have hsend := hsends a ha
      cases a <;> first | rfl | cases hsend
    · rcases List.mem_cons.1 ha with rfl | ha
      · rfl
      · obtain ⟨d, -, rfl⟩ := List.mem_map.1 ha
        rfl

/-! ### Tasks beside each other -/

/-- What is left of decoding, beside all other tasks. -/
theorem splits_decoding (h : r.decoding.rest = l) : Splits r.tasks l (r.rounds.rest :: r.setups) :=
  .inl (h ▸ List.Perm.refl _)

/-- Afterwards the task of the decoding loop is what is left of it. -/
theorem splits_decoded (r : RunningServer) (o : Outcome × Server) :
    Splits (r.decoded o).tasks o.1.rest (r.rounds.rest :: r.setups) :=
  splits_decoding (r := r.decoded o) (Loop.rest_after ..)

/-- What is left of a round, beside all other tasks. -/
theorem splits_rounds (h : r.rounds.rest = l) : Splits r.tasks l (r.decoding.rest :: r.setups) :=
  .inl (h ▸ List.Perm.swap ..)

/-- Afterwards the task of the rounds is what is left of it. -/
theorem splits_worked (r : RunningServer) (o : Outcome × Server) :
    Splits (r.worked o).tasks o.1.rest (r.decoding.rest :: r.setups) :=
  splits_rounds (r := r.worked o) (Loop.rest_after ..)

/-- What is left of a task waits beside the others. -/
theorem tasks_settled (r : RunningServer) (o : Outcome × Server) :
    Splits (r.settled o).tasks o.1.rest r.tasks := by
  obtain ⟨_ | rest | fault, server⟩ := o
  · exact .inr ⟨rfl, List.Perm.refl _⟩
  · refine .inl ?_
    rw [settled, tasks, tasks]
    exact (List.perm_append_singleton rest (r.decoding.rest :: r.rounds.rest :: r.setups))
  · exact .inr ⟨rfl, List.Perm.refl _⟩

theorem server_settled (r : RunningServer) (o : Outcome × Server) :
    (r.settled o).server = o.2 := by
  obtain ⟨_ | rest | fault, server⟩ := o <;> rfl

/-- A circuit that is being set up, beside all other tasks. -/
theorem splits_setup {position : Nat} (h : r.setups[position]? = some l) :
    Splits r.tasks l { r with setups := r.setups.eraseIdx position }.tasks := by
  obtain ⟨hlt, rfl⟩ := List.getElem?_eq_some_iff.1 h
  have hperm := ((List.getElem_cons_eraseIdx_perm hlt).symm.cons r.rounds.rest).cons r.decoding.rest
  exact .inl (hperm.trans (((List.Perm.swap ..).cons _).trans (List.Perm.swap ..)))

/-! ### Requests that are decided -/

/-- A decision about no request changes nothing. -/
theorem step_authorize_of_none {position : Nat} (h : r.server.authorizing[position]? = none)
    (result : Authorization) (now : Instant) : r.step now (.authorize position result) = r := by
  simp only [step, authorize, h]

/-- The request is taken out, and the task for it goes as far as it can. -/
theorem step_authorize_of_some {position : Nat} {request : Handshake}
    (h : r.server.authorizing[position]? = some request) (result : Authorization) (now : Instant) :
    r.step now (.authorize position result) =
      r.settled ((r.server.decided position).conclude request result now) := by
  simp only [step, authorize, h]
  rfl

/-! ### Tasks that go on -/

/-- The step is one of a task that is there already, or of a loop that begins with its next work. -/
def goesOn : Step → Bool
  | .decode | .resumeDecoding | .beginRound _ | .resumeRound | .resumeSetup _ => true
  | _ => false

/-- What a task has to do in a step, in the server that was made ready for it, and what it had to do
before. -/
inductive Engaged (now : Instant) (r : RunningServer) :
    Step → List Action → Server → List Action → Prop
  /-- The next datagram is decoded. -/
  | decode {source : Address} {datagram : Octets} {inbox : List (Address × Octets)}
      (hloop : r.decoding = .idle) (hinbox : r.server.inbox = (source, datagram) :: inbox) :
    Engaged now r .decode [.handle source datagram] { r.server with inbox } []
  /-- A round of regular work begins. -/
  | round (order : List CircuitId) :
    Engaged now r (.beginRound order) (r.server.roundOf order now) r.server []
  /-- The task goes on with what was left of it. -/
  | resume {e : Step} {l : List Action} (he : e ≠ .decode) (hl : l ∈ r.tasks) :
    Engaged now r e l r.server l

/-- How a step goes by in which a task may go on. -/
inductive Conduct (now : Instant) (e : Step) (r : RunningServer) : Prop
  /-- The task does what it has to, beside all others. -/
  | go {l before : List Action} {s : Server} {others : List (List Action)}
      (h : Engaged now r e l s before) (hpart : r.part? now e = some (l, s))
      (hserver : (r.step now e).server = (s.advance now l).2) (hbefore : Splits r.tasks before others)
      (hafter : Splits (r.step now e).tasks (s.advance now l).1.rest others)
  /-- There is nothing to do. -/
  | idle (hserver : (r.step now e).server = r.server) (htasks : (r.step now e).tasks = r.tasks)
      (hpart : r.part? now e = none)
      (hidle : e = .decode → r.decoding = .idle → r.server.inbox = [])

attribute [local simp] step part? RunningServer.decode resumeDecoding beginRound resumeRound
  resumeSetup

/-- Decoding begins with the datagram that arrived first. -/
theorem conduct_decode (now : Instant) (r : RunningServer) : Conduct now .decode r := by
  match hloop : r.decoding, hinbox : r.server.inbox with
  | .idle, (source, datagram) :: inbox =>
    have hstep : r.step now .decode =
        r.decoded ({ r.server with inbox }.advance now [.handle source datagram]) := by
      simp [hloop, hinbox]
    refine .go (.decode hloop hinbox) ?_ (hstep ▸ rfl) (splits_decoding (congrArg Loop.rest hloop))
      (hstep ▸ splits_decoded ..)
    simp [hloop, hinbox]
  | .idle, [] | .busy _, _ | .ended, _ =>
    refine .idle ?_ ?_ ?_ fun _ hidle ↦ ?_ <;>
      simp_all

/-- The decoding loop goes on with what is left to it. -/
theorem conduct_resumeDecoding (now : Instant) (r : RunningServer) :
    Conduct now .resumeDecoding r := by
  cases hloop : r.decoding with
  | busy rest =>
    have hstep : r.step now .resumeDecoding = r.decoded (r.server.advance now rest) := by
      simp [hloop]
    have hmem : rest ∈ r.tasks := by
      rw [tasks, hloop]
      exact List.mem_cons_self
    refine .go (.resume nofun hmem) ?_ (hstep ▸ rfl) (splits_decoding (congrArg Loop.rest hloop))
      (hstep ▸ splits_decoded ..)
    simp [hloop]
  | idle | ended =>
    refine .idle ?_ ?_ ?_ nofun <;> simp [hloop]

/-- A round begins when the last one is over. -/
theorem conduct_beginRound (order : List CircuitId) (now : Instant) (r : RunningServer) :
    Conduct now (.beginRound order) r := by
  cases hloop : r.rounds with
  | idle =>
    cases hstopping : r.server.stopping with
    | true =>
      have hstep : r.step now (.beginRound order) = { r with rounds := .ended } := by
        simp [hloop, hstopping]
      refine .idle (hstep ▸ rfl) ?_ ?_ nofun
      · rw [hstep, tasks, tasks, hloop]
        rfl
      · simp [hloop, hstopping]
    | false =>
      have hstep : r.step now (.beginRound order) =
          r.worked (r.server.advance now (r.server.roundOf order now)) := by
        simp [hloop, hstopping]
      refine .go (.round order) ?_ (hstep ▸ rfl) (splits_rounds (congrArg Loop.rest hloop))
        (hstep ▸ splits_worked ..)
      simp [hloop, hstopping]
  | busy rest | ended =>
    refine .idle ?_ ?_ ?_ nofun <;> simp [hloop]

/-- A round goes on with what is left of it. -/
theorem conduct_resumeRound (now : Instant) (r : RunningServer) : Conduct now .resumeRound r := by
  cases hloop : r.rounds with
  | busy rest =>
    have hstep : r.step now .resumeRound = r.worked (r.server.advance now rest) := by
      simp [hloop]
    have hmem : rest ∈ r.tasks := by
      rw [tasks, hloop]
      exact List.mem_cons_of_mem _ List.mem_cons_self
    refine .go (.resume nofun hmem) ?_ (hstep ▸ rfl) (splits_rounds (congrArg Loop.rest hloop))
      (hstep ▸ splits_worked ..)
    simp [hloop]
  | idle | ended =>
    refine .idle ?_ ?_ ?_ nofun <;> simp [hloop]

/-- A set-up goes on with what is left of it. -/
theorem conduct_resumeSetup (position : Nat) (now : Instant) (r : RunningServer) :
    Conduct now (.resumeSetup position) r := by
  cases hsetup : r.setups[position]? with
  | none =>
    refine .idle ?_ ?_ ?_ nofun <;> simp [hsetup]
  | some rest =>
    have hstep : r.step now (.resumeSetup position) =
        { r with setups := r.setups.eraseIdx position }.settled (r.server.advance now rest) := by
      simp [hsetup]
    have hmem : rest ∈ r.tasks :=
      List.mem_cons_of_mem _ (List.mem_cons_of_mem _ (List.mem_of_getElem? hsetup))
    refine .go (.resume nofun hmem) ?_ (hstep ▸ server_settled ..) (splits_setup hsetup)
      (hstep ▸ tasks_settled ..)
    rw [part?, hsetup]
    rfl

/-- **How a task goes on,** if it does. -/
theorem conduct_of_goesOn (he : goesOn e = true) (now : Instant) (r : RunningServer) :
    Conduct now e r := by
  cases e with
  | decode => exact conduct_decode now r
  | resumeDecoding => exact conduct_resumeDecoding now r
  | beginRound order => exact conduct_beginRound order now r
  | resumeRound => exact conduct_resumeRound now r
  | resumeSetup position => exact conduct_resumeSetup position now r
  | _ => cases he

/-- A task that goes on makes progress. -/
theorem progress_of_goesOn (he : goesOn e = true) (now : Instant) (r : RunningServer) :
    Progress now e r (r.step now e) (r.part? now e) := by
  cases conduct_of_goesOn he now r with
  | idle hserver htasks hpart =>
    rw [hpart]
    exact .quiet (hserver ▸ .refl _) htasks
  | @go l before s others hengaged hpart hserver hbefore hafter =>
    have hready : Quiet r.server s ∧ (l = before ∧ s = r.server ∨ before = [] ∧ Begins e r s l) := by
      cases hengaged with
      | decode =>
        exact ⟨quiet_aside ⟨rfl, rfl, rfl, rfl, rfl, rfl, rfl, rfl⟩ rfl, .inr ⟨rfl, .arrival rfl rfl⟩⟩
      | round order => exact ⟨.refl _, .inr ⟨rfl, .round rfl rfl⟩⟩
      | resume => exact ⟨.refl _, .inl ⟨rfl, rfl⟩⟩
    rw [hpart]
    exact .go hready.1.changesQuietly (.inr hready.1) hserver hbefore hready.2 hafter

/-! ### Setting up -/

/-- What is left to be done for a new circuit once its request is taken in. -/
theorem eq_of_establish {h : Handshake} {session : Session} {acks : List Octets} {position : Nat}
    (hestablish : (r.server.decided position).establish h session now = (.ok (acks, l), s)) :
    s.circuits.length = r.server.circuits.length + 1 ∧ ∃ kept : List Octets,
      l = .announce r.server.circuits.length :: kept.map (.replay r.server.circuits.length ·) := by
  rw [establish] at hestablish
  split at hestablish
  · cases hestablish
  · rename_i c forest hopened
    have hlength := (r.server.decided position).length_install h.address c forest
    dsimp only at hestablish
    split at hestablish
    · cases hestablish
    · cases hestablish
      exact ⟨(List.length_set ..).trans hlength, _, rfl⟩

/-- A decision makes progress, by a task of its own or at once. -/
theorem progress_authorize (position : Nat) (result : Authorization) (now : Instant)
    (r : RunningServer) :
    Progress now (.authorize position result) r (r.step now (.authorize position result))
      (r.part? now (.authorize position result)) := by
  cases hposition : r.server.authorizing[position]? with
  | none =>
    have hpart : r.part? now (.authorize position result) = none := by
      cases result with
      | granted session => rw [part?, hposition]
      | denied => rfl
    rw [hpart, step_authorize_of_none hposition]
    exact .quiet (.refl _) rfl
  | some h =>
    rw [step_authorize_of_some hposition]
    cases result with
    | denied =>
      refine .stay ⟨[], Chain.single (.deny hposition), rfl, fun id c hid hc ↦ ?_⟩ (.inl trivial) rfl
      exact absurd (lt_length_of_circuit? hc) (Nat.not_lt.2 hid)
    | granted session =>
      have hquiet : ChangesQuietly r.server _ := changesQuietly_establish hposition session now
      -- a fault, then nothing to be sent, then something to be waited for
      match hestablish : (r.server.decided position).establish h session now with
      | (.error fault, s) =>
        rw [hestablish] at hquiet
        simp only [part?, hposition, conclude, hestablish]
        exact .stay hquiet (.inl trivial) rfl
      | (.ok ([], rest), s) =>
        rw [hestablish] at hquiet
        obtain ⟨hlength, kept, rfl⟩ := eq_of_establish hestablish
        simp only [part?, hposition, conclude, hestablish]
        exact .go hquiet (.inl trivial) (server_settled ..) (.inr ⟨rfl, List.Perm.refl _⟩)
          (.inr ⟨rfl, .setup (k := []) kept (fun a ha ↦ absurd ha List.not_mem_nil) hlength⟩)
          (tasks_settled ..)
      | (.ok (d :: acks, rest), s) =>
        rw [hestablish] at hquiet
        obtain ⟨hlength, kept, rfl⟩ := eq_of_establish hestablish
        simp only [part?, hposition, conclude, hestablish]
        exact .begin hquiet trivial (.setup kept (fun a ↦ Action.isSend_of_mem_sendAll) hlength)
          (List.perm_append_singleton _ (r.decoding.rest :: r.rounds.rest :: r.setups))

/-! ### Steps that are done at once -/

/-- The step is done at once: no task is further on after it. -/
def atOnce : Step → Bool
  | .authorize .. => false
  | e => !goesOn e

/-- What a step that is done at once makes of the server. -/
inductive Incident (now : Instant) (s : Server) : Step → Server → Prop
  | nothing {e : Step} : Incident now s e s
  | arrive {source : Address} {datagram : Octets} :
    Incident now s (.arrive source datagram) (s.arrive source datagram)
  | closeSilent {position : Nat} : Incident now s (.closeSilent position) (s.closeSilentAt position)
  | beginNotice {notice : Option Notice} {s' : Server} (h : s.beginNotice now = some (notice, s')) :
    Incident now s .beginNotice s'
  | endNotice {position : Nat} (notice : Notice) :
    Incident now s (.endNotice position) (s.endNotice notice)
  | stopWorkers : Incident now s .stopWorkers { s with notices := s.notices.stopIdle }
  | send {agent : Uuid} {category : Category} {m : Message} {reliable notify : Bool} :
    Incident now s (.send agent category m reliable notify)
      ((s.send agent category m reliable notify).toOption.getD s)
  | close {agent : Uuid} {reason : CloseReason} :
    Incident now s (.close agent reason) (s.close agent reason).2
  | pause {agent : Uuid} : Incident now s (.pause agent) (s.pause agent).2
  | resume {agent : Uuid} : Incident now s (.resume agent) (s.resume agent).2
  | shutdown : Incident now s .shutdown s.shutdown

/-- What is done at once leaves all tasks where they are. -/
theorem incident_of_atOnce (he : atOnce e = true) (now : Instant) (r : RunningServer) :
    Incident now r.server e (r.step now e).server ∧ (r.step now e).tasks = r.tasks ∧
      r.part? now e = none := by
  cases e with
  | arrive source datagram =>
    rw [step, RunningServer.arrive]
    split
    · exact ⟨.arrive, rfl, rfl⟩
    · exact ⟨.nothing, rfl, rfl⟩
  | stopReceiving => exact ⟨.nothing, rfl, rfl⟩
  | stopDecoding =>
    rw [step, stopDecoding]
    split
    · rename_i hidle
      exact ⟨.nothing, by rw [tasks, tasks, hidle.1]; rfl, rfl⟩
    · exact ⟨.nothing, rfl, rfl⟩
  | closeSilent position => exact ⟨.closeSilent, rfl, rfl⟩
  | beginNotice =>
    rw [step, RunningServer.beginNotice]
    split
    · exact ⟨.nothing, rfl, rfl⟩
    · exact ⟨.beginNotice ‹_›, rfl, rfl⟩
  | endNotice position =>
    rw [step, RunningServer.endNotice]
    split
    · exact ⟨.nothing, rfl, rfl⟩
    · exact ⟨.endNotice _, rfl, rfl⟩
  | stopWorkers =>
    rw [step, RunningServer.stopWorkers]
    split
    · exact ⟨.stopWorkers, rfl, rfl⟩
    · exact ⟨.nothing, rfl, rfl⟩
  | send agent category m reliable notify => exact ⟨.send, rfl, rfl⟩
  | close agent reason => exact ⟨.close, rfl, rfl⟩
  | pause agent => exact ⟨.pause, rfl, rfl⟩
  | resume agent => exact ⟨.resume, rfl, rfl⟩
  | shutdown => exact ⟨.shutdown, rfl, rfl⟩
  | authorize | decode | resumeDecoding | resumeSetup | beginRound | resumeRound => cases he

/-- A step that is done at once is quiet. -/
theorem Incident.quiet {s' : Server} (h : Incident now s e s') : Quiet s s' := by
  cases h with
  | nothing => exact .refl _
  | arrive => exact quiet_arrive _ _ s
  | closeSilent => exact quiet_closeSilentAt _ s
  | beginNotice h => exact quiet_beginNotice h
  | endNotice => exact quiet_aside (sameRegistry_endNotice _ s) (effects_endNotice ..)
  | stopWorkers => exact quiet_aside ⟨rfl, rfl, rfl, rfl, rfl, rfl, rfl, rfl⟩ rfl
  | send => exact quiet_send _ _ _ _ _ s
  | close => exact quiet_close _ _ s
  | pause | resume =>
    exact quiet_changePhase (fun c ↦ Circuit.standing_transition (by decide) (by decide) c) _ s
  | shutdown => exact quiet_aside ⟨rfl, rfl, rfl, rfl, rfl, rfl, rfl, rfl⟩ rfl

/-- What is done at once is progress without a task. -/
theorem progress_of_atOnce (he : atOnce e = true) (now : Instant) (r : RunningServer) :
    Progress now e r (r.step now e) (r.part? now e) := by
  obtain ⟨hincident, htasks, hpart⟩ := incident_of_atOnce he now r
  rw [hpart]
  exact .quiet hincident.quiet htasks

/-! ### Steps -/

/-- **What a step does:** it leaves the tasks where they are, makes one begin and wait, or goes on
with one. -/
theorem progress_of_step (now : Instant) (e : Step) (r : RunningServer) :
    Progress now e r (r.step now e) (r.part? now e) := by
  cases e with
  | authorize position result => exact progress_authorize position result now r
  | decode | resumeDecoding | resumeSetup | beginRound | resumeRound =>
    exact progress_of_goesOn rfl now r
  | _ => exact progress_of_atOnce rfl now r

/-- **A step makes changes,** one after another. -/
theorem chain_of_step (now : Instant) (e : Step) (r : RunningServer) :
    ∃ k, Chain Change r.server k (r.step now e).server := by
  have hprogress := progress_of_step now e r
  generalize r.part? now e = part at hprogress
  cases hprogress with
  | stay h | begin h =>
    obtain ⟨k, hchain, -⟩ := h
    exact ⟨k, hchain⟩
  | @go l before s others h _ hserver =>
    obtain ⟨k, hchain, -⟩ := h
    obtain ⟨k', hwork⟩ := work_advance now l s
    rw [hserver]
    exact ⟨k ++ k', hchain.trans (chain_of_work hwork)⟩

/-- A history makes changes. -/
theorem chain_of_run (history : List (Instant × Step)) (r : RunningServer) :
    ∃ k, Chain Change r.server k (r.run history).server := by
  induction history generalizing r with
  | nil => exact ⟨[], Chain.refl⟩
  | cons e history ih =>
    obtain ⟨k, hchain⟩ := chain_of_step e.1 e.2 r
    obtain ⟨k', hchain'⟩ := ih (r.step e.1 e.2)
    exact ⟨k ++ k', hchain.trans hchain'⟩

/-- **A server begins** with one bucket, and with nothing to do. -/
theorem exists_of_create {config : Config} (h : create config now = .ok r) :
    ∃ burst pending notices, Sharded.create config.pendingShards = .ok pending ∧
      r = { server := {
        config, pending, notices, root := 0
        forest := ⟨[Bucket.full [] config.serverRate burst now]⟩ } } := by
  obtain ⟨s, hs, h⟩ := bind_eq_ok_iff.1 h
  obtain rfl := Except.ok.inj h
  obtain ⟨-, -, h⟩ := bind_eq_ok_iff.1 hs
  obtain ⟨-, -, h⟩ := bind_eq_ok_iff.1 h
  obtain ⟨pending, hpending, h⟩ := bind_eq_ok_iff.1 h
  obtain ⟨notices, -, h⟩ := bind_eq_ok_iff.1 h
  obtain rfl := Except.ok.inj h
  rw [Server.start]
  split <;> exact ⟨_, pending, _, mapError_eq_ok_iff.1 hpending, rfl⟩

end RunningServer

end DatagramCircuits
