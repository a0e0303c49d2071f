import DatagramCircuits.Proofs.Watch
/-!
# The watch of a running server

**What a task did is told by its occasions,** the actions that it went through, each with the server in
which it began. They are all that shows in the watch, except that a new circuit comes with nothing known
(`RunningServer.chain_of_task`). A step that is done at once has to do with the watch if it closes a
circuit for its silence, or begins or ends a notice.

**An alarm** is what reaches the outside of this. No task gives one. There are three ways to it
(`RunningServer.alarms_of_step`).
-/

namespace DatagramCircuits

/-- What is known about notices stays, and no circuit is found silent. -/
structure Watch.Steady (w w' : Watch) : Prop where
  config : w'.config = w.config
  closing : ∀ id ∈ w'.closing, id ∈ w.closing
  waiting : w'.notices.waiting = w.notices.waiting
  rejected : w'.rejected = w.rejected
  alerts : w'.alerts = w.alerts

theorem Watch.Steady.refl (w : Watch) : w.Steady w :=
  ⟨rfl, fun _ h ↦ h, rfl, rfl, rfl⟩

/-- All goes by the same settings. -/
structure Watch.Uniform (config : Config) (w : Watch) : Prop where
  settings : w.config = config
  alerts : ∀ a ∈ w.alerts, a.config = config

namespace Server

variable {s : Server} {now : Instant} {c c' : Circuit} {l : List Action}

/-- The actions that are done until the task waits, each with the server in which it begins. -/
def occasions (now : Instant) : List Action → Server → List (Action × Server)
  | [], _ => []
  | a :: rest, s =>
    match s.perform now a with
    | (.finished, s') => (a, s) :: occasions now rest s'
    | _ => [(a, s)]

/-- The occasions of a task are among its actions. -/
theorem mem_of_mem_occasions {x : Action × Server} (hx : x ∈ s.occasions now l) : x.1 ∈ l := by
  induction l generalizing s with
  | nil => cases hx
  | cons a l ih =>
    rw [occasions] at hx
    split at hx
    · obtain rfl | hx := List.mem_cons.1 hx
      · exact List.mem_cons_self
      · exact List.mem_cons_of_mem a (ih hx)
    · rw [List.mem_singleton.1 hx]
      exact List.mem_cons_self

/-- A change of the watch, recorded by the occasion of it. -/
inductive Watches : Server → List (Action × Server) → Server → Prop
  /-- Something that does not show. -/
  | aside {s s' : Server} (h : s'.watch = s.watch) : Watches s [] s'
  /-- A circuit is new. -/
  | enter {s s' : Server}
      (h : s'.watch = { s.watch with alerts := s.watch.alerts ++ [⟨s.config, false, none⟩] }) :
    Watches s [] s'
  /-- An action of a task. -/
  | act (now : Instant) (a : Action) (s : Server) : Watches s [(a, s)] (s.perform now a).2

/-- The occasions of some actions are all that shows of them in the watch. -/
theorem chain_of_advance (now : Instant) (l : List Action) (s : Server) :
    Chain Watches s (s.occasions now l) (s.advance now l).2 := by
  induction l generalizing s with
  | nil => exact .refl
  | cons a l ih =>
    have hact := Watches.act now a s
    rw [occasions, advance]
    rcases heq : s.perform now a with ⟨_ | rest | fault, s₁⟩ <;> rw [heq] at hact
    · exact (Chain.single hact).trans (ih s₁)
    · exact .single hact
    · exact .single hact

/-- A new circuit comes with nothing known about its notices. -/
theorem watches_install {session : Session} {address : Address} {forest : Forest}
    (hopened : Circuit.opened session address s.config s.root now s.forest = .ok (c, forest))
    (halert : c'.alert = c.alert) :
    Watches s [] ((s.install address c forest).2.putCircuit s.circuits.length c') := by
  have hentered : (s.entered address c forest).watch =
      { s.watch with alerts := s.watch.alerts ++ [⟨s.config, false, none⟩] } := by
    rw [← Circuit.alert_of_opened hopened]
    simp only [watch, entered, List.map_append, List.map_singleton]
  refine .enter ((watch_putCircuit (s.circuit?_install_self address c forest) halert).trans ?_)
  rw [install_snd, watch_supersede]
  exact hentered

/-- A request that is granted shows as a new circuit, or not at all. -/
theorem watches_establish (h : Handshake) (session : Session) (now : Instant) (s : Server) :
    Watches s [] (s.establish h session now).2 := by
  rw [establish]
  split
  · exact .aside rfl
  · rename_i c forest hopened
    have halert := c.alert_receive h.packet h.length now
    dsimp only
    split <;> rename_i heq <;> rw [heq] at halert <;> exact watches_install hopened halert

end Server

/-! ### Settings -/

namespace Watch.Uniform

open Server

variable {config : Config} {w w' : Watch} {s s' : Server} {id : CircuitId} {c : Circuit}
  {k : List (Action × Server)} {a b : Circuit.Alert}

/-- Every circuit has the settings of the server. -/
theorem circuit (h : s.watch.Uniform config) (hid : s.circuit? id = some c) : c.config = config :=
  h.alerts c.alert (List.mem_of_getElem? (getElem?_alerts hid))

/-- Replacing what is known about one circuit keeps the settings uniform. -/
theorem set (h : w.Uniform config) (hsettings : w'.config = w.config)
    (halerts : w'.alerts = w.alerts.set id a) (hb : w.alerts[id]? = some b)
    (ha : a.config = b.config) : w'.Uniform config := by
  refine ⟨hsettings.trans h.settings, fun x hx ↦ ?_⟩
  rcases List.mem_or_eq_of_mem_set (halerts ▸ hx) with hx | rfl
  · exact h.alerts x hx
  · exact ha.trans (h.alerts b (List.mem_of_getElem? hb))

/-- So does the end of a notice. -/
theorem quit (h : w.Uniform config) (id : CircuitId) (hsettings : w'.config = w.config)
    (halerts : w'.alerts = w.alerts.modify id Circuit.Alert.quit) : w'.Uniform config := by
  refine ⟨hsettings.trans h.settings, fun x hx ↦ ?_⟩
  obtain ⟨j, hj⟩ := List.mem_iff_getElem?.1 (halerts ▸ hx)
  rw [List.getElem?_modify] at hj
  obtain ⟨y, hy, rfl⟩ := Option.map_eq_some_iff.1 hj
  have hy := h.alerts y (List.mem_of_getElem? hy)
  split <;> exact hy

/-- So does a visit of a circuit. -/
theorem serve (h : s.watch.Uniform config) (id : CircuitId) (time : Instant) :
    (s.serve id time).2.watch.Uniform config := by
  have hserved := served id time s
  generalize s.attempt? (.serve id time) = attempt, (s.serve id time).2.watch = w at hserved
  cases hserved with
  | nothing => exact h
  | silent => exact ⟨h.settings, h.alerts⟩
  | accepted ha | rejected ha => exact h.set rfl rfl ha rfl

/-- So does everything else that shows in the watch. -/
theorem change (h : s.watch.Uniform config) (hs : Watches s k s') : s'.watch.Uniform config := by
  cases hs with
  | aside hsame => exact hsame ▸ h
  | enter hnew =>
    rw [hnew]
    refine ⟨h.settings, fun a ha ↦ ?_⟩
    rcases List.mem_append.1 ha with ha | ha
    · exact h.alerts a ha
    · rw [List.mem_singleton.1 ha]
      exact h.settings
  | act now a =>
    have hapart (ha : a.round? = none) : (s.perform now a).2.watch.Uniform config :=
      (apart_perform now ha s).1 ▸ h
    cases a with
    | serve id time => exact h.serve id time
    | _ => exact hapart rfl

end Watch.Uniform

namespace RunningServer

open Server

variable {now : Instant} {e : Step} {r : RunningServer} {s s' : Server}

/-- The actions that a step goes through, each with the server in which it begins. -/
def occasions (now : Instant) (e : Step) (r : RunningServer) : List (Action × Server) :=
  match r.part? now e with
  | none => []
  | some (l, s) => s.occasions now l

/-- A request that is decided shows in the watch by what the task goes on to do. -/
theorem chain_authorize (position : Nat) (result : Authorization) (now : Instant)
    (r : RunningServer) : Chain Watches r.server (r.occasions now (.authorize position result))
      (r.step now (.authorize position result)).server := by
  rw [occasions]
  cases hposition : r.server.authorizing[position]? with
  | none =>
    rw [step_authorize_of_none hposition]
    cases result with
    | granted session =>
      rw [part?, hposition]
      exact .refl
    | denied => exact .refl
  | some h =>
    rw [step_authorize_of_some hposition, server_settled]
    cases result with
    | denied => exact .single (.aside (watch_count (fun _ ↦ rfl) _))
    | granted session =>
      have hestablish := watches_establish h session now (r.server.decided position)
      have hready : Watches r.server [] (r.server.decided position) := .aside rfl
      have hchain := (Chain.single hready).trans (.single hestablish)
      simp only [part?, hposition, conclude]
      rcases heq : (r.server.decided position).establish h session now with
        ⟨fault | ⟨_ | ⟨d, acks⟩, rest⟩, s⟩ <;> rw [heq] at hchain
      · exact hchain
      · exact hchain.trans (chain_of_advance now rest s)
      · exact hchain

/-- **What a step of a task does to the watch** is what it goes through, and a circuit may be new. -/
theorem chain_of_task (he : atOnce e = false) (now : Instant) (r : RunningServer) :
    Chain Watches r.server (r.occasions now e) (r.step now e).server := by
  have hgoes : ∀ {e : Step}, goesOn e = true →
      Chain Watches r.server (r.occasions now e) (r.step now e).server := by
    intro e he
    cases conduct_of_goesOn he now r with
    | idle hserver _ hpart =>
      rw [occasions, hpart, hserver]
      exact .refl
    | @go l before s others hengaged hpart hserver =>
      have hready : Watches r.server [] s := by
        cases hengaged <;> exact .aside rfl
      rw [occasions, hpart, hserver]
      exact (Chain.single hready).trans (chain_of_advance now l s)
  cases e with
  | authorize position result => exact chain_authorize position result now r
  | decode | resumeDecoding | resumeSetup | beginRound | resumeRound => exact hgoes rfl
  | _ => cases he

/-! ### Steps that are done at once -/

/-- The step has to do with silence or empty queues itself. -/
def isVigil : Step → Bool
  | .closeSilent _ | .beginNotice | .endNotice _ | .stopWorkers | .close _ .timeout => true
  | _ => false

/-- The step begins a notice, or ends one. -/
def seesToNotice : Step → Bool
  | .beginNotice | .endNotice _ => true
  | _ => false

/-- A step that is done at once shows in the watch only if it is about silence or about notices. -/
theorem Incident.watch (h : Incident now s e s') (he : isVigil e = false) : s'.watch = s.watch := by
  cases h with
  | nothing | shutdown => rfl
  | arrive =>
    have hcount : (s.count Counters.countReceived).watch = s.watch := watch_count (fun _ ↦ rfl) s
    rw [Server.arrive]
    split <;> exact hcount
  | closeSilent | beginNotice | endNotice | stopWorkers => cases he
  | @send agent category m reliable notify =>
    rw [Server.send]
    split
    · rfl
    · rename_i id c hof
      cases hsend : c.send category m reliable notify with
      | error e => rfl
      | ok c' => exact watch_putCircuit (circuit?_of_ofAgent? hof) (Circuit.alert_send hsend)
  | @close agent reason =>
    rw [Server.close]
    split
    · rfl
    · refine watch_closeCircuit ?_ _ s
      rintro rfl
      cases he
  | pause => exact watch_changePhase (fun c ↦ c.alert_transition ..) _ s
  | resume => exact watch_changePhase (fun c ↦ c.alert_transition ..) _ s

/-- What does not begin or end a notice leaves all that is known about notices alone, and finds no
circuit silent. -/
theorem Incident.steady (h : Incident now s e s') (he : seesToNotice e = false) :
    s.watch.Steady s'.watch := by
  cases hvigil : isVigil e with
  | false => exact h.watch hvigil ▸ .refl _
  | true =>
    cases h with
    | closeSilent =>
      obtain ⟨k, hk, -⟩ := s.watch_closeSilentAt _
      exact hk ▸ ⟨rfl, fun _ ↦ List.mem_of_mem_eraseIdx, rfl, rfl, rfl⟩
    | stopWorkers => exact ⟨rfl, fun _ h ↦ h, rfl, rfl, rfl⟩
    | @close agent reason =>
      rw [Server.close]
      split
      · exact .refl _
      · rename_i id _
        obtain ⟨k, hk, -⟩ := s.exists_closeCircuit id reason
        exact hk ▸ ⟨rfl, fun _ h ↦ h, rfl, rfl, rfl⟩
    | nothing => exact .refl _
    | beginNotice | endNotice => cases he
    | arrive | send | pause | resume | shutdown => cases hvigil

/-- A step that is done at once keeps the settings uniform. -/
theorem Incident.uniform {config : Config} (h : Incident now s e s')
    (hs : s.watch.Uniform config) : s'.watch.Uniform config := by
  have hsteady (he : seesToNotice e = false) : s'.watch.Uniform config := by
    have hsteady := h.steady he
    exact ⟨hsteady.config.trans hs.settings, hsteady.alerts ▸ hs.alerts⟩
  cases h with
  | nothing => exact hs
  | beginNotice h =>
    obtain ⟨notice, notices, -, ⟨-, hs'⟩ | ⟨-, c, -, -, hs'⟩⟩ := watch_beginNotice h
    · exact hs' ▸ hs.quit notice.circuit rfl rfl
    · exact hs' ▸ ⟨hs.settings, hs.alerts⟩
  | endNotice notice => exact s.watch_endNotice notice ▸ hs.quit notice.circuit rfl rfl
  | _ => exact hsteady rfl

/-- No step that is done at once adds to the circuits that are to be closed for their silence. -/
theorem Incident.closing (h : Incident now s e s') {id : CircuitId} (hid : id ∈ s'.closing) :
    id ∈ s.closing := by
  have hsteady (he : seesToNotice e = false) : id ∈ s.closing := (h.steady he).closing id hid
  have hsame (heq : s'.closing = s.closing) : id ∈ s.closing := heq ▸ hid
  cases h with
  | nothing => exact hid
  | beginNotice h =>
    obtain ⟨notice, notices, -, ⟨-, hs'⟩ | ⟨-, c, -, -, hs'⟩⟩ := watch_beginNotice h <;>
      exact hsame ((congrArg Watch.closing hs').trans rfl)
  | endNotice notice => exact hsame ((congrArg Watch.closing (s.watch_endNotice notice)).trans rfl)
  | _ => exact hsteady rfl

/-- A new server has no circuits yet, so its settings are uniform. -/
theorem uniform_of_create {config : Config} {start : Instant} (h : create config start = .ok r) :
    r.server.watch.Uniform config := by
  obtain ⟨burst, pending, notices, -, rfl⟩ := exists_of_create h
  exact ⟨rfl, fun _ ha ↦ absurd ha List.not_mem_nil⟩

/-! ### Alarms -/

/-- What a step does that gives an alarm. -/
inductive Alarms (now : Instant) (s : Server) : Step → Effect → Prop
  /-- A circuit that was found silent is closed. -/
  | silent {position : Nat} {id : CircuitId} {c : Circuit} (hposition : s.closing[position]? = some id)
      (hid : s.circuit? id = some c) (hopen : c.isClosed = false) :
    Alarms now s (.closeSilent position) (.closed id c.agent c.address .timeout)
  /-- The application closes a circuit, and names silence as its reason. -/
  | close {agent : Uuid} {id : CircuitId} {c : Circuit} (hagent : s.table.byAgent.get? agent = some id)
      (hid : s.circuit? id = some c) (hopen : c.isClosed = false) :
    Alarms now s (.close agent .timeout) (.closed id c.agent c.address .timeout)
  /-- A worker takes a notice, and its circuit is not closed. -/
  | notice {notice : Notice} {notices : Pool Notice} {c : Circuit}
      (htake : s.notices.take? = some (notice, notices)) (hid : s.circuit? notice.circuit = some c)
      (hopen : c.isClosed = false) :
    Alarms now s .beginNotice (.queueEmpty notice.circuit c.agent notice.lanes now)

/-- No task gives an alarm. -/
theorem alarms_of_task (he : atOnce e = false) (now : Instant) (r : RunningServer) :
    (r.step now e).server.watch.alarms = r.server.watch.alarms := by
  refine (chain_of_task he now r).preserves (motive := fun _ s ↦ s.watch.alarms = r.server.watch.alarms)
    (k := []) rfl fun {l k s t} hbefore hstep ↦ Eq.trans ?_ hbefore
  cases hstep with
  | aside h => rw [h]
  | enter h => rw [h]
  | act now a =>
    have hapart (ha : a.round? = none) : (s.perform now a).2.watch.alarms = s.watch.alarms :=
      congrArg Watch.alarms (apart_perform now ha s).1
    cases a with
    | serve id time =>
      have hserved := served id time s
      generalize s.attempt? (.serve id time) = attempt at hserved
      change (s.serve id time).2.watch.alarms = s.watch.alarms
      generalize (s.serve id time).2.watch = w at hserved
      cases hserved <;> rfl
    | _ => exact hapart rfl

/-- The alarms of a step that is done at once are added to the others. -/
theorem Incident.exists_alarms (h : Incident now s e s') :
    ∃ k, s'.watch.alarms = s.watch.alarms ++ k ∧ ∀ x ∈ k, Alarms now s e x := by
  have hsame (he : isVigil e = false) :
      ∃ k, s'.watch.alarms = s.watch.alarms ++ k ∧ ∀ x ∈ k, Alarms now s e x :=
    ⟨[], by rw [h.watch he, List.append_nil], nofun⟩
  cases h with
  | nothing => exact ⟨[], (List.append_nil _).symm, nofun⟩
  | closeSilent =>
    obtain ⟨k, hk, hclosed⟩ := s.watch_closeSilentAt _
    refine ⟨k, congrArg Watch.alarms hk, fun x hx ↦ ?_⟩
    obtain ⟨id, c, hposition, hid, hopen, rfl⟩ := hclosed x hx
    exact .silent hposition hid hopen
  | beginNotice h =>
    obtain ⟨notice, notices, htake, ⟨-, hs'⟩ | ⟨-, c, hid, hopen, hs'⟩⟩ := watch_beginNotice h
    · exact ⟨[], (congrArg Watch.alarms hs').trans (List.append_nil _).symm, nofun⟩
    · refine ⟨_, congrArg Watch.alarms hs', fun x hx ↦ ?_⟩
      rw [List.mem_singleton.1 hx]
      exact .notice htake hid hopen
  | endNotice notice =>
    exact ⟨[], (congrArg Watch.alarms (s.watch_endNotice notice)).trans (List.append_nil _).symm, nofun⟩
  | stopWorkers => exact ⟨[], (List.append_nil _).symm, nofun⟩
  | @close agent reason =>
    rw [Server.close]
    split
    · exact ⟨[], (List.append_nil _).symm, nofun⟩
    · rename_i id hagent
      obtain ⟨k, hk, hclosed⟩ := s.exists_closeCircuit id reason
      refine ⟨k, congrArg Watch.alarms hk, fun x hx ↦ ?_⟩
      obtain ⟨rfl, c, hid, hopen, rfl⟩ := hclosed x hx
      exact .close hagent hid hopen
  | _ => exact hsame rfl

/-- **What gives an alarm.** -/
theorem alarms_of_step {k : List Effect} {x : Effect}
    (hk : (r.step now e).server.effects = r.server.effects ++ k) (hx : x ∈ k)
    (halarm : x.isAlarm = true) : Alarms now r.server e x := by
  have hmem : x ∈ k.filter Effect.isAlarm := List.mem_filter.2 ⟨hx, halarm⟩
  have halarms : (r.step now e).server.watch.alarms =
      r.server.watch.alarms ++ k.filter Effect.isAlarm := by
    rw [watch, hk, List.filter_append]
    rfl
  cases honce : atOnce e with
  | false =>
    rw [alarms_of_task honce] at halarms
    rw [List.self_eq_append_right.1 halarms] at hmem
    cases hmem
  | true =>
    obtain ⟨k', hk', hgives⟩ := (incident_of_atOnce honce now r).1.exists_alarms
    rw [List.append_cancel_left (halarms.symm.trans hk')] at hmem
    exact hgives x hmem

end RunningServer

end DatagramCircuits
