import DatagramCircuits.Proofs.Alarms
import DatagramCircuits.Proofs.Shelter
/-!
# Closing silent circuits

Regular work finds a circuit silent for too long, and a task of its own closes it later.

**The finding is sound when it is made** (`Server.FoundSilent`), and nothing but regular work makes one.
**It is not looked at again:** what arrives from the peer until the circuit is closed does not count, nor
does a pause that begins in between (`RunningServer.closesBusy_of_overtaken`). Where neither happens, the
circuit is silent for too long when it is closed as well, since time goes on
(`RunningServer.timeout_of_run`).

The application may name silence as its reason to close any circuit. The reason is not looked at
(`RunningServer.closesBusy_of_application`).
-/

namespace DatagramCircuits

namespace Config

/-- Under valid settings a paused circuit is given more time. -/
theorem Valid.liveness_le {config : Config} (h : config.Valid) :
    config.liveness ≤ config.pausedLiveness := by
  have hrule := config.valid_iff.1 h
    (.liveness, config.liveness == 0 || decide (config.pausedLiveness < config.liveness)) (by simp [rules])
  rw [Bool.or_eq_false_iff, decide_eq_false_iff_not] at hrule
  exact Nat.not_lt.1 hrule.2

end Config

namespace Circuit

variable {now time : Instant} {c c' : Circuit}

/-- A circuit that was silent for too long still is, if nothing arrived since and no pause began. -/
theorem isTimedOut_mono (h : c.isTimedOut time = true) (htime : time ≤ now)
    (hvalid : c.config.liveness ≤ c.config.pausedLiveness) (hconfig : c'.config = c.config)
    (hreceived : c'.lastReceived = c.lastReceived) (hpaused : c'.phase = .paused → c.phase = .paused) :
    c'.isTimedOut now = true := by
  have hlate : c.livenessTimeout < time - c.lastReceived := of_decide_eq_true h
  have hle : c'.livenessTimeout ≤ c.livenessTimeout := by
    unfold livenessTimeout
    rw [hconfig]
    split
    · rw [if_pos (hpaused ‹_›)]
    · split
      · exact hvalid
      · exact Nat.le_refl _
  have hlonger : time - c.lastReceived ≤ now - c'.lastReceived :=
    hreceived ▸ Nat.sub_le_sub_right htime _
  exact decide_eq_true (Nat.lt_of_le_of_lt hle (Nat.lt_of_lt_of_le hlate hlonger))

end Circuit

namespace Action

variable {now time : Instant} {l : List Action}

/-- The rounds of which these actions are a part began in time. -/
def Past (now : Instant) (l : List Action) : Prop :=
  ∀ a ∈ l, ∀ time, a.round? = some time → time ≤ now

/-- What began in time did so at any later time as well. -/
theorem Past.mono (h : Past time l) (hle : time ≤ now) : Past now l :=
  fun a ha t ht ↦ Nat.le_trans (h a ha t ht) hle

/-- What is no regular work belongs to no round. -/
theorem past_of_none (h : ∀ a ∈ l, a.round? = none) : Past now l :=
  fun a ha _ ht ↦ absurd ((h a ha).symm.trans ht) nofun

end Action

namespace Server

variable {now time : Instant} {s s' : Server} {l : List Action} {a : Action} {id : CircuitId}
  {config : Config} {log k : List (Action × Server)} {c : Circuit} {w w' : Watch} {b : Action}

/-- What follows from an action is not a part of a round. -/
theorem round?_of_perform (ha : a ∈ (s.perform now b).1.rest) : a.round? = none := by
  cases b with
  | serve id time => exact Action.round?_of_isSend (isSend_of_serve ha)
  | _ => exact (apart_perform now rfl s).2 a ha

/-- What is left of a task belongs to no other rounds than the task did. -/
theorem past_rest (h : Action.Past time l) (now : Instant) (s : Server) :
    Action.Past time (s.advance now l).1.rest := by
  induction l generalizing s with
  | nil => exact fun _ ha ↦ absurd ha List.not_mem_nil
  | cons b l ih =>
    have hrest : Action.Past time l := fun a ha ↦ h a (List.mem_cons_of_mem b ha)
    rw [advance]
    rcases heq : s.perform now b with ⟨_ | first | fault, s'⟩
    · exact ih hrest s'
    · intro a ha t ht
      rcases List.mem_append.1 ha with ha | ha
      · have hfirst : a ∈ (s.perform now b).1.rest := heq ▸ ha
        cases (round?_of_perform hfirst).symm.trans ht
      · exact hrest a ha t ht
    · exact fun _ ha ↦ absurd ha List.not_mem_nil

/-- Regular work found the circuit silent for too long, in the state that it was in. -/
def FoundSilent (log : List (Action × Server)) (id : CircuitId) (time : Instant) (c : Circuit) : Prop :=
  ∃ s, (.serve id time, s) ∈ log ∧ s.circuit? id = some c ∧ c.isTimedOut time = true

/-- All goes by the same settings, and the circuits that are to be closed for their silence were found
silent. -/
structure Vigilant (config : Config) (log : List (Action × Server)) (w : Watch) : Prop where
  uniform : w.Uniform config
  found : ∀ id ∈ w.closing, ∃ time c, FoundSilent log id time c ∧ c.config = config

/-- A finding stands, whatever happens later. -/
theorem FoundSilent.append (h : FoundSilent log id time c) (k : List (Action × Server)) :
    FoundSilent (log ++ k) id time c := by
  obtain ⟨s, hmem, hs⟩ := h
  exact ⟨s, List.mem_append_left k hmem, hs⟩

/-- So the findings that are acted upon stand as well. -/
theorem Vigilant.append (h : Vigilant config log w) (k : List (Action × Server)) :
    Vigilant config (log ++ k) w := by
  refine ⟨h.uniform, fun id hid ↦ ?_⟩
  obtain ⟨time, c, hfound, hc⟩ := h.found id hid
  exact ⟨time, c, hfound.append k, hc⟩

/-- A visit finds a circuit silent only if it is. -/
theorem Vigilant.serve (h : Vigilant config log s.watch) (id : CircuitId) (time : Instant) :
    Vigilant config (log ++ [(.serve id time, s)]) (s.serve id time).2.watch := by
  have huniform := h.uniform.serve id time
  have hserved := served id time s
  have hlog := (h.append [(.serve id time, s)]).found
  generalize s.attempt? (.serve id time) = attempt, (s.serve id time).2.watch = w at huniform hserved
  refine ⟨huniform, ?_⟩
  cases hserved with
  | nothing | accepted | rejected => exact hlog
  | @silent c hid htimed =>
    intro j hj
    rcases List.mem_append.1 hj with hj | hj
    · exact hlog j hj
    · obtain rfl := List.mem_singleton.1 hj
      exact ⟨time, c, ⟨s, List.mem_append_right _ List.mem_cons_self, hid, htimed⟩,
        h.uniform.circuit hid⟩

/-- Nothing else that shows in the watch finds a circuit silent. -/
theorem Vigilant.change (h : Vigilant config log s.watch) (hs : Watches s k s') :
    Vigilant config (log ++ k) s'.watch := by
  have huniform := h.uniform.change hs
  cases hs with
  | aside hsame => exact hsame ▸ h.append []
  | enter hnew =>
    refine ⟨huniform, ?_⟩
    rw [hnew]
    exact (h.append []).found
  | act now a =>
    have hapart (ha : a.round? = none) :
        Vigilant config (log ++ [(a, s)]) (s.perform now a).2.watch :=
      (apart_perform now ha s).1 ▸ h.append [(a, s)]
    cases a with
    | serve id time => exact h.serve id time
    | _ => exact hapart rfl

end Server

namespace RunningServer

open Server

variable {now bound start : Instant} {e : Step} {r r₀ : RunningServer} {config : Config}
  {log : List (Action × Server)} {history : List (Instant × Step)} {id : CircuitId} {agent : Uuid}
  {address : Address} {reason : CloseReason}

/-! ### What is found in a history -/

/-- A task that is no round begins with no regular work at all. -/
theorem Begins.past {l : List Action} {s : Server} (h : Begins e r s l)
    (he : ∀ order, e ≠ .beginRound order) :
    Action.Past now l := by
  refine Action.past_of_none fun a ha ↦ ?_
  cases h with
  | arrival =>
    rw [List.mem_singleton.1 ha]
    rfl
  | round _ hround => exact absurd hround (he _)
  | setup kept hsends =>
    rcases List.mem_append.1 ha with ha | ha
    · exact Action.round?_of_isSend (hsends a ha)
    · rcases List.mem_cons.1 ha with rfl | ha
      · rfl
      · obtain ⟨d, -, rfl⟩ := List.mem_map.1 ha
        rfl

/-- What a task goes on with belongs to rounds that began by now. -/
theorem past_of_engaged {l before : List Action} {s : Server} (h : ∀ l ∈ r.tasks, Action.Past bound l)
    (hnow : bound ≤ now) (hs : Engaged now r e l s before) : Action.Past now l := by
  cases hs with
  | decode => exact Action.past_of_none fun a ha ↦ by rw [List.mem_singleton.1 ha]; rfl
  | round =>
    intro a ha t ht
    obtain ⟨id, -, rfl⟩ := List.mem_map.1 ha
    obtain rfl := Option.some.inj ht
    exact Nat.le_refl _
  | resume _ hl => exact (h l hl).mono hnow

/-- **The rounds that are gone on with began in time,** if time goes on. -/
theorem past_of_step (h : ∀ l ∈ r.tasks, Action.Past bound l) (hnow : bound ≤ now) (e : Step) :
    (∀ l ∈ (r.step now e).tasks, Action.Past now l) ∧
      ∀ x ∈ r.occasions now e, ∀ time, x.1.round? = some time → time ≤ now := by
  have hold : ∀ l ∈ r.tasks, Action.Past now l := fun l hl ↦ (h l hl).mono hnow
  have hnil : Action.Past now [] := fun _ ha ↦ absurd ha List.not_mem_nil
  -- a task that goes on is told by its part of the step
  have hpart {l : List Action} {s : Server} (heq : r.part? now e = some (l, s))
      (hl : Action.Past now l) :
      ∀ x ∈ r.occasions now e, ∀ time, x.1.round? = some time → time ≤ now := by
    rw [occasions, heq]
    exact fun x hx ↦ hl x.1 (mem_of_mem_occasions hx)
  have hnone (heq : r.part? now e = none) :
      ∀ x ∈ r.occasions now e, ∀ time, x.1.round? = some time → time ≤ now := by
    rw [occasions, heq]
    exact fun x hx ↦ absurd hx List.not_mem_nil
  cases hgoes : goesOn e with
  | true =>
    cases conduct_of_goesOn hgoes now r with
    | idle _ htasks heq => exact ⟨htasks ▸ hold, hnone heq⟩
    | @go l before s others hengaged heq _ hbefore hafter =>
      have hl := past_of_engaged h hnow hengaged
      exact ⟨(hafter.forall_iff hnil).2 ⟨past_rest hl now s, ((hbefore.forall_iff hnil).1 hold).2⟩,
        hpart heq hl⟩
  | false =>
    have hround : ∀ order, e ≠ .beginRound order := by
      rintro order rfl
      cases hgoes
    have hprogress := progress_of_step now e r
    generalize heq : r.part? now e = part at hprogress
    cases hprogress with
    | stay _ _ htasks => exact ⟨htasks ▸ hold, hnone heq⟩
    | begin _ _ hl htasks =>
      refine ⟨fun k hk ↦ ?_, hnone heq⟩
      rcases List.mem_cons.1 (htasks.mem_iff.1 hk) with rfl | hk
      · exact hl.past hround
      · exact hold k hk
    | @go l before s others _ _ _ hbefore hl hafter =>
      have hothers := (hbefore.forall_iff hnil).1 hold
      have hpast : Action.Past now l := by
        rcases hl with ⟨rfl, -⟩ | ⟨-, hl⟩
        · exact hothers.1
        · exact hl.past hround
      exact ⟨(hafter.forall_iff hnil).2 ⟨past_rest hpast now s, hothers.2⟩, hpart heq hpast⟩

/-- A step that is done at once finds nothing. -/
theorem Incident.vigilant {s s' : Server} (h : Incident now s e s')
    (hs : Vigilant config log s.watch) : Vigilant config log s'.watch :=
  ⟨h.uniform hs.uniform, fun id hid ↦ hs.found id (h.closing hid)⟩

/-- All that is to be closed after a step was found silent by then. -/
theorem vigilant_of_step (h : Vigilant config log r.server.watch) (now : Instant) (e : Step) :
    Vigilant config (log ++ r.occasions now e) (r.step now e).server.watch := by
  cases honce : atOnce e with
  | false =>
    exact (chain_of_task honce now r).preserves
      (motive := fun log s ↦ Vigilant config log s.watch) h fun hbefore hstep ↦ hbefore.change hstep
  | true =>
    obtain ⟨hincident, -, hpart⟩ := incident_of_atOnce honce now r
    rw [occasions, hpart]
    exact hincident.vigilant (h.append [])

/-- **Whoever is to be closed for silence was found silent,** in whatever order things happen. -/
theorem vigilant_of_run (h : Vigilant config log r.server.watch) (history : List (Instant × Step)) :
    Vigilant config (log ++ collect occasions history r) (r.run history).server.watch := by
  induction history generalizing log r with
  | nil => exact (List.append_nil log).symm ▸ h
  | cons x history ih =>
    obtain ⟨now, e⟩ := x
    rw [collect, run_cons, ← List.append_assoc]
    exact ih (vigilant_of_step h now e)

/-- All regular work of a history was done in rounds that began by its end. -/
theorem past_of_run (h : ∀ l ∈ r.tasks, Action.Past bound l)
    (htimes : (bound :: (history.map Prod.fst ++ [now])).Pairwise (· ≤ ·)) :
    ∀ x ∈ collect occasions history r, ∀ time, x.1.round? = some time → time ≤ now := by
  induction history generalizing bound r with
  | nil => exact fun x hx ↦ absurd hx List.not_mem_nil
  | cons y history ih =>
    obtain ⟨t, e⟩ := y
    obtain ⟨hbound, hrest⟩ := List.pairwise_cons.1 htimes
    obtain ⟨htasks, hoccasions⟩ := past_of_step h (hbound t List.mem_cons_self) e
    have hend : t ≤ now := (List.pairwise_cons.1 hrest).1 now List.mem_concat_self
    intro x hx time htime
    rcases List.mem_append.1 hx with hx | hx
    · exact Nat.le_trans (hoccasions x hx time htime) hend
    · exact ih htasks hrest x hx time htime

/-! ### Closing -/

/-- A new server has found nothing yet. -/
theorem vigilant_of_create (h : create config start = .ok r) : Vigilant config [] r.server.watch := by
  refine ⟨uniform_of_create h, ?_⟩
  obtain ⟨burst, pending, notices, -, rfl⟩ := exists_of_create h
  exact fun _ hj ↦ absurd hj List.not_mem_nil

/-- What was found was found in time. -/
theorem past_of_foundSilent (hcreate : create config start = .ok r₀)
    (htimes : (history.map Prod.fst ++ [now]).Pairwise (· ≤ ·)) {time : Instant} {c : Circuit}
    (h : FoundSilent (collect occasions history r₀) id time c) : time ≤ now := by
  have htasks : ∀ l ∈ r₀.tasks, Action.Past 0 l := by
    obtain ⟨burst, pending, notices, -, rfl⟩ := exists_of_create hcreate
    intro l hl
    have hl : l = [] := by simpa [tasks, Loop.rest] using hl
    exact hl ▸ fun _ ha ↦ absurd ha List.not_mem_nil
  obtain ⟨s, hs, -⟩ := h
  exact past_of_run htasks (List.pairwise_cons.2 ⟨fun _ _ ↦ Nat.zero_le _, htimes⟩) _ hs time rfl

/-- **When a circuit is closed for its silence.** The application says so, or regular work found it silent
for too long. It still is, unless something arrived from its peer or a pause began in the meantime. -/
theorem timeout_of_run (hcreate : create config start = .ok r₀)
    (htimes : ((history ++ [(now, e)]).map Prod.fst).Pairwise (· ≤ ·)) {k : List Effect}
    (hk : ((r₀.run history).step now e).server.effects = (r₀.run history).server.effects ++ k)
    (hclosed : .closed id agent address .timeout ∈ k) :
    ∃ c, (r₀.run history).server.circuit? id = some c ∧ c.isClosed = false ∧ c.agent = agent ∧
      c.address = address ∧ (e = .close agent .timeout ∨ (∃ position, e = .closeSilent position) ∧
        ∃ time c₁, FoundSilent (collect occasions history r₀) id time c₁ ∧ time ≤ now ∧
          (c.isTimedOut now = true ∨ c.lastReceived ≠ c₁.lastReceived ∨
            c.phase = .paused ∧ c₁.phase ≠ .paused)) := by
  cases alarms_of_step hk hclosed rfl with
  | @close agent' id c hagent hid hopen =>
    have hsound := sound_of_run (sound_of_create hcreate) history
    obtain ⟨c', hc', -, hkey⟩ := hsound.orderly.enrolled.agents.sound agent' id hagent
    obtain rfl := Option.some.inj (hid.symm.trans hc')
    exact ⟨c, hid, hopen, rfl, rfl, .inl (hkey ▸ rfl)⟩
  | @silent position id c hposition hid hopen =>
    rw [List.map_append] at htimes
    have hvigilant := vigilant_of_run (vigilant_of_create hcreate) history
    obtain ⟨time, c₁, hfound, hconfig₁⟩ := hvigilant.found id (List.mem_of_getElem? hposition)
    have hpast := past_of_foundSilent hcreate htimes hfound
    refine ⟨c, hid, hopen, rfl, rfl, .inr ⟨⟨position, rfl⟩, time, c₁, hfound, hpast, ?_⟩⟩
    have hconfig : c.config = c₁.config := (hvigilant.uniform.circuit hid).trans hconfig₁.symm
    by_cases hreceived : c.lastReceived = c₁.lastReceived
    · by_cases hpaused : c.phase = .paused ∧ c₁.phase ≠ .paused
      · exact .inr (.inr hpaused)
      · obtain ⟨s, -, -, htimed⟩ := hfound
        have hliveness := (valid_of_create hcreate).liveness_le
        exact .inl (Circuit.isTimedOut_mono htimed hpast (hconfig₁ ▸ hliveness) hconfig hreceived
          fun h ↦ not_not.1 fun h₁ ↦ hpaused ⟨h, h₁⟩)
    · exact .inr (.inl hreceived)

/-- A circuit is set up, and nothing is heard from its peer until regular work finds it silent. -/
def fallingSilent : List (Instant × Step) :=
  settingUp 2 (.ofNat 7) ++
    [(0, .resumeSetup 0), (0, .resumeSetup 0), (61 * Span.second, .beginRound [])]

/-- It is closed then. -/
theorem timeout_of_fallingSilent :
    ∃ r₀ c, create {} 0 = .ok r₀ ∧
      ((fallingSilent ++ [(61 * Span.second, Step.closeSilent 0)]).map Prod.fst).Pairwise (· ≤ ·) ∧
      ((r₀.run fallingSilent).step (61 * Span.second) (.closeSilent 0)).server.effects =
        (r₀.run fallingSilent).server.effects ++
          [.closed 0 (.ofNat 7) (.loopback 2) .timeout] ∧
      (r₀.run fallingSilent).server.circuit? 0 = some c ∧
      ∃ time c₁, FoundSilent (collect occasions fallingSilent r₀) 0 time c₁ ∧
        time ≤ 61 * Span.second ∧ (c.isTimedOut (61 * Span.second) = true ∨
          c.lastReceived ≠ c₁.lastReceived ∨ c.phase = .paused ∧ c₁.phase ≠ .paused) := by
  obtain ⟨r₀, hcreate, htest⟩ := exists_eq_ok_of_any (x := create {} 0)
    (p := fun r₀ ↦ decide (
      ((r₀.run fallingSilent).step (61 * Span.second) (.closeSilent 0)).server.effects =
        (r₀.run fallingSilent).server.effects ++
          [.closed 0 (.ofNat 7) (.loopback 2) .timeout])) (by decide +kernel)
  have heffects := of_decide_eq_true htest
  have htimes : ((fallingSilent ++ [(61 * Span.second, Step.closeSilent 0)]).map Prod.fst).Pairwise
      (· ≤ ·) := by decide
  obtain ⟨c, hid, -, -, -, hsaid | ⟨-, hfound⟩⟩ :=
    timeout_of_run hcreate htimes heffects (List.mem_singleton.2 rfl)
  · cases hsaid
  · exact ⟨r₀, c, hcreate, htimes, heffects, hid, hfound⟩

/-- The step closes a circuit for its silence that is not silent for too long. -/
def ClosesBusy (now : Instant) (e : Step) (id : CircuitId) (r : RunningServer) : Prop :=
  ∃ c ∈ r.server.circuit? id, c.isTimedOut now = false ∧
    (r.step now e).server.effects = r.server.effects ++ [.closed id c.agent c.address .timeout]

instance (now : Instant) (e : Step) (id : CircuitId) (r : RunningServer) :
    Decidable (ClosesBusy now e id r) :=
  inferInstanceAs (Decidable (∃ c ∈ r.server.circuit? id, _))

/-- **A circuit that is not silent is closed for its silence** where a datagram of its peer is decoded
after it was found silent, and where the application pauses it then. -/
theorem closesBusy_of_overtaken :
    ∃ r₀, create {} 0 = .ok r₀ ∧
      ClosesBusy (61 * Span.second) (.closeSilent 0) 0 (r₀.run (fallingSilent ++
        [(61 * Span.second, .arrive (.loopback 2) (word 2)), (61 * Span.second, .decode)])) ∧
      ClosesBusy (61 * Span.second) (.closeSilent 0) 0
        (r₀.run (fallingSilent ++ [(61 * Span.second, .pause (.ofNat 7))])) := by
  obtain ⟨r₀, hcreate, htest⟩ := exists_eq_ok_of_any (x := create {} 0)
    (p := fun r₀ ↦ decide (
      ClosesBusy (61 * Span.second) (.closeSilent 0) 0 (r₀.run (fallingSilent ++
        [(61 * Span.second, .arrive (.loopback 2) (word 2)), (61 * Span.second, .decode)])) ∧
      ClosesBusy (61 * Span.second) (.closeSilent 0) 0
        (r₀.run (fallingSilent ++ [(61 * Span.second, .pause (.ofNat 7))])))) (by decide +kernel)
  exact ⟨r₀, hcreate, of_decide_eq_true htest⟩

/-- The application closes a circuit right after its set-up, and names silence as its reason. -/
theorem closesBusy_of_application :
    ∃ r₀, create {} 0 = .ok r₀ ∧
      ClosesBusy 0 (.close (.ofNat 7) .timeout) 0 (r₀.run (settingUp 2 (.ofNat 7))) := by
  obtain ⟨r₀, hcreate, htest⟩ := exists_eq_ok_of_any (x := create {} 0)
    (p := fun r₀ ↦ decide (
      ClosesBusy 0 (.close (.ofNat 7) .timeout) 0 (r₀.run (settingUp 2 (.ofNat 7)))))
    (by decide +kernel)
  exact ⟨r₀, hcreate, of_decide_eq_true htest⟩

end RunningServer

end DatagramCircuits
