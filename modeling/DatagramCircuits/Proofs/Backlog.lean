import DatagramCircuits.Proofs.Retransmissions
/-!
# The backlog is bounded

Datagrams that were sent and are not acknowledged make up the **backlog** of a circuit. A first
transmission may add one to it, and nothing else does (`Circuit.Books.backlog_of_move`): a datagram that
is sent again takes the place that it had. Only ticks send. A tick that stalls sends nothing for the first
time, if no message was sent under the lane of resent datagrams; another tick finds no more than the mark
of the configuration and adds one datagram of each ordinary lane at most. So **the backlog never exceeds
the mark by more than the number of the ordinary lanes** (`Circuit.contained_of_lived`), whatever happens
in whatever order. In `Circuit.contained_of_filling` it gets there.
-/

namespace DatagramCircuits

namespace Tracker

variable {e x : Tracked} {l : List Tracked}

theorem length_insert_le (h : Ordered l) (e : Tracked) : (insert e l).length ≤ l.length + 1 := by
  rw [(insert_perm e h).length_eq, List.length_cons]
  exact Nat.succ_le_succ (List.length_filter_le ..)

/-- An entry takes the place of the one with its number. -/
theorem length_insert_of_mem (h : Ordered l) (hx : x ∈ l) (heq : x.sequence = e.sequence) :
    (insert e l).length = l.length := by
  rw [(insert_perm e h).length_eq, (perm_cons_filter_ne h hx).length_eq, heq]
  rfl

end Tracker

namespace Circuit

variable {P : Message → Prop} {config : Config} {l k : List Event} {c c' : Circuit} {now : Instant}
  {f f' : Forest} {t : Turn} {o : Operation} {answer : Answer}

/-- How many datagrams were sent and are not acknowledged. -/
def backlog (c : Circuit) : Nat :=
  c.tracker.unacked.length

/-! ### Moves -/

/-- A transmission adds to the backlog only if it is new. -/
theorem Books.backlog_of_transmit (h : Books P config l c) {lane : Lane} {p : Outgoing} {q : LaneQueue}
    {d : Octets} (htake : (c.queues.get lane).take? c.isUseful = (some p, q))
    (hsent : { c with queues := c.queues.set lane q }.transmit p now = .ok (d, c')) :
    c'.backlog ≤ c.backlog + (newlySent [.transmitted p d now]).length := by
  rw [newlySent_transmitted]
  obtain ⟨m, reliable, piece, k, bytes, -, -, -, -, ⟨h0, -, rfl⟩ | ⟨-, e, retries, he, -, -, rfl⟩⟩ :=
    transmit_cases (c := { c with queues := c.queues.set lane q })
      (h.queues lane p (mem_of_take? htake).1).carries (LaneQueue.take?_eq_some htake).1 hsent
  · have hnew : p.isNew = true := beq_iff_eq.2 h0
    rw [List.filter_singleton, hnew]
    cases reliable with
    | true => exact Tracker.length_insert_le h.ordered _
    | false => exact Nat.le_succ _
  · obtain ⟨hmem, -⟩ := Tracker.mem_of_find? he
    have hsame := Tracker.length_insert_of_mem (e := resentEntry e retries now) h.ordered hmem rfl
    exact Nat.le_add_right_of_le (Nat.le_of_eq hsame)

/-- The service of the queues adds no more than it newly sends. -/
theorem Books.backlog_of_service (h : Books P config l c) (hs : Service now c k c') :
    c'.backlog ≤ c.backlog + (newlySent k).length := by
  cases hs with
  | quiet hq => exact Nat.le_add_right_of_le (Nat.le_of_eq (congrArg List.length hq.sameBooks.unacked))
  | discard | holdBack => exact Nat.le_refl _
  | transmit htake hsent => exact h.backlog_of_transmit htake hsent

/-- **Nothing but a first transmission adds to the backlog.** -/
theorem Books.backlog_of_move (h : Books P config l c) (hm : Move P c k c') :
    c'.backlog ≤ c.backlog + (newlySent k).length := by
  cases hm with
  | service hs => exact h.backlog_of_service hs
  | arrival ha => exact Nat.le_add_right_of_le (Nat.le_of_eq (congrArg List.length ha.sameBooks.unacked))
  | queue | sample => exact Nat.le_refl _
  | acknowledge _ n now =>
    obtain ⟨r, hr, -⟩ := Tracker.acknowledge_snd n now c.tracker
    rw [backlog, hr]
    exact Nat.le_add_right_of_le (List.length_filter_le ..)
  | outdate _ now =>
    rw [dropOutdated]
    split
    · exact Nat.le_add_right ..
    · exact Nat.le_add_right_of_le (List.length_filter_le ..)
  | expire _ now =>
    obtain ⟨-, q, hq, -⟩ := collectExpired_eq now h.ordered rfl
    rw [backlog, hq, List.length_map]
    exact Nat.le_add_right_of_le (List.length_filter_le ..)
  | close => exact Nat.zero_le _

/-- A chain of moves adds at most one datagram for each number it sends for the first time. -/
theorem Traced.backlog_of_chain (h : Traced P config l c) (hchain : Chain (Move P) c k c') :
    c'.backlog ≤ c.backlog + (newlySent k).length := by
  have hboth := hchain.preserves (k := [])
    (motive := fun k c' ↦ Books P config (l ++ k) c' ∧ c'.backlog ≤ c.backlog + (newlySent k).length)
    ⟨(List.append_nil l).symm ▸ h.books, Nat.le_refl _⟩ fun {k₁ k₂ c₁ c₂} ⟨hbooks, hle⟩ hm ↦ by
      refine ⟨List.append_assoc l k₁ k₂ ▸ hbooks.move hm, ?_⟩
      have hnext := hbooks.backlog_of_move hm
      rw [newlySent_append, List.length_append]
      omega
  exact hboth.2

/-! ### Ticks -/

/-- A round sends no more datagrams than there are lanes. -/
theorem length_of_round {lanes : List Lane} {t' : Turn} (h : Turn.Round now lanes t t')
    (hlog : t'.log = t.log ++ k) : (newlySent k).length ≤ lanes.length := by
  obtain ⟨sent, hsent, -, hlog'⟩ := h.sent
  obtain rfl := List.append_cancel_left (hlog.symm.trans hlog')
  calc (newlySent (sent.map fun s ↦ .transmitted s.1 s.2 now)).length
      ≤ (sent.map Prod.fst).length := by
        rw [newlySent, transmissions_map_transmitted]
        exact List.length_filter_le ..
    _ ≤ (t.bids now lanes).length := by
        rw [hsent, List.length_map]
        exact List.length_filter_le ..
    _ ≤ lanes.length := by
        have hlength := h.ordered.length_le
        rwa [List.length_map] at hlength

/-- **A tick** adds nothing if it stalls. Otherwise it finds no more than the mark, and each ordinary lane
adds one datagram at most. -/
theorem backlog_of_tick (h : Traced P config l c) (ht : c.tick now f = .ok t)
    (hqueued : ∀ p ∈ queued l, p.category ≠ .throttled .resend) :
    t.circuit.backlog ≤ max c.backlog (config.highWater + Lane.ordinary.length) := by
  cases hclosed : c.isClosed with
  | true =>
    rw [tick_of_isClosed ht hclosed]
    exact Nat.le_max_left ..
  | false =>
    have hcases := tick_cases ht hclosed
    cases hstalled : t.output.stalled with
    | true =>
      have hle := h.backlog_of_chain (chain_of_tick ht)
      rw [newlySent_of_stalled h ht hstalled hqueued] at hle
      exact Nat.le_trans hle (Nat.le_max_left ..)
    | false =>
      obtain ⟨t₁, hresends, ⟨-, rfl⟩ | ⟨hfew, t₂, hordinary, rfl⟩⟩ := hcases
      · cases hstalled
      · have htraced := h.resends hresends
        have hmark : t₁.circuit.backlog ≤ config.highWater := by
          rw [← htraced.books.config_eq]
          exact Nat.le_of_not_lt (of_decide_eq_false hfew)
        have hlanes : ∀ lane ∈ Lane.ordinary, lane ≠ .resend := by decide
        have hround := Turn.round_of_foldlM hordinary (by decide) hlanes fun lane hlane ↦
          htraced.books.isNew_of_ordinary (hlanes lane hlane)
        obtain ⟨⟨k, hchain, hlog, -⟩, -, -⟩ := Turn.serves_of_foldlM hordinary
        have hadded := htraced.backlog_of_chain (hchain.mono .service)
        have hfewer := length_of_round hround hlog
        have htotal : t₂.circuit.backlog ≤ config.highWater + Lane.ordinary.length := by omega
        exact Nat.le_trans htotal (Nat.le_max_right ..)

/-! ### Lives -/

/-- Nothing but a tick adds to the backlog. -/
theorem backlog_of_apply (h : Traced P config l c) (hP : o.QueuesOnly P) (ho : ∀ now, o ≠ .tick now)
    (happly : c.apply o f = .ok (answer, c', f')) : c'.backlog ≤ c.backlog := by
  have hle := h.backlog_of_chain (moves_of_apply hP happly)
  rwa [newlySent_eq_nil (transmissions_events ho c f)] at hle

/-- The backlog is bounded by the mark and the number of the ordinary lanes. There is none in a closed
circuit. -/
structure Contained (config : Config) (c : Circuit) : Prop where
  bounded : c.backlog ≤ config.highWater + 6
  closed : c.isClosed = true → c.backlog = 0

/-- A tick keeps the backlog contained. -/
theorem Contained.tick (hc : Contained config c) (h : Traced P config l c) (ht : c.tick now f = .ok t)
    (hqueued : ∀ p ∈ queued l, p.category ≠ .throttled .resend) : Contained config t.circuit where
  bounded :=
    Nat.le_trans (backlog_of_tick h ht hqueued) (Nat.max_le.2 ⟨hc.bounded, Nat.le_refl _⟩)
  closed hclosed := by
    rw [isClosed_of_tick ht] at hclosed
    rw [tick_of_isClosed ht hclosed]
    exact hc.closed hclosed

/-- **Every operation keeps the bound,** if nothing was queued in the lane of resent datagrams before. -/
theorem Contained.apply (hc : Contained config c) (h : Traced P config l c) (hP : o.QueuesOnly P)
    (happly : c.apply o f = .ok (answer, c', f'))
    (hqueued : ∀ p ∈ queued l, p.category ≠ .throttled .resend) : Contained config c' := by
  by_cases htick : ∃ now, o = .tick now
  · obtain ⟨now, rfl⟩ := htick
    obtain ⟨t, ht, rfl, rfl, rfl⟩ := eq_of_apply_tick happly
    exact hc.tick h ht hqueued
  · have hle := backlog_of_apply h hP (fun now heq ↦ htick ⟨now, heq⟩) happly
    refine ⟨Nat.le_trans hle hc.bounded, fun hclosed ↦ ?_⟩
    cases hwas : c.isClosed with
    | true =>
      rw [hc.closed hwas] at hle
      exact Nat.le_zero.1 hle
    | false =>
      -- nothing but closing it closes a circuit
      obtain rfl : o = .close := by
        by_contra hother
        rw [isClosed_of_apply hother happly, hwas] at hclosed
        cases hclosed
      rw [apply_close, close_of_open hwas] at happly
      obtain ⟨-, happly⟩ := Prod.mk.inj (Except.ok.inj happly)
      rw [← (Prod.mk.inj happly).1]
      rfl

/-- A history that queues nothing in that lane keeps the bound. -/
theorem Contained.chronicle {ops : List (Operation × Forest)} {moments : List Moment}
    (hc : Contained config c) (h : Traced P config l c)
    (hP : ∀ o ∈ ops, Operation.QueuesOnly P (Prod.fst o))
    (hops : Circuit.chronicle ops c = .ok (moments, c'))
    (hqueued : ∀ p ∈ queued (l ++ history moments), p.category ≠ .throttled .resend) :
    Contained config c' := by
  induction ops generalizing l c moments with
  | nil =>
    obtain ⟨-, rfl⟩ := Prod.mk.inj (Except.ok.inj hops)
    exact hc
  | cons o ops ih =>
    obtain ⟨answer, next, forest, moments', ho, hrest, rfl⟩ := chronicle_cons_eq_ok hops
    have hfirst := hP o List.mem_cons_self
    have hbefore : ∀ p ∈ queued l, p.category ≠ .throttled .resend := fun p hp ↦ hqueued p (by
      rw [queued_append]
      exact List.mem_append_left _ hp)
    have hnext := hc.apply h hfirst ho hbefore
    rw [history_cons, ← List.append_assoc] at hqueued
    exact ih hnext (h.apply hfirst ho) (fun o' ho' ↦ hP o' (List.mem_cons_of_mem _ ho')) hrest hqueued

/-- **The backlog of a circuit is bounded** in any life in which no message was sent under the lane of
resent datagrams, and a tick stalls exactly if too many datagrams are left in it once that lane is served.
A tick comes to an end, unless the retries of some datagram are used up. -/
theorem contained_of_lived {l : List Moment} (h : Lived (fun _ ↦ True) config l c)
    (hqueued : ∀ p ∈ queued (history l), p.category ≠ .throttled .resend) :
    Contained config c ∧
    (∀ now f, (∃ t, c.tick now f = .ok t) ∨ (c.prepared now f).circuit.Worn) ∧
    ∀ now f t, c.tick now f = .ok t →
      (c.isClosed = true → t.output.stalled = false) ∧
      (c.isClosed = false → ∃ t₁, (c.prepared now f).serveResends now = .ok t₁ ∧
        (t.output.stalled = true ↔ config.highWater < t₁.circuit.backlog)) := by
  have htraced := h.traced
  refine ⟨?_, fun now f ↦ ?_, fun now f t ht ↦ ⟨fun hclosed ↦ ?_, fun hopen ↦ ?_⟩⟩
  · obtain ⟨session, address, root, now, f, ops, hP, hlive⟩ := h
    obtain ⟨c₀, f', hopened, hrun⟩ := live_eq_ok hlive
    have hfresh := fresh_of_opened hopened
    have hnone : c₀.backlog = 0 := congrArg List.length hfresh.unacked
    have hstart : Contained config c₀ := ⟨hnone ▸ Nat.zero_le _, fun _ ↦ hnone⟩
    exact hstart.chronicle (l := []) ⟨c₀, hfresh, Chain.refl⟩ hP hrun hqueued
  · cases hclosed : c.isClosed with
    | true => exact .inl ⟨_, if_pos hclosed⟩
    | false => exact exists_tick htraced hclosed now f
  · rw [tick_of_isClosed ht hclosed]
  · obtain ⟨t₁, hresends, hstalled⟩ := stalled_iff_of_tick ht hopen
    refine ⟨t₁, hresends, ?_⟩
    rw [hstalled, Turn.isStalled, decide_eq_true_eq, (htraced.resends hresends).books.config_eq]
    rfl

/-- A reliable datagram is on its way. Then one of each ordinary lane is sent, and another one has to
wait. -/
def fillingOperations : List (Operation × Forest) :=
  let send (lane : Lane) : Operation :=
    .send (.throttled lane) { id := .high 5, payload := [1, 2, 3] } true false
  ([send .task, .tick (100 * Span.millisecond)] ++ Lane.ordinary.map send ++
    [.tick (200 * Span.millisecond), send .wind]).map
    (·, ⟨List.replicate 9 (.full [] 0 0 0)⟩)

theorem contained_of_filling : ∃ l c t, Lived (fun _ ↦ True) { highWater := 1 } l c ∧
    c.backlog = 1 + 6 ∧ (∀ p ∈ queued (history l), p.category ≠ .throttled .resend) ∧
    c.tick (300 * Span.millisecond) ⟨List.replicate 9 (.full [] 0 0 0)⟩ = .ok t ∧
    t.output.stalled = true ∧ Contained { highWater := 1 } c := by
  obtain ⟨⟨l, c⟩, hlive, htest⟩ := exists_eq_ok_of_any
    (x := live ⟨.ofNat 7, .ofNat 8, 99, none⟩ (.loopback 5) { highWater := 1 } 0 0 {} fillingOperations)
    (p := fun r ↦ decide (r.2.backlog = 1 + 6 ∧
        ∀ p ∈ queued (history r.1), p.category ≠ .throttled .resend) &&
      (r.2.tick (300 * Span.millisecond) ⟨List.replicate 9 (.full [] 0 0 0)⟩).toOption.any
        fun t : Turn ↦ t.output.stalled) (by decide +kernel)
  rw [Bool.and_eq_true] at htest
  obtain ⟨hbacklog, hqueued⟩ := of_decide_eq_true htest.1
  obtain ⟨t, ht, hstalled⟩ := exists_eq_ok_of_any htest.2
  have hlived : Lived (fun _ ↦ True) { highWater := 1 } l c :=
    ⟨_, _, _, _, _, _, by simp [fillingOperations, Operation.QueuesOnly, Lane.ordinary], hlive⟩
  exact ⟨l, c, t, hlived, hbacklog, hqueued, ht, hstalled, (contained_of_lived hlived hqueued).1⟩

end Circuit

end DatagramCircuits
