import DatagramCircuits.Proofs.Instants
import Mathlib.Data.List.Chain
/-!
# Time between transmissions

Between two transmissions of one number passes at least the shortest timeout, in any life in which ticks
come in the order of time and sequence numbers are not used again (`spaced_of_live`). Nothing else matters:
which samples of the round trip came in between, and how long the copy waited for its turn or was held
back.

The invariant is `Paced`. A copy is queued by a look at which the timeout is up, and no timeout is below
the shortest one; it waits as long as its entry says so, and an entry says so only from such a look on.
From then on time only goes by, until the copy is sent.
-/

namespace DatagramCircuits

/-- What is not acknowledged was in the account before. -/
theorem Tracker.mem_of_acknowledgeAll {sequences : List UInt32} {now : Instant} {t : Tracker} {e : Tracked}
    (h : e ∈ (t.acknowledgeAll sequences now).2.unacked) : e ∈ t.unacked := by
  induction sequences generalizing t with
  | nil => exact h
  | cons n rest ih =>
    have hmem : e ∈ (t.acknowledge n now).2.unacked := ih h
    obtain ⟨r, hr, -⟩ := acknowledge_snd n now t
    rw [hr] at hmem
    exact (List.mem_filter.1 hmem).1

namespace Circuit

variable {P : Message → Prop} {config : Config} {l k : List Event} {c c' : Circuit} {n : UInt32}
  {p : Outgoing} {d : Octets} {now clock : Instant} {f f' : Forest} {t : Turn} {gap : Span}

/-- Nothing in the account was sent after `clock`, and where a copy waits, the gap has passed since the
last transmission. -/
def Paced (gap : Span) (clock : Instant) (c : Circuit) : Prop :=
  ∀ e ∈ c.tracker.unacked, ∀ s, e.packet.lastSend = some s →
    s ≤ clock ∧ (e.awaitingResend = true → s + gap ≤ clock)

/-- Between one transmission of a number and the next one passes the gap. -/
def Apart (gap : Span) (l : List Event) : Prop :=
  ∀ n, (times n l).IsChain fun s t ↦ s + gap ≤ t

theorem Paced.later (h : Paced gap clock c) (hnow : clock ≤ now) : Paced gap now c := by
  intro e he s hs
  obtain ⟨hle, hwaits⟩ := h e he s hs
  exact ⟨hle.trans hnow, fun hmark ↦ (hwaits hmark).trans hnow⟩

/-- An account that only got smaller stays paced. -/
theorem Paced.subset (h : Paced gap clock c) (hsub : ∀ e ∈ c'.tracker.unacked, e ∈ c.tracker.unacked) :
    Paced gap clock c' :=
  fun e he ↦ h e (hsub e he)

theorem Apart.append (h : Apart gap l) (hk : transmissions k = []) : Apart gap (l ++ k) := by
  intro n
  rw [times_append, times_eq_nil hk, List.append_nil]
  exact h n

/-- **One transmission more** keeps the distance, if the last one of its number is far enough. -/
theorem Apart.transmitted (h : Apart gap l) (hnumber : Datagram.sequence d = n)
    (hlast : ∀ s ∈ (times n l).getLast?, s + gap ≤ now) : Apart gap (l ++ [.transmitted p d now]) := by
  intro n'
  rw [times_append, times_transmitted]
  split
  · rename_i heq
    obtain rfl : n = n' := hnumber.symm.trans heq
    refine List.isChain_append.2 ⟨h n, List.isChain_singleton _, fun s hs t ht ↦ ?_⟩
    obtain rfl := Option.mem_some_iff.1 ht
    exact hlast s hs
  · rw [List.append_nil]
    exact h n'

/-! ### Ticks -/

/-- **The look** marks an entry only when its timeout is up. -/
theorem Paced.checkResends (h : Paced config.minTimeout now c) (hbooks : Books P config l c)
    (f : Forest) :
    Paced config.minTimeout now (Turn.checkResends now { circuit := c, forest := f }).circuit := by
  rw [Turn.checkResends]
  dsimp only
  split
  · exact h
  have htimer : Books P config l { c with resendDue := now + c.config.resendInterval } := { hbooks with }
  have hpaced : Paced config.minTimeout now { c with resendDue := now + c.config.resendInterval } := h
  generalize { c with resendDue := now + c.config.resendInterval } = c₁ at htimer hpaced
  have hdropped := htimer.outdate now
  have hstill : Paced config.minTimeout now (c₁.dropOutdated now).2 := by
    rw [dropOutdated]
    split
    · exact hpaced
    · exact hpaced.subset fun e he ↦ (List.mem_filter.1 he).1
  generalize (c₁.dropOutdated now).2 = c₂ at hdropped hstill
  obtain ⟨-, q, hsnd, -⟩ := collectExpired_eq now hdropped.ordered rfl
  intro e' he' s hs
  rw [hsnd] at he'
  obtain ⟨e, he, rfl⟩ := List.mem_map.1 he'
  rw [packet_markIf] at hs
  obtain ⟨hle, hwaits⟩ := hstill e (List.mem_filter.1 he).1 s hs
  refine ⟨hle, fun hmark ↦ ?_⟩
  -- the mark is set now, or was set before
  rw [markIf] at hmark
  split at hmark
  · rename_i hexpired
    rw [Tracker.isExpired, hs] at hexpired
    have hup : c₂.tracker.roundTrip.timeout ≤ now - s := by simpa using (Bool.and_eq_true_iff.1 hexpired).2
    exact Nat.add_le_of_le_sub' hle (hdropped.steady.timeout.trans hup)
  · exact hwaits hmark

/-- What is sent again is a copy that waits, so the gap has passed. -/
theorem Paced.gap_of_copy (h : Paced gap now c) (haccounts : Accounts l c) (hdates : Dates l c)
    {e : Tracked} (he : e ∈ c.tracker.unacked)
    (hp : p ∈ (c.queues.get .resend).toList) (hsequence : p.sequence = e.sequence) :
    ∀ s ∈ (times e.sequence l).getLast?, s + gap ≤ now := by
  intro s hs
  have hpos : 0 < c.copies e.sequence := List.countP_pos_iff.2 ⟨p, hp, beq_iff_eq.2 hsequence⟩
  have hmark : e.awaitingResend = true := by
    by_contra hidle
    rw [haccounts.waiting e he, if_neg hidle] at hpos
    exact Nat.lt_irrefl 0 hpos
  exact (h e he s ((hdates.entries e he).last ▸ hs)).2 hmark

/-- **Serving the queues** keeps the distance. -/
theorem paced_service (hpaced : Paced config.minTimeout now c) (hapart : Apart config.minTimeout l)
    (htraced : Traced P config l c) (hbound : (firstTransmissions l).length < sequenceCount)
    (hs : Service now c k c') :
    Paced config.minTimeout now c' ∧ Apart config.minTimeout (l ++ k) := by
  cases hs with
  | quiet hq =>
    refine ⟨hpaced.subset fun e he ↦ ?_, hapart.append hq.transmissions_eq_nil⟩
    rwa [hq.sameBooks.unacked] at he
  | discard | holdBack => exact ⟨hpaced, hapart.append rfl⟩
  | @transmit _ lane p q d htake hsent =>
    have hbooks := htraced.books
    obtain ⟨hp, -⟩ := mem_of_take? htake
    have hwaits := hbooks.queues lane p hp
    -- what is sent now is as late as can be, and no copy of it waits
    have hnew : ∀ s, some now = some s → s ≤ now ∧ (false = true → s + config.minTimeout ≤ now) := by
      intro s hs
      exact ⟨Nat.le_of_eq (Option.some.inj hs).symm, fun hno ↦ nomatch hno⟩
    obtain ⟨m, reliable, piece, i, bytes, -, -, -, -, ⟨-, hd, rfl⟩ | ⟨h0, e, retries, he, -, hd, rfl⟩⟩ :=
      transmit_cases (c := { c with queues := c.queues.set lane q }) hwaits.carries
        (LaneQueue.take?_eq_some htake).1 hsent
    · refine ⟨fun x (hx : x ∈ if reliable then _ else _) ↦ ?_, ?_⟩
      · split at hx
        · rcases Tracker.mem_insert.1 hx with rfl | ⟨hx, -⟩
          · exact hnew
          · exact hpaced x hx
        · exact hpaced x hx
      · refine hapart.transmitted (n := c.nextSequence) (by rw [hd, Datagram.sequence_wire]) ?_
        rw [htraced.times_nextSequence hbound]
        exact fun s hs ↦ nomatch hs
    · obtain ⟨hmem, hsequence⟩ := Tracker.mem_of_find? he
      obtain rfl := (hwaits.again h0).1
      refine ⟨fun x hx ↦ ?_, ?_⟩
      · rcases Tracker.mem_insert.1 hx with rfl | ⟨hx, -⟩
        · exact hnew
        · exact hpaced x hx
      · refine hapart.transmitted (n := e.sequence) (by rw [hd, Datagram.sequence_wire, hsequence]) ?_
        exact hpaced.gap_of_copy (htraced.accounts hbound) (htraced.dates hbound) hmem hp hsequence.symm

/-- **A tick** keeps the distance. -/
theorem paced_tick (hpaced : Paced config.minTimeout now c) (hapart : Apart config.minTimeout l)
    (htraced : Traced P config l c) (ht : c.tick now f = .ok t)
    (hbound : (firstTransmissions (l ++ t.log)).length < sequenceCount) :
    Paced config.minTimeout now t.circuit ∧ Apart config.minTimeout (l ++ t.log) := by
  cases hclosed : c.isClosed with
  | true =>
    rw [tick_of_isClosed ht hclosed]
    exact ⟨hpaced, hapart.append rfl⟩
  | false =>
    obtain ⟨⟨k, hchain, hlog, -⟩, -, -⟩ := serves_of_tick ht hclosed
    have hlooked := hpaced.checkResends htraced.books f
    have hsilent : transmissions (Turn.checkResends now { circuit := c, forest := f }).log = [] := by
      obtain ⟨-, dropped, handed, hnone⟩ := silent_checkResends now c f
      rw [hnone, transmissions_append]
      exact List.append_eq_nil_iff.2
        ⟨filterMap_map_eq_nil (fun _ ↦ rfl) _, filterMap_map_eq_nil (fun _ ↦ rfl) _⟩
    obtain ⟨c₀, hfresh, hfirst⟩ := htraced
    have hlook := hfirst.trans (chain_checkResends (P := P) now c f)
    generalize Turn.checkResends now { circuit := c, forest := f } = look at hchain hlog hlooked hsilent hlook
    rw [hlog, ← List.append_assoc] at hbound ⊢
    -- along the moves of service, all of them at the instant of the tick
    have hserved := hchain.preserves (k := l ++ look.log) (motive := fun l c ↦ Traced P config l c ∧
      ((firstTransmissions l).length < sequenceCount →
        Paced config.minTimeout now c ∧ Apart config.minTimeout l))
      ⟨⟨c₀, hfresh, hlook⟩, fun _ ↦ ⟨hlooked, hapart.append hsilent⟩⟩ ?_
    · exact hserved.2 hbound
    · rintro l' k' x y ⟨⟨c₁, hfresh₁, hbefore⟩, hboth⟩ hs
      refine ⟨⟨c₁, hfresh₁, hbefore.tail (.service hs)⟩, fun hlonger ↦ ?_⟩
      have hshorter := Nat.lt_of_le_of_lt (length_firstTransmissions_le l' k') hlonger
      obtain ⟨hx, hl'⟩ := hboth hshorter
      exact paced_service hx hl' ⟨c₁, hfresh₁, hbefore⟩ hshorter hs

/-! ### Lives -/

theorem mem_unacked_receive (p : Packet) (length : Nat) (now : Instant) (c : Circuit) :
    ∀ e ∈ (c.receive p length now).2.tracker.unacked, e ∈ c.tracker.unacked := by
  rw [receive]
  split
  · exact fun e he ↦ he
  split
  · rw [receiveReliable]
    split
    · exact fun e he ↦ Tracker.mem_of_acknowledgeAll he
    · rename_i t ht
      obtain ⟨bytes, -, ht⟩ := bind_eq_ok_iff.1 ht
      obtain rfl := Except.ok.inj ht
      dsimp only
      split <;> exact fun e he ↦ Tracker.mem_of_acknowledgeAll he
  · exact fun e he ↦ Tracker.mem_of_acknowledgeAll he

/-- **Nothing but a tick puts entries into the account,** or marks any. -/
theorem mem_unacked_of_apply {o : Operation} {answer : Answer} (ho : ∀ now, o ≠ .tick now)
    (h : c.apply o f = .ok (answer, c', f')) : ∀ e ∈ c'.tracker.unacked, e ∈ c.tracker.unacked := by
  -- most operations leave the account alone, and the others take entries out of it
  cases o with
  | send category m reliable notify =>
    cases h
    cases hs : c.send category m reliable notify with
    | error e => exact fun e he ↦ he
    | ok next =>
      obtain ⟨queues, rfl⟩ := exists_queues_of_send hs
      exact fun e he ↦ he
  | enqueue p =>
    cases h
    rw [enqueue]
    split
    · exact fun e he ↦ he
    · split <;> exact fun e he ↦ he
  | tick now => exact absurd rfl (ho now)
  | receive p length now =>
    obtain ⟨disposition, -, h⟩ := bind_eq_ok_iff.1 h
    cases h
    exact mem_unacked_receive p length now c
  | acknowledge sequences now =>
    cases h
    exact fun e he ↦ Tracker.mem_of_acknowledgeAll he
  | flushAcks =>
    cases h
    have hbooks := (chain_ackDatagrams c).preserves (k := [])
      (motive := fun _ x ↦ x.tracker.unacked = c.tracker.unacked) rfl
      fun hx hq ↦ hq.sameBooks.unacked.trans hx
    exact fun e he ↦ hbooks ▸ he
  | ping now =>
    cases h
    have hsame := (quiet_nextPingDatagram c now).sameBooks.unacked
    rw [ping]
    split <;> rename_i heq <;> rw [heq] at hsame <;> exact fun e he ↦ hsame ▸ he
  | answerPing id => rw [eq_of_apply_answerPing h]; exact fun e he ↦ he
  | takePong id now =>
    cases h
    rw [takePong]
    split
    · split <;> exact fun e he ↦ he
    · exact fun e he ↦ he
  | renegotiate requested now =>
    obtain ⟨⟨adjustment, forest⟩, -, h⟩ := bind_eq_ok_iff.1 h
    cases h
    exact fun e he ↦ he
  | connect | pause | resume =>
    cases h
    simp only [connect, pause, resume, transition]
    split <;> exact fun e he ↦ he
  | close =>
    rw [apply_close] at h
    obtain ⟨-, h⟩ := Prod.mk.inj (Except.ok.inj h)
    rw [← (Prod.mk.inj h).1, close]
    split
    · exact fun e he ↦ he
    · exact fun e he ↦ absurd he List.not_mem_nil
  | beginQueueEmpty now =>
    cases h
    unfold beginQueueEmpty
    dsimp only
    split <;> exact fun e he ↦ he
  | endQueueEmpty =>
    cases h
    exact fun e he ↦ he

/-- The instants of the ticks, in order. -/
def tickTimes (ops : List (Operation × Forest)) : List Instant :=
  ops.filterMap fun o ↦ match o.1 with
    | .tick now => some now
    | _ => none

theorem apart_of_chronicle {ops : List (Operation × Forest)} {moments : List Moment}
    (hpaced : Paced config.minTimeout clock c) (hapart : Apart config.minTimeout l)
    (htraced : Traced P config l c) (hP : ∀ o ∈ ops, Operation.QueuesOnly P (Prod.fst o))
    (hops : chronicle ops c = .ok (moments, c')) (hclock : ∀ now ∈ tickTimes ops, clock ≤ now)
    (htimes : (tickTimes ops).Pairwise (· ≤ ·))
    (hbound : (firstTransmissions (l ++ history moments)).length < sequenceCount) :
    Apart config.minTimeout (l ++ history moments) := by
  induction ops generalizing l c moments clock with
  | nil =>
    obtain ⟨rfl, rfl⟩ := Prod.mk.inj (Except.ok.inj hops)
    exact hapart.append rfl
  | cons o ops ih =>
    obtain ⟨answer, next, forest, moments', ho, hrest, rfl⟩ := chronicle_cons_eq_ok hops
    have hnext := htraced.apply (hP o List.mem_cons_self) ho
    have hP' : ∀ o' ∈ ops, Operation.QueuesOnly P (Prod.fst o') :=
      fun o' ho' ↦ hP o' (List.mem_cons_of_mem _ ho')
    obtain ⟨o, forest'⟩ := o
    rw [history_cons, ← List.append_assoc] at hbound ⊢
    by_cases htick : ∃ now, o = .tick now
    · obtain ⟨now, rfl⟩ := htick
      obtain ⟨t, ht, rfl, rfl, rfl⟩ := eq_of_apply_tick ho
      have hlog : c.events (.tick now) forest' = t.log := by
        simp only [events, ht]
      have htimes' : (now :: tickTimes ops).Pairwise (· ≤ ·) := htimes
      obtain ⟨hlater, hsorted⟩ := List.pairwise_cons.1 htimes'
      have hshorter := Nat.lt_of_le_of_lt (length_firstTransmissions_le _ (history moments')) hbound
      obtain ⟨hpaced', hapart'⟩ := paced_tick (hpaced.later (hclock now List.mem_cons_self)) hapart htraced ht
        (hlog ▸ hshorter)
      exact ih hpaced' (hlog ▸ hapart') hnext hP' hrest hlater hsorted hbound
    · have hno : ∀ now, o ≠ .tick now := fun now heq ↦ htick ⟨now, heq⟩
      have hsame : tickTimes ((o, forest') :: ops) = tickTimes ops := by
        cases o <;> first | rfl | exact absurd rfl (hno _)
      rw [hsame] at hclock htimes
      exact ih (hpaced.subset (mem_unacked_of_apply hno ho))
        (hapart.append (transmissions_events hno c forest')) hnext hP' hrest hclock htimes hbound

/-- What ticks send under a number, and when. -/
structure Spaced (config : Config) (ops : List (Operation × Forest)) (l : List Moment) : Prop where
  /-- Each operation has its moment. -/
  answered : l.length = ops.length
  /-- Nothing but ticks sends anything under a number. -/
  unnumbered : ∀ x ∈ ops.zip l, (∀ now, x.1.1 ≠ .tick now) →
    ∀ d ∈ x.2.answer.datagrams, Datagram.sequence d = 0
  /-- The instants at which a number is sent are apart from each other by the shortest timeout. -/
  apart : ∀ n, n ≠ 0 → (sendings n (ops.zip l)).Pairwise fun s t ↦ s + config.minTimeout ≤ t

/-- **Transmissions of one number are apart by the shortest timeout,** in any life in which ticks come in
the order of time. -/
theorem spaced_of_live {session : Session} {address : Address} {root : BucketId} {start : Instant}
    {f : Forest} {ops : List (Operation × Forest)} {l : List Moment}
    (hops : ∀ o ∈ ops, Operation.QueuesOnly (fun _ ↦ True) (Prod.fst o))
    (htimes : (tickTimes ops).Pairwise (· ≤ ·))
    (hlive : live session address config root start f ops = .ok (l, c))
    (hbound : (firstTransmissions (history l)).length < sequenceCount) : Spaced config ops l := by
  obtain ⟨c₀, f', hopened, hrun⟩ := live_eq_ok hlive
  have hfresh := fresh_of_opened hopened
  have hstart : Traced (fun _ ↦ True) config [] c₀ := ⟨c₀, hfresh, Chain.refl⟩
  have hpaced : Paced config.minTimeout 0 c₀ := by
    intro e he
    rw [hfresh.unacked] at he
    exact absurd he List.not_mem_nil
  refine ⟨length_of_chronicle hrun, sequence_eq_zero_of_chronicle hrun, fun n hn ↦ ?_⟩
  rw [sendings_of_chronicle hstart hops hrun hn]
  have hapart := apart_of_chronicle hpaced (fun _ ↦ List.isChain_nil) hstart hops hrun
    (fun now _ ↦ Nat.zero_le now) htimes hbound
  let far : Instant → Instant → Prop := fun s t ↦ s + config.minTimeout ≤ t
  have : Trans far far far := ⟨fun hst htu ↦ (hst.trans (Nat.le_add_right ..)).trans htu⟩
  exact (hapart n).pairwise

/-- A life in which a datagram is sent three times. A sample of the round trip shortens the timeout in
between, and the first copy has to wait until it is afforded. -/
def waitingOperations : List (Operation × Forest) :=
  let full : Forest := ⟨List.replicate 9 (.full [] 0 0 0)⟩
  let send (lane : Lane) : Operation :=
    .send (.throttled lane) { id := .high 5, payload := [1, 2, 3] } true false
  [(send .task, full), (send .texture, full), (.tick (100 * Span.millisecond), full),
    (.acknowledge [2] (150 * Span.millisecond), full), (.tick (700 * Span.millisecond), {}),
    (.tick (900 * Span.millisecond), full), (.tick (1500 * Span.millisecond), full)]

theorem spaced_of_waiting : (∀ o ∈ waitingOperations, Operation.QueuesOnly (fun _ ↦ True) (Prod.fst o)) ∧
    (tickTimes waitingOperations).Pairwise (· ≤ ·) ∧
    ∃ l c, live ⟨.ofNat 7, .ofNat 8, 99, none⟩ (.loopback 5) {} 0 0 {} waitingOperations = .ok (l, c) ∧
      (firstTransmissions (history l)).length < sequenceCount ∧
      sendings 1 (waitingOperations.zip l) =
        [100 * Span.millisecond, 900 * Span.millisecond, 1500 * Span.millisecond] ∧
      Spaced {} waitingOperations l := by
  have hops : ∀ o ∈ waitingOperations, Operation.QueuesOnly (fun _ ↦ True) (Prod.fst o) := by
    simp [waitingOperations, Operation.QueuesOnly]
  have htimes : (tickTimes waitingOperations).Pairwise (· ≤ ·) := by
    decide
  obtain ⟨⟨l, c⟩, hlive, htest⟩ := exists_eq_ok_of_any
    (x := live ⟨.ofNat 7, .ofNat 8, 99, none⟩ (.loopback 5) {} 0 0 {} waitingOperations)
    (p := fun r ↦ decide ((firstTransmissions (history r.1)).length < sequenceCount ∧
      sendings 1 (waitingOperations.zip r.1) =
        [100 * Span.millisecond, 900 * Span.millisecond, 1500 * Span.millisecond])) (by decide +kernel)
  obtain ⟨hbound, hsendings⟩ := of_decide_eq_true htest
  exact ⟨hops, htimes, l, c, hlive, hbound, hsendings, spaced_of_live hops htimes hlive hbound⟩

end Circuit

end DatagramCircuits
