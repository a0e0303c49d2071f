import DatagramCircuits.Proofs.Answers
/-!
# Lives of circuits

A circuit lives from its opening through any operations, of which those that queue something frame it
from messages. A **life** is what was recorded up to some moment, together with the circuit then. It is a
chain of moves from a circuit that knows nothing yet, and what such a chain leads to is `Traced`.
-/

namespace DatagramCircuits

namespace Circuit

variable {P : Message → Prop} {config : Config}

/-- The circuit knows nothing yet: it has sent and received nothing, and nothing waits. -/
structure Fresh (config : Config) (c : Circuit) : Prop where
  config_eq : c.config = config
  isOpen : c.isClosed = false
  queues : c.queues = PerLane.replicate {}
  nextSequence : c.nextSequence = 1
  unacked : c.tracker.unacked = []
  pendingAcks : c.tracker.pendingAcks = []
  ackBytes : c.tracker.ackBytes = 0
  seen : ∃ capacity, c.tracker.seen = SeenWindow.empty capacity
  low : c.tracker.roundTrip.low = config.minTimeout
  timeout : config.minTimeout ≤ c.tracker.roundTrip.timeout

/-- Opens a circuit and does one operation after another, each with the buckets as it finds them. -/
def live (session : Session) (address : Address) (config : Config) (root : BucketId) (now : Instant)
    (f : Forest) (ops : List (Operation × Forest)) : Except Fault (List Moment × Circuit) := do
  let (c, _) ← (opened session address config root now f).mapError Prod.fst
  chronicle ops c

/-- A circuit that lives was opened. -/
theorem live_eq_ok {session : Session} {address : Address} {root : BucketId} {now : Instant}
    {f : Forest} {ops : List (Operation × Forest)} {l : List Moment} {c : Circuit}
    (h : live session address config root now f ops = .ok (l, c)) :
    ∃ c₀ f', opened session address config root now f = .ok (c₀, f') ∧
      chronicle ops c₀ = .ok (l, c) := by
  obtain ⟨⟨c₀, f'⟩, hopened, hrun⟩ := bind_eq_ok_iff.1 h
  exact ⟨c₀, f', mapError_eq_ok_iff.1 hopened, hrun⟩

/-- The life of a circuit up to now: it was opened under a configuration, and then did what `l` tells.
Nothing was put into its queues but what it framed from messages with the property. -/
def Lived (P : Message → Prop) (config : Config) (l : List Moment) (c : Circuit) : Prop :=
  ∃ session address root now f ops, (∀ o ∈ ops, Operation.QueuesOnly P (Prod.fst o)) ∧
    live session address config root now f ops = .ok (l, c)

theorem fresh_of_opened {session : Session} {address : Address} {root : BucketId} {now : Instant}
    {f f' : Forest} {c : Circuit} (h : opened session address config root now f = .ok (c, f')) :
    Fresh config c := by
  obtain ⟨allowance, -, hbegun⟩ := opened_eq_ok_iff.1 h
  obtain ⟨roundTrip, tracker, hround, htracker, rfl⟩ := begun_eq_ok hbegun
  obtain ⟨seen, hseen, htracker⟩ := bind_eq_ok_iff.1 htracker
  obtain rfl := Except.ok.inj htracker
  have hempty : ∃ capacity, seen = SeenWindow.empty capacity := by
    unfold SeenWindow.create at hseen
    cases hcapacity : withinCapacity config.seenCapacity with
    | error e =>
      rw [hcapacity] at hseen
      exact absurd hseen (by simp)
    | ok capacity =>
      rw [hcapacity] at hseen
      obtain rfl := Except.ok.inj hseen
      exact ⟨capacity, rfl⟩
  rw [RoundTrip.unsampled] at hround
  split at hround
  · obtain rfl := Except.ok.inj hround
    exact ⟨rfl, rfl, rfl, rfl, rfl, rfl, rfl, hempty, rfl, RoundTrip.low_le_clamp ..⟩
  · exact absurd hround (by simp)

/-- A chronicle is a chain of moves, recorded by its history. -/
theorem chain_of_chronicle {ops : List (Operation × Forest)} {c c' : Circuit} {l : List Moment}
    (hP : ∀ o ∈ ops, Operation.QueuesOnly P (Prod.fst o)) (h : chronicle ops c = .ok (l, c')) :
    Chain (Move P) c (history l) c' := by
  induction ops generalizing c l with
  | nil =>
    obtain ⟨rfl, rfl⟩ := Prod.mk.inj (Except.ok.inj h)
    exact Chain.refl
  | cons o ops ih =>
    obtain ⟨answer, next, forest, l', ho, hrest, rfl⟩ := chronicle_cons_eq_ok h
    have hfirst := moves_of_apply (hP o List.mem_cons_self) ho
    exact hfirst.trans (ih (fun o' ho' ↦ hP o' (List.mem_cons_of_mem _ ho')) hrest)

/-- The record tells of all moves that led to the circuit from one that knew nothing. -/
def Traced (P : Message → Prop) (config : Config) (l : List Event) (c : Circuit) : Prop :=
  ∃ c₀, Fresh config c₀ ∧ Chain (Move P) c₀ l c

/-- What a move preserves, from a fresh circuit on, holds of whatever is traced. -/
theorem Traced.induction {motive : List Event → Circuit → Prop} {l : List Event} {c : Circuit}
    (h : Traced P config l c) (hstart : ∀ {c₀}, Fresh config c₀ → motive [] c₀)
    (hstep : ∀ {l k c c'}, motive l c → Move P c k c' → motive (l ++ k) c') : motive l c := by
  obtain ⟨c₀, hfresh, hchain⟩ := h
  exact hchain.preserves (k := []) (hstart hfresh) hstep

/-- An operation goes on with the record. -/
theorem Traced.apply {l : List Event} {c c' : Circuit} (h : Traced P config l c) {o : Operation}
    (hP : o.QueuesOnly P) {f f' : Forest} {answer : Answer}
    (ho : c.apply o f = .ok (answer, c', f')) : Traced P config (l ++ c.events o f) c' := by
  obtain ⟨c₀, hfresh, hchain⟩ := h
  exact ⟨c₀, hfresh, hchain.trans (moves_of_apply hP ho)⟩

/-- **A life is traced by its history.** -/
theorem Lived.traced {l : List Moment} {c : Circuit} (h : Lived P config l c) :
    Traced P config (history l) c := by
  obtain ⟨session, address, root, now, f, ops, hP, hlive⟩ := h
  obtain ⟨c₀, f', hopen, hrun⟩ := live_eq_ok hlive
  exact ⟨c₀, fresh_of_opened hopen, chain_of_chronicle hP hrun⟩

/-- In all moments of a life the record agrees with the answer. -/
theorem Lived.agrees {l : List Moment} {c : Circuit} (h : Lived P config l c) :
    ∀ m ∈ l, m.Agrees := by
  obtain ⟨session, address, root, now, f, ops, -, hlive⟩ := h
  obtain ⟨c₀, f', -, hrun⟩ := live_eq_ok hlive
  exact agrees_of_chronicle hrun

end Circuit

end DatagramCircuits
