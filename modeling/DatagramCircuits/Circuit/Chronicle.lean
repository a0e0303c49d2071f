import DatagramCircuits.Circuit.Operation
/-!
# Chronicles

The history of a circuit together with the record of what happened in it. `Circuit.events` is the
record of one operation, `Circuit.chronicle` does one operation after the other and keeps for each of
them the answer and the record.

**What an operation finds in the buckets is left open.** A circuit shares the bucket of the server with
other circuits, so its own past does not say how full that is. Each operation of a chronicle comes with
the forest that it finds; `chronicle_of_run` says that a history of a circuit that is alone is a
special case.

**A chronicle ends where a fault would be,** as a history does. What is said of chronicles is said of a
circuit up to its first fault; `Circuit.Exchange` has circuits that go on after one.
-/

namespace DatagramCircuits

namespace Circuit

/-- The record of sending a message: its datagrams are queued, unless it is refused. -/
def sendEvents (category : Category) (m : Message) (reliable notify : Bool) (c : Circuit) :
    List Event :=
  match c.send category m reliable notify, m.frame reliable c.config.mtu with
  | .ok _, .ok l => l.map fun buffer ↦ .queued { category, buffer, notify }
  | _, _ => []

/-- The record of an arriving datagram. The acknowledgements that it carries are taken in first, also
where nothing is known to make of the datagram then. -/
def arrivalEvents (p : Packet) (length : Nat) (now : Instant) (c : Circuit) : List Event :=
  match (c.receive p length now).1 with
  | .error _ => (c.acknowledge p.acks now).1.map (.acknowledged · now)
  | .ok .closed => [.arrived p .closed]
  | .ok disposition =>
    (c.acknowledge p.acks now).1.map (.acknowledged · now) ++ [.arrived p disposition]

/-- The record of closing. -/
def closeEvents (c : Circuit) : List Event :=
  if c.isClosed then [] else c.tracker.unacked.map (.cleared ·.packet)

/-- The record of an operation, as far as it went. -/
def events (o : Operation) (c : Circuit) (f : Forest) : List Event :=
  match o with
  | .send category m reliable notify => c.sendEvents category m reliable notify
  | .enqueue p => if (c.enqueue p).isOk then [.queued p] else []
  | .tick now =>
    match c.tick now f with
    | .ok t | .error (_, t) => t.log
  | .receive p length now => c.arrivalEvents p length now
  | .acknowledge sequences now => (c.acknowledge sequences now).1.map (.acknowledged · now)
  | .flushAcks => c.flushAcks.1.map .signalled
  | .ping now => (c.ping now).1.toList.map .signalled
  | .answerPing id =>
    match c.answerPing id with
    | .ok d => [.signalled d]
    | .error _ => []
  | .close => c.closeEvents
  | .takePong _ _ | .renegotiate _ _ | .connect | .pause | .resume | .beginQueueEmpty _
  | .endQueueEmpty => []

/-- What came of an operation. -/
structure Moment where
  /-- The answer. -/
  answer : Answer
  /-- What happened, in order. -/
  events : List Event
deriving DecidableEq, Repr

/-- What happened in all moments, in order. -/
def history (l : List Moment) : List Event :=
  l.flatMap Moment.events

/-- Does one operation after another, each with the buckets as it finds them. -/
def chronicle : List (Operation × Forest) → Circuit → Except Fault (List Moment × Circuit)
  | [], c => .ok ([], c)
  | (o, f) :: rest, c => do
    let (answer, next, _) ← c.apply o f
    let (l, last) ← chronicle rest next
    return (⟨answer, c.events o f⟩ :: l, last)

@[simp] theorem history_nil : history [] = [] := rfl

@[simp] theorem history_cons (m : Moment) (l : List Moment) :
    history (m :: l) = m.events ++ history l :=
  rfl

theorem history_append (l₁ l₂ : List Moment) : history (l₁ ++ l₂) = history l₁ ++ history l₂ :=
  List.flatMap_append

/-- A chronicle that begins with an operation consists of the answer to it and of the chronicle of what
comes after it. -/
theorem chronicle_cons_eq_ok {o : Operation} {f : Forest} {rest : List (Operation × Forest)}
    {c last : Circuit} {l : List Moment} (h : chronicle ((o, f) :: rest) c = .ok (l, last)) :
    ∃ answer next forest l', c.apply o f = .ok (answer, next, forest) ∧
      chronicle rest next = .ok (l', last) ∧ l = ⟨answer, c.events o f⟩ :: l' := by
  obtain ⟨⟨answer, next, forest⟩, ho, h⟩ := bind_eq_ok_iff.1 h
  obtain ⟨⟨l', last'⟩, hr, h⟩ := bind_eq_ok_iff.1 h
  cases h
  exact ⟨answer, next, forest, l', ho, hr, rfl⟩

/-- The history of a circuit that is alone with its forest is a chronicle. -/
theorem chronicle_of_run {ops : List Operation} {c last : Circuit} {f f' : Forest}
    {answers : List Answer} (h : run ops c f = .ok (answers, last, f')) :
    ∃ forests l, forests.length = ops.length ∧ chronicle (ops.zip forests) c = .ok (l, last) ∧
      l.map Moment.answer = answers := by
  induction ops generalizing c f answers with
  | nil =>
    cases h
    exact ⟨[], [], rfl, rfl, rfl⟩
  | cons o rest ih =>
    obtain ⟨⟨answer, next, forest⟩, ho, h⟩ := bind_eq_ok_iff.1 h
    obtain ⟨⟨answers', last', f''⟩, hr, h⟩ := bind_eq_ok_iff.1 h
    cases h
    obtain ⟨forests, l, hlen, hl, rfl⟩ := ih hr
    refine ⟨f :: forests, ⟨answer, c.events o f⟩ :: l, by simp [hlen], ?_, rfl⟩
    exact bind_eq_ok_iff.2 ⟨_, ho, bind_eq_ok_iff.2 ⟨_, hl, rfl⟩⟩

end Circuit

end DatagramCircuits
