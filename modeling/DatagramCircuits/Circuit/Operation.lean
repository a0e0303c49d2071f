import DatagramCircuits.Circuit.Receive
import DatagramCircuits.Circuit.Tick
/-!
# Operations on a circuit

All that can be done with a circuit, as data, and what it answers. `Circuit.apply` is the meaning of
an operation, and `Circuit.run` that of a history of operations, in which statements about what a
circuit did before and will do later are made.

**A history ends where a fault would be.** That is a matter of how far it reaches: a circuit is still there
after a fault (`Circuit.afterFault`), and the other tasks of a server go on with it.
-/

namespace DatagramCircuits

namespace Circuit

/-- Something that is done with a circuit. -/
inductive Operation where
  /-- Queue a message. -/
  | send (category : Category) (m : Message) (reliable notify : Bool)
  /-- Queue a datagram. -/
  | enqueue (p : Outgoing)
  /-- Do the regular work. -/
  | tick (now : Instant)
  /-- Take an arriving datagram of the given length in. -/
  | receive (p : Packet) (length : Nat) (now : Instant)
  /-- Take acknowledgements in. -/
  | acknowledge (sequences : List UInt32) (now : Instant)
  /-- Send all acknowledgements. -/
  | flushAcks
  /-- Send a ping. -/
  | ping (now : Instant)
  /-- Answer a ping. -/
  | answerPing (id : UInt8)
  /-- Take the answer to a ping in. -/
  | takePong (id : UInt8) (now : Instant)
  /-- Negotiate the rates of the lanes anew. -/
  | renegotiate (requested : Rates) (now : Instant)
  /-- Take the circuit into use. -/
  | connect
  /-- Expect the peer to be silent for longer. -/
  | pause
  /-- End a pause. -/
  | resume
  /-- Close the circuit. -/
  | close
  /-- Begin a notice of empty queues. -/
  | beginQueueEmpty (now : Instant)
  /-- End a notice of empty queues. -/
  | endQueueEmpty
deriving DecidableEq, Repr

/-- What a circuit answers. -/
inductive Answer where
  /-- What was to be queued is queued. -/
  | queued
  /-- Nothing is queued. -/
  | refused (e : SendError)
  /-- The regular work is done. -/
  | ticked (output : TickOutput)
  /-- The arriving datagram is taken in. -/
  | received (disposition : Disposition)
  /-- That many acknowledgements were for datagrams in the account. -/
  | matched (count : Nat)
  /-- These datagrams have the acknowledgements. -/
  | flushed (datagrams : List Octets)
  /-- This datagram is the ping, if it could be framed. -/
  | pinged (datagram : Option Octets)
  /-- This datagram is the answer to the ping. -/
  | answered (datagram : Octets)
  /-- The ping can not be answered. -/
  | unanswered (e : SignalError)
  /-- Whether the operation had an effect. -/
  | confirmed (effective : Bool)
  /-- The rates are negotiated. -/
  | adjusted (adjustment : Adjustment)
  /-- There is nothing to say. -/
  | done
deriving DecidableEq, Repr

/-- The datagrams in an answer, in the order in which they are to be sent. -/
def Answer.datagrams : Answer → List Octets
  | ticked output => output.datagrams
  | flushed l => l
  | pinged d => d.toList
  | answered d => [d]
  | _ => []

/-- What comes of queuing something. -/
def queuing (c : Circuit) : Except SendError Circuit → Answer × Circuit
  | .ok next => (.queued, next)
  | .error e => (.refused e, c)

/-- Does something with a circuit. -/
def apply (o : Operation) (c : Circuit) (f : Forest) : Except Fault (Answer × Circuit × Forest) := do
  let keeping (r : Answer × Circuit) : Answer × Circuit × Forest := (r.1, r.2, f)
  match o with
  | .send category m reliable notify => return keeping (c.queuing (c.send category m reliable notify))
  | .enqueue p => return keeping (c.queuing (c.enqueue p))
  | .tick now =>
    let t ← (c.tick now f).mapError Prod.fst
    return (.ticked t.output, t.circuit, t.forest)
  | .receive p length now =>
    let (disposition, c) := c.receive p length now
    return (.received (← disposition), c, f)
  | .acknowledge sequences now => return keeping ((c.acknowledge sequences now).map (.matched ·.length) id)
  | .flushAcks => return keeping (c.flushAcks.map .flushed id)
  | .ping now => return keeping ((c.ping now).map .pinged id)
  | .answerPing id =>
    match c.answerPing id with
    | .ok d => return (.answered d, c, f)
    | .error e => return (.unanswered e, c, f)
  | .takePong id now => return keeping ((c.takePong id now).map .confirmed fun c ↦ c)
  | .renegotiate requested now =>
    let (adjustment, f) ← c.renegotiate requested now f
    return (.adjusted adjustment, c, f)
  | .connect => return keeping (c.connect.map .confirmed id)
  | .pause => return keeping (c.pause.map .confirmed id)
  | .resume => return keeping (c.resume.map .confirmed id)
  | .close => return (c.close f).map .confirmed id
  | .beginQueueEmpty now => return keeping ((c.beginQueueEmpty now).map .confirmed id)
  | .endQueueEmpty => return (.done, c.endQueueEmpty, f)

/-- Regular work is answered with its output. -/
theorem eq_of_apply_tick {now : Instant} {c c' : Circuit} {f f' : Forest} {answer : Answer}
    (h : c.apply (.tick now) f = .ok (answer, c', f')) :
    ∃ t, c.tick now f = .ok t ∧ answer = .ticked t.output ∧ c' = t.circuit ∧ f' = t.forest := by
  obtain ⟨t, ht, h⟩ := bind_eq_ok_iff.1 h
  cases h
  exact ⟨t, mapError_eq_ok_iff.1 ht, rfl, rfl, rfl⟩

/-- What a fault in an operation leaves behind. Regular work is done as far as it went, an arriving
datagram is taken in but for the answer, and nothing else begins before it can end. -/
def afterFault (o : Operation) (c : Circuit) (f : Forest) : Circuit × Forest :=
  match o with
  | .tick now =>
    match c.tick now f with
    | .ok t | .error (_, t) => (t.circuit, t.forest)
  | .receive p length now => ((c.receive p length now).2, f)
  | _ => (c, f)

/-- Does one thing after another with a circuit. -/
def run : List Operation → Circuit → Forest → Except Fault (List Answer × Circuit × Forest)
  | [], c, f => .ok ([], c, f)
  | o :: rest, c, f => do
    let (answer, c, f) ← c.apply o f
    let (answers, c, f) ← run rest c f
    return (answer :: answers, c, f)

/-- A history in two parts is the first part, and then the second on what comes of it. -/
theorem run_append (l₁ l₂ : List Operation) (c : Circuit) (f : Forest) :
    run (l₁ ++ l₂) c f = (do
      let first ← run l₁ c f
      let second ← run l₂ first.2.1 first.2.2
      return (first.1 ++ second.1, second.2)) := by
  induction l₁ generalizing c f with
  | nil =>
    cases h : run l₂ c f <;> simp [run, h, bind, Except.bind, pure, Except.pure]
  | cons o rest ih =>
    simp only [List.cons_append, run, ih]
    cases c.apply o f with
    | error e => rfl
    | ok r =>
      cases h : run rest r.2.1 r.2.2 with
      | error e => simp [h, bind, Except.bind]
      | ok first =>
        cases h' : run l₂ first.2.1 first.2.2 <;>
          simp [h, h', bind, Except.bind, pure, Except.pure]

theorem length_run {l : List Operation} {c : Circuit} {f : Forest}
    {r : List Answer × Circuit × Forest} (h : run l c f = .ok r) : r.1.length = l.length := by
  induction l generalizing c f r with
  | nil =>
    cases h
    rfl
  | cons o rest ih =>
    simp only [run, bind, Except.bind] at h
    split at h
    · cases h
    · split at h
      · cases h
      · rename_i hr
        cases h
        simp [ih hr]

end Circuit

end DatagramCircuits
