import DatagramCircuits.Server.Action
/-!
# Regular work on a server

Each circuit in use is served in turn. One that was silent for too long is marked to be closed, and
does not tick. Where queues have run empty, a notice is given to the pool of workers, one at a time for
each circuit. A notice is dropped if its circuit is closed by the time that a worker takes it.
-/

namespace DatagramCircuits

namespace Server

/-- Gives a notice of empty queues to the workers, if one may be begun and is accepted. -/
def notify (id : CircuitId) (lanes : List Lane) (now : Instant) (s : Server) : Server :=
  match s.circuit? id with
  | none => s
  | some c =>
    match c.beginQueueEmpty now with
    | (false, _) => s
    | (true, c) =>
      match s.notices.submit { circuit := id, lanes } with
      | (true, notices) => { s.putCircuit id c with notices }
      | (false, _) => (s.putCircuit id c.endQueueEmpty).count Counters.countJobRejected

/-- Takes in what the tick of a circuit produced, apart from the datagrams. -/
def takeIn (id : CircuitId) (t : Turn) (now : Instant) (s : Server) : Server :=
  let o := t.output
  let s := { s.putCircuit id t.circuit with forest := t.forest }
  let s := o.unacknowledged.foldl (fun s p ↦ s.record (.unacknowledged id t.circuit.agent p)) s
  let s := s.count fun c ↦ (c.countResent o.resent).countDroppedUnacked o.droppedUnacked
  let s := if o.stalled then s.count Counters.countAckStall else s
  if o.emptied.isEmpty then s else s.notify id o.emptied now

/-- Does the regular work of a circuit. -/
def serve (id : CircuitId) (now : Instant) (s : Server) : Outcome × Server :=
  match s.circuit? id with
  | none => (.finished, s)
  | some c =>
    if c.isTimedOut now then (.finished, { s with closing := s.closing ++ [id] })
    else
      match c.tick now s.forest with
      | .error (fault, t) => (.failed fault, { s.putCircuit id t.circuit with forest := t.forest })
      | .ok t =>
        let s := s.takeIn id t now
        if t.output.datagrams.isEmpty then (.finished, s)
        else (.waiting (Action.sendAll c.address t.output.datagrams), s)

/-- The circuits that are in use, in the given order if it is one of theirs, and else in that of the
table. -/
def inTurn (order : List CircuitId) (s : Server) : List CircuitId :=
  if order.isPerm s.table.byAddress.values then order else s.table.byAddress.values

/-- A round of regular work, over the circuits that are in use when it begins. Their order is left
open. -/
def roundOf (order : List CircuitId) (now : Instant) (s : Server) : List Action :=
  (s.inTurn order).map (.serve · now)

/-- A worker takes the next notice, if there are both. The application is told unless the circuit is
closed; the notice is returned if so. -/
def beginNotice (now : Instant) (s : Server) : Option (Option Notice × Server) :=
  match s.notices.take? with
  | none => none
  | some (notice, notices) =>
    match s.circuit? notice.circuit with
    | none => some (none, { s with notices := notices.release })
    | some c =>
      if c.isClosed then
        some (none, { s.putCircuit notice.circuit c.endQueueEmpty with notices := notices.release })
      else
        some (some notice,
          { s with notices }.record (.queueEmpty notice.circuit c.agent notice.lanes now))

/-- The application is done with a notice. -/
def endNotice (notice : Notice) (s : Server) : Server :=
  let s := { s with notices := s.notices.release }
  match s.circuit? notice.circuit with
  | none => s
  | some c => s.putCircuit notice.circuit c.endQueueEmpty

/-- Closes one of the circuits that were found silent for too long. -/
def closeSilentAt (k : Nat) (s : Server) : Server :=
  match s.closing[k]? with
  | none => s
  | some id => ({ s with closing := s.closing.eraseIdx k }.closeCircuit id .timeout).2

/-- Closes the circuits that were found silent for too long. -/
def closeSilent (s : Server) : Server :=
  s.closing.foldl (fun s id ↦ (s.closeCircuit id .timeout).2) { s with closing := [] }

end Server

end DatagramCircuits
