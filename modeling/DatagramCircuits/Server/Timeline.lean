import DatagramCircuits.Collection.Agenda
import DatagramCircuits.Server.Task
/-!
# A server on a clock

A server with its tasks on a clock that is moved by hand, on a socket that never makes anyone wait.
Nothing happens but in `advance`, and what happens there takes no time.

* First, what arrived is taken from the socket and decoded, all at the present instant. A request for
  a circuit is authorized beside that: if no time is needed for it, right after everything that
  arrived is decoded, otherwise when that time is over.
* Then time passes, from one instant to the next at which something comes up on the agenda: an
  authorization is known, the application is done with a notice, or the rest of the regular work is
  over. A rest follows each round of regular work that sends nothing; a round that sends something is
  followed by another at the same instant.

**What comes up at one instant** is seen to in the order in which it was entered into the agenda. Then
circuits that fell silent are closed, and workers take the notices that wait, before the next round of
regular work. So what takes as long as a rest, and was begun after it, is over after the round.

What is due at the very instant up to which the clock is moved comes up at the beginning of the next
`advance`, before anything is received. An advance of no length does nothing.

**An end to everything.** After `shutdown` nothing more is received, and workers without a notice go
away, from the next `advance` on; decoding ends when it would have looked up from waiting, and the
regular work where its next round would be. A fault in decoding or in the regular work also ends it.
-/

namespace DatagramCircuits

/-- Something that takes its time. -/
inductive Pastime where
  /-- The authorization of a request for a circuit, with its result. -/
  | authorization (handshake : Handshake) (result : Authorization)
  /-- The work of the application on a notice of empty queues. -/
  | notice (notice : Notice)
  /-- The rest between two rounds of regular work. -/
  | rest
deriving DecidableEq, Repr

/-- A server on a clock. -/
structure Timeline where
  /-- The server. -/
  server : Server
  /-- How requests for a circuit are decided, and how long that takes. -/
  authorizer : SetupRequest → Span × Authorization
  /-- How long the application works on a notice of empty queues. -/
  noticeTime : Span
  /-- The time. -/
  now : Instant := 0
  /-- The datagrams that arrived at the socket. -/
  incoming : List (Address × Octets) := []
  /-- What takes its time, by the instant of its end. -/
  agenda : Agenda Pastime := [(0, .rest)]
  /-- Whether another round of regular work is to be done at the present instant. -/
  again : Bool := false
  /-- Since when decoding waits for something to do, the first time if it only looked up since then. -/
  waitingSince : Instant := 0
  /-- When decoding ends. -/
  decodingEnd : Option Instant := none
  /-- How many tasks were started. -/
  tasks : Nat
  /-- Whether datagrams are received. -/
  receiving : Bool := true
  /-- Whether datagrams are decoded. -/
  decoding : Bool := true
  /-- Whether the regular work is done. -/
  ticking : Bool := true

namespace Timeline

/-- A started server and a clock at zero. -/
def create (config : Config) (authorizer : SetupRequest → Span × Authorization) (noticeTime : Span) :
    Except (Failure Config.Error) Timeline := do
  let (tasks, server) := (← Server.create config 0).start
  return { server, authorizer, noticeTime, tasks }

/-- Lets a datagram arrive at the socket. -/
def inject (source : Address) (datagram : Octets) (t : Timeline) : Timeline :=
  { t with incoming := t.incoming ++ [(source, datagram)] }

/-- The number of tasks that came to their end. -/
def finished (t : Timeline) : Nat :=
  t.server.notices.stopped + [t.receiving, t.decoding, t.ticking].count false

/-- Takes what reached the outside. -/
def takeEffects (t : Timeline) : List Effect × Timeline :=
  (t.server.effects, { t with server := { t.server with effects := [] } })

/-- When decoding looks up from waiting, now or later for the first time. -/
def lookUp (t : Timeline) : Instant :=
  let period := t.server.config.pollTimeout.timer
  t.waitingSince + max 1 ((t.now - t.waitingSince + period - 1) / period) * period

/-- Tells the tasks to end. -/
def shutdown (t : Timeline) : Timeline :=
  if t.server.stopping then t
  else { t with server := t.server.shutdown, decodingEnd := some t.lookUp }

/-! ### Notices -/

/-- Workers take notices as long as there are both, at most `count` of them. -/
def beginNotices : (count : Nat) → Timeline → Timeline
  | 0, t => t
  | count + 1, t =>
    match t.server.beginNotice t.now with
    | none => t
    | some (none, server) => beginNotices count { t with server }
    | some (some notice, server) =>
      beginNotices count <|
        if t.noticeTime = 0 then { t with server := server.endNotice notice }
        else { t with server, agenda := t.agenda.enter (t.now + t.noticeTime.timer) (.notice notice) }

/-- What workers without a notice do: they go away, or take notices that wait. -/
def settleWorkers (t : Timeline) : Timeline :=
  if t.server.stopping then
    { t with server := { t.server with notices := t.server.notices.stopIdle } }
  else beginNotices t.server.notices.waiting.length t

/-! ### Arriving datagrams -/

/-- Takes what arrived from the socket. -/
def receive (t : Timeline) : Timeline :=
  if t.receiving && t.server.stopping then { t with receiving := false }
  else if t.receiving then
    let server := t.incoming.foldl (fun s (source, datagram) ↦ s.arrive source datagram) t.server
    { t with server, incoming := [] }
  else t

/-- Decodes the given datagrams, up to a fault. -/
def decodeAll : List (Address × Octets) → Timeline → Timeline
  | [], t => t
  | (source, datagram) :: rest, t =>
    match t.server.complete t.now Action.maxRank [.handle source datagram] with
    | (none, server) => decodeAll rest { t with server, waitingSince := t.now }
    | (some _, server) => { t with server, decoding := false }

/-- Decodes what waits to be decoded. -/
def decode (t : Timeline) : Timeline :=
  if t.decoding then
    decodeAll t.server.inbox { t with server := { t.server with inbox := [] } }
  else t

/-- Begins to authorize a request for a circuit. -/
def authorize (t : Timeline) (h : Handshake) : Timeline :=
  let (delay, result) := t.authorizer h.request
  if delay = 0 then { t with server := t.server.concludeFully h result t.now }
  else { t with agenda := t.agenda.enter (t.now + delay.timer) (.authorization h result) }

/-- Begins to authorize the requests that were decoded. -/
def authorizeAll (t : Timeline) : Timeline :=
  t.server.authorizing.foldl authorize { t with server := { t.server with authorizing := [] } }

/-! ### Regular work -/

/-- A round of regular work, in the order of the table. It is followed by another one if anything was
sent, else by a rest. -/
def round (t : Timeline) : Timeline :=
  match t.server.complete t.now Action.maxRank (t.server.roundOf [] t.now) with
  | (some _, server) => { t with server, ticking := false }
  | (none, server) =>
    if server.counters.sent = t.server.counters.sent then
      { t with server, agenda := t.agenda.enter (t.now + server.config.idleSleep.timer) .rest }
    else { t with server, again := true }

/-- What follows at the present instant: circuits that fell silent are closed, and workers settle. -/
def settle (t : Timeline) : Timeline :=
  { t with server := t.server.closeSilent }.settleWorkers

/-- Does rounds of regular work as long as there is to be another one, at most `count` of them. -/
def rounds : (count : Nat) → Timeline → Timeline
  | 0, t => t
  | count + 1, t => if t.again then rounds count { t with again := false }.round.settle else t

/-- An upper bound for the number of rounds at one instant: each but the last sends something, which
was in a queue, or not acknowledged and put into a queue, or due by one of the other two timers. -/
def workload (t : Timeline) : Nat :=
  let load (c : Circuit) : Nat :=
    (c.queues.map LaneQueue.depth).toList.foldl (· + ·) c.tracker.unacked.length + 2
  (t.server.circuits.map load).foldl (· + ·) 1

/-! ### The passing of time -/

/-- What is done when something that took its time is over. A worker that is done with a notice takes
another one at once if no other worker is before it in line. -/
def finish (t : Timeline) : Pastime → Timeline
  | .authorization h result => { t with server := t.server.concludeFully h result t.now }
  | .notice notice =>
    let done := { t with server := t.server.endNotice notice }
    if t.server.notices.idle = 0 then done.settleWorkers else done
  | .rest => if t.server.stopping then { t with ticking := false } else t.round

/-- Sees to what is over at the present instant. -/
def wake (t : Timeline) : Timeline :=
  let (due, agenda) := t.agenda.due t.now
  due.foldl finish { t with agenda }

/-- What happens at the beginning of an advance. -/
def begin (t : Timeline) : Timeline :=
  let t := t.wake.receive.settle.decode.authorizeAll.settle
  t.rounds t.workload

/-- Comes to the instants before the given one at which something is over, at most `count` of them. -/
def passUntil (target : Instant) : (count : Nat) → Timeline → Timeline
  | 0, t => t
  | count + 1, t =>
    match t.agenda.nextTime? target with
    | none => t
    | some now =>
      let t := { t with now }.wake.settle
      passUntil target count (t.rounds t.workload)

/-- Lets time pass. Everything is over at a whole millisecond. -/
def advance (d : Span) (t : Timeline) : Timeline :=
  if d = 0 then t
  else
    let target := t.now + d.timer
    let t := passUntil target (d.timer / Span.millisecond) t.begin
    { t with now := target, decoding := t.decoding && !t.decodingEnd.any (· < target) }

end Timeline

end DatagramCircuits
