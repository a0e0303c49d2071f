import DatagramCircuits.Server.Task
/-!
# A server whose tasks run side by side

A running server is the state that its tasks share, and where each task is. One loop takes datagrams
from the socket, one decodes them, one does the regular work in rounds. Each request for a circuit is
authorized by a task of its own, which then sets the circuit up; so is each closing of a circuit that
fell silent; and workers see to notices of empty queues.

**A step is what happens between two waits.** A task that waits may be overtaken by any other, so a
history is any list of steps, each with its instant. A step whose time has not come, such as going on
with a loop that has nothing to go on with, changes nothing.

**Nothing is said about speed.** How long a task waits is left open, also where it waits for a timer.
What holds of every history therefore holds on every socket, with every authorizer, and however the
tasks are scheduled.
-/

namespace DatagramCircuits

/-- Where a loop of a server is. -/
inductive Loop where
  /-- It waits for something to do. -/
  | idle
  /-- It waits in the midst of its work, of which this is left. -/
  | busy (rest : List Action)
  /-- It has come to its end. -/
  | ended
deriving DecidableEq, Repr

/-- Where a loop is after a part of its work. It looks whether it is to end when its work is done, and
a fault ends it. -/
def Loop.after (stopping : Bool) : Outcome → Loop
  | .finished => if stopping then ended else idle
  | .waiting rest => busy rest
  | .failed _ => ended

/-- A server and where its tasks are. -/
structure RunningServer where
  /-- What the tasks share. -/
  server : Server
  /-- Whether datagrams are taken from the socket. -/
  receiving : Bool := true
  /-- The decoding of datagrams. -/
  decoding : Loop := .idle
  /-- The regular work. -/
  rounds : Loop := .idle
  /-- What is left to be done for requests that were granted. -/
  setups : List (List Action) := []
  /-- The notices of empty queues that workers are busy with. -/
  notices : List Notice := []

/-- What happens to a running server between two waits. Tasks of a kind are told apart by position. -/
inductive Step where
  /-- A datagram is taken from the socket. -/
  | arrive (source : Address) (datagram : Octets)
  /-- Taking datagrams from the socket comes to its end. -/
  | stopReceiving
  /-- The next datagram is decoded. -/
  | decode
  /-- Decoding goes on with the datagram. -/
  | resumeDecoding
  /-- Decoding looks up from waiting, and may come to its end. -/
  | stopDecoding
  /-- A request for a circuit is decided. -/
  | authorize (position : Nat) (result : Authorization)
  /-- Setting a circuit up goes on. -/
  | resumeSetup (position : Nat)
  /-- A round of regular work begins, in some order of the circuits, or the regular work comes to its
  end. -/
  | beginRound (order : List CircuitId)
  /-- The round goes on. -/
  | resumeRound
  /-- A circuit that was found silent is closed. -/
  | closeSilent (position : Nat)
  /-- A worker takes a notice. -/
  | beginNotice
  /-- The application is done with a notice. -/
  | endNotice (position : Nat)
  /-- The workers without a notice go away. -/
  | stopWorkers
  /-- The application queues a message. -/
  | send (agent : Uuid) (category : Category) (m : Message) (reliable notify : Bool)
  /-- The application closes a circuit. -/
  | close (agent : Uuid) (reason : CloseReason)
  /-- The application expects an agent to be silent for longer. -/
  | pause (agent : Uuid)
  /-- The application ends a pause. -/
  | resume (agent : Uuid)
  /-- The application tells the tasks to end. -/
  | shutdown
deriving DecidableEq, Repr

namespace RunningServer

/-- A server whose tasks were just started. -/
def create (config : Config) (now : Instant) : Except (Failure Config.Error) RunningServer := do
  return { server := (← Server.create config now).start.2 }

/-- The running server with another shared state. -/
def withServer (r : RunningServer) (server : Server) : RunningServer :=
  { r with server }

/-! ### The loops -/

/-- Decoding after a part of its work. -/
def decoded (r : RunningServer) (o : Outcome × Server) : RunningServer :=
  { r with server := o.2, decoding := .after o.2.stopping o.1 }

/-- The regular work after a part of it. -/
def worked (r : RunningServer) (o : Outcome × Server) : RunningServer :=
  { r with server := o.2, rounds := .after o.2.stopping o.1 }

/-- Takes a datagram from the socket. After the end was announced that can happen once more. -/
def arrive (source : Address) (datagram : Octets) (r : RunningServer) : RunningServer :=
  if r.receiving then
    { r with server := r.server.arrive source datagram, receiving := !r.server.stopping }
  else r

/-- Stops taking datagrams from the socket, if that was asked for. -/
def stopReceiving (r : RunningServer) : RunningServer :=
  { r with receiving := r.receiving && !r.server.stopping }

/-- Decodes the next datagram up to the first wait. -/
def decode (now : Instant) (r : RunningServer) : RunningServer :=
  match r.decoding, r.server.inbox with
  | .idle, (source, datagram) :: inbox =>
    r.decoded ({ r.server with inbox }.advance now [.handle source datagram])
  | _, _ => r

/-- Goes on with the datagram that is being decoded. -/
def resumeDecoding (now : Instant) (r : RunningServer) : RunningServer :=
  match r.decoding with
  | .busy rest => r.decoded (r.server.advance now rest)
  | _ => r

/-- Ends decoding where it waits for a datagram, if that was asked for. -/
def stopDecoding (r : RunningServer) : RunningServer :=
  if r.decoding = .idle ∧ r.server.stopping then { r with decoding := .ended } else r

/-- Begins a round of regular work, unless it was asked to end. -/
def beginRound (order : List CircuitId) (now : Instant) (r : RunningServer) : RunningServer :=
  match r.rounds with
  | .idle =>
    if r.server.stopping then { r with rounds := .ended }
    else r.worked (r.server.advance now (r.server.roundOf order now))
  | _ => r

/-- Goes on with a round. -/
def resumeRound (now : Instant) (r : RunningServer) : RunningServer :=
  match r.rounds with
  | .busy rest => r.worked (r.server.advance now rest)
  | _ => r

/-! ### Tasks beside the loops -/

/-- A circuit that is being set up, after a part of that work. A fault ends it. -/
def settled (r : RunningServer) (o : Outcome × Server) : RunningServer :=
  match o with
  | (.waiting rest, server) => { r with server, setups := r.setups ++ [rest] }
  | (_, server) => { r with server }

/-- Decides a request for a circuit. -/
def authorize (position : Nat) (result : Authorization) (now : Instant) (r : RunningServer) :
    RunningServer :=
  match r.server.authorizing[position]? with
  | none => r
  | some h =>
    let server := { r.server with authorizing := r.server.authorizing.eraseIdx position }
    r.settled (server.conclude h result now)

/-- Goes on with setting a circuit up. -/
def resumeSetup (position : Nat) (now : Instant) (r : RunningServer) : RunningServer :=
  match r.setups[position]? with
  | none => r
  | some rest =>
    { r with setups := r.setups.eraseIdx position }.settled (r.server.advance now rest)

/-- A worker takes the next notice, if there are both. -/
def beginNotice (now : Instant) (r : RunningServer) : RunningServer :=
  match r.server.beginNotice now with
  | none => r
  | some (notice, server) => { r with server, notices := r.notices ++ notice.toList }

/-- The application is done with a notice. -/
def endNotice (position : Nat) (r : RunningServer) : RunningServer :=
  match r.notices[position]? with
  | none => r
  | some notice =>
    { r with server := r.server.endNotice notice, notices := r.notices.eraseIdx position }

/-- The workers without a notice go away, if that was asked for. -/
def stopWorkers (r : RunningServer) : RunningServer :=
  if r.server.stopping then
    r.withServer { r.server with notices := r.server.notices.stopIdle }
  else r

/-! ### Histories -/

/-- What a step makes of a running server. -/
def step (now : Instant) (e : Step) (r : RunningServer) : RunningServer :=
  match e with
  | .arrive source datagram => r.arrive source datagram
  | .stopReceiving => r.stopReceiving
  | .decode => r.decode now
  | .resumeDecoding => r.resumeDecoding now
  | .stopDecoding => r.stopDecoding
  | .authorize position result => r.authorize position result now
  | .resumeSetup position => r.resumeSetup position now
  | .beginRound order => r.beginRound order now
  | .resumeRound => r.resumeRound now
  | .closeSilent position => r.withServer (r.server.closeSilentAt position)
  | .beginNotice => r.beginNotice now
  | .endNotice position => r.endNotice position
  | .stopWorkers => r.stopWorkers
  | .send agent category m reliable notify =>
    r.withServer ((r.server.send agent category m reliable notify).toOption.getD r.server)
  | .close agent reason => r.withServer (r.server.close agent reason).2
  | .pause agent => r.withServer (r.server.pause agent).2
  | .resume agent => r.withServer (r.server.resume agent).2
  | .shutdown => r.withServer r.server.shutdown

/-- What a history makes of a running server. -/
def run (history : List (Instant × Step)) (r : RunningServer) : RunningServer :=
  history.foldl (fun r (now, e) ↦ r.step now e) r

@[simp] theorem run_nil (r : RunningServer) : r.run [] = r := rfl

@[simp] theorem run_cons (now : Instant) (e : Step) (history : List (Instant × Step))
    (r : RunningServer) : r.run ((now, e) :: history) = (r.step now e).run history := rfl

@[simp] theorem run_append (h₁ h₂ : List (Instant × Step)) (r : RunningServer) :
    r.run (h₁ ++ h₂) = (r.run h₁).run h₂ :=
  List.foldl_append ..

/-- What every step keeps holds after every history. -/
theorem run_induction {p : RunningServer → Prop} (keeps : ∀ now e r, p r → p (r.step now e))
    (history : List (Instant × Step)) {r : RunningServer} (h : p r) : p (r.run history) := by
  induction history generalizing r with
  | nil => exact h
  | cons e history ih => exact ih (keeps e.1 e.2 r h)

end RunningServer

end DatagramCircuits
