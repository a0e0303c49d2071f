import DatagramCircuits.Server.Inbound
import DatagramCircuits.Server.Outbound
/-!
# The course of a task

`Server.perform` is the meaning of an action. There are two ways to go through a list of them.
`Server.advance` goes on until the task waits, and hands back what is left then; this is the part of a
task that nothing else comes in between of. `Server.complete` lets the task wait, and goes on at once:
what follows from an action is done before the next one. A task ends early at a fault.
-/

namespace DatagramCircuits

namespace Server

/-- Does a thing. -/
def perform (now : Instant) (a : Action) (s : Server) : Outcome × Server :=
  match a with
  | .transmit target datagram => (.waiting [], s.record (.sent target datagram))
  | .countSent n => (.finished, s.count (·.countSent n))
  | .announce id => (.finished, s.announce id)
  | .deliver id p => s.deliver id p now
  | .replay id datagram => s.replay id datagram now
  | .handle source datagram => s.handle source datagram now
  | .serve id time => s.serve id time

/-- Goes through the actions until the task waits. -/
def advance (now : Instant) : List Action → Server → Outcome × Server
  | [], s => (.finished, s)
  | a :: rest, s =>
    match s.perform now a with
    | (.finished, s) => advance now rest s
    | (.waiting first, s) => (.waiting (first ++ rest), s)
    | (.failed fault, s) => (.failed fault, s)

/-- Goes through the actions, with another way to go through what follows from each. The fault that
ended the task is told, if there was one. -/
def completeWith (follow : List Action → Server → Option Fault × Server) (now : Instant) :
    List Action → Server → Option Fault × Server
  | [], s => (none, s)
  | a :: rest, s =>
    match s.perform now a with
    | (.finished, s) => completeWith follow now rest s
    | (.failed fault, s) => (some fault, s)
    | (.waiting first, s) =>
      match follow first s with
      | (none, s) => completeWith follow now rest s
      | (some fault, s) => (some fault, s)

/-- Goes through actions of the given rank at most, and through all that follows from them. -/
def complete (now : Instant) : (rank : Nat) → List Action → Server → Option Fault × Server
  | 0 => completeWith (fun _ s ↦ (none, s)) now
  | rank + 1 => completeWith (complete now rank) now

/-- Goes on with a request for a circuit when its authorization is known. -/
def conclude (h : Handshake) (a : Authorization) (now : Instant) (s : Server) : Outcome × Server :=
  match a with
  | .denied => (.finished, s.deny h)
  | .granted session =>
    match s.establish h session now with
    | (.error fault, s) => (.failed fault, s)
    | (.ok ([], rest), s) => s.advance now rest
    | (.ok (acks, rest), s) => (.waiting (Action.sendAll h.address acks ++ rest), s)

/-- Goes on with a request for a circuit to the end. -/
def concludeFully (h : Handshake) (a : Authorization) (now : Instant) (s : Server) : Server :=
  match s.conclude h a now with
  | (.waiting rest, s) => (s.complete now Action.maxRank rest).2
  | (_, s) => s

end Server

end DatagramCircuits
