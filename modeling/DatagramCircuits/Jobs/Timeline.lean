import DatagramCircuits.Collection.Agenda
import DatagramCircuits.Jobs.Pool
/-!
# A pool on a clock

A pool whose jobs take a known time, on a clock that is moved by hand. Time passes only in `advance`,
and so do the workers. An advance of no length does nothing.

**At every instant the jobs that are done come first**, in the order in which they were begun. A worker
that is done takes what waits at once, before the next job is seen to be done, unless there are workers
without a job: these are first in line. So new jobs are begun after all ends if there was such a
worker, and between the ends if there was none.

What ends at the very instant up to which the clock is moved ends at the beginning of the next
`advance`. A job that takes no time begins and is gone. After `shutdown` no job is begun: the workers
without one go away at the next `advance`, the others as soon as theirs is done.
-/

namespace DatagramCircuits

/-- A job that takes a known time. -/
structure TimedJob where
  /-- The number of the job. -/
  number : Nat
  /-- The time it takes. -/
  duration : Span
deriving DecidableEq, Repr

/-- What happens to a job. -/
inductive JobEvent where
  /-- A worker begins the job. -/
  | began (number : Nat) (time : Instant)
  /-- The job is done. A job that takes no time has no such event. -/
  | ended (number : Nat) (time : Instant)
deriving DecidableEq, Repr

/-- A pool on a clock. -/
structure JobTimeline where
  /-- The pool. -/
  pool : Pool TimedJob
  /-- The time. -/
  now : Instant := 0
  /-- The ends of the jobs that are worked on. -/
  running : Agenda Nat := []
  /-- Whether the workers are to go away. -/
  stopping : Bool := false
  /-- What happened, latest last. -/
  events : List JobEvent := []
deriving DecidableEq, Repr

namespace JobTimeline

/-- A clock at zero, and a pool with room for `capacity` jobs. -/
def create (capacity : Nat) : Except Fault JobTimeline := do
  return { pool := ← Pool.create capacity }

/-- Submits a job. -/
def submit (job : TimedJob) (t : JobTimeline) : Bool × JobTimeline :=
  let (accepted, pool) := t.pool.submit job
  (accepted, { t with pool })

/-- Starts workers. -/
def start (workers : Nat) (t : JobTimeline) : Nat × JobTimeline :=
  let (spawned, pool) := t.pool.start workers
  (spawned, { t with pool })

/-- Tells the workers to go away. -/
def shutdown (t : JobTimeline) : JobTimeline :=
  { t with stopping := true }

/-- The timeline with one more event. -/
def record (e : JobEvent) (t : JobTimeline) : JobTimeline :=
  { t with events := t.events ++ [e] }

/-- Begins jobs as long as there are workers and jobs, at most `count` of them. -/
def beginJobs : (count : Nat) → JobTimeline → JobTimeline
  | 0, t => t
  | count + 1, t =>
    match t.pool.take? with
    | none => t
    | some (job, pool) =>
      let t := { t with pool }.record (.began job.number t.now)
      beginJobs count <|
        if job.duration = 0 then { t with pool := pool.release }
        else { t with running := t.running.enter (t.now + job.duration.timer) job.number }

/-- What workers without a job do: they go away, or take jobs that wait. -/
def settle (t : JobTimeline) : JobTimeline :=
  if t.stopping then { t with pool := t.pool.stopIdle } else beginJobs t.pool.waiting.length t

/-- A job is done. The worker takes what waits at once if no other is before it in line. -/
def endJob (t : JobTimeline) (number : Nat) : JobTimeline :=
  let done := { t with pool := t.pool.release }.record (.ended number t.now)
  if t.pool.idle = 0 then done.settle else done

/-- All that happens at the present instant. -/
def wake (t : JobTimeline) : JobTimeline :=
  let (due, running) := t.running.due t.now
  (due.foldl endJob { t with running }).settle

/-- Comes to the instants before the given one at which jobs are done, at most `count` of them. -/
def passUntil (target : Instant) : (count : Nat) → JobTimeline → JobTimeline
  | 0, t => t
  | count + 1, t =>
    match t.running.nextTime? target with
    | none => t
    | some now => passUntil target count { t with now }.wake

/-- Lets time pass. There are at most as many ends of jobs as jobs that run or wait. -/
def advance (d : Span) (t : JobTimeline) : JobTimeline :=
  if d = 0 then t
  else
    let target := t.now + d.timer
    let t := t.wake
    { passUntil target (t.running.length + t.pool.waiting.length) t with now := target }

/-- The events so far, and the timeline without them. -/
def takeEvents (t : JobTimeline) : List JobEvent × JobTimeline :=
  (t.events, { t with events := [] })

end JobTimeline

end DatagramCircuits
