import DatagramCircuits.Fault
/-!
# A pool of workers

A bounded queue of jobs and a fixed number of workers that take them in order. Submitting never
waits: a job that there is no room for is refused. A job that a worker has taken no longer takes room.

Workers go away for good when they are stopped, and a pool whose workers have all gone accepts
nothing. Before it is started a pool accepts jobs, and keeps them for the workers to come.
-/

namespace DatagramCircuits

/-- A queue of jobs and the workers that take them. -/
structure Pool (ι : Type) where
  /-- How many jobs may wait. -/
  capacity : Nat
  /-- The jobs that wait, in order of submission. -/
  waiting : List ι := []
  /-- Whether there were workers ever. -/
  isStarted : Bool := false
  /-- The number of workers without a job. -/
  idle : Nat := 0
  /-- The number of workers with a job. -/
  busy : Nat := 0
  /-- The number of workers that are gone. -/
  stopped : Nat := 0
deriving DecidableEq, Repr

namespace Pool

variable {ι : Type}

/-- A pool without workers. It has to have room for a job at least. -/
def create (capacity : Nat) : Except Fault (Pool ι) := do
  if capacity = 0 then throw .noCapacity
  return { capacity := ← withinCapacity capacity }

/-- Whether there is someone to take a job now or later. -/
def isOpen (p : Pool ι) : Bool :=
  !p.isStarted || decide (0 < p.idle + p.busy)

/-- Puts a job into the queue, if it is accepted. -/
def submit (job : ι) (p : Pool ι) : Bool × Pool ι :=
  if p.isOpen && decide (p.waiting.length < p.capacity) then
    (true, { p with waiting := p.waiting ++ [job] })
  else (false, p)

/-- Starts workers, one at least, and tells their number. It can be done once. -/
def start (workers : Nat) (p : Pool ι) : Nat × Pool ι :=
  if p.isStarted then (0, p)
  else (max 1 workers, { p with isStarted := true, idle := max 1 workers })

/-- The first job, for a worker without one, if there are both. -/
def take? (p : Pool ι) : Option (ι × Pool ι) :=
  match p.waiting with
  | [] => none
  | job :: waiting =>
    if p.idle = 0 then none
    else some (job, { p with waiting, idle := p.idle - 1, busy := p.busy + 1 })

/-- A worker has done its job. -/
def release (p : Pool ι) : Pool ι :=
  { p with busy := p.busy - 1, idle := p.idle + 1 }

/-- The workers without a job go away. -/
def stopIdle (p : Pool ι) : Pool ι :=
  { p with idle := 0, stopped := p.stopped + p.idle }

end Pool

end DatagramCircuits
