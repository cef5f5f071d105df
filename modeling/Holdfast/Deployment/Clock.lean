import Holdfast.Deployment.Job

namespace Holdfast.Deployment

/-- How many steps anybody may take while the clock stands still; nobody who pauses at all between
two rounds of the same work needs as many. -/
def stride : Nat := 10000

/-- How often the clock may move in one go. -/
def horizon : Nat := 100000000

/-- Moves a job on until it waits, and tells whether it moved. -/
def driveJob (fuel : Nat) (d : Deployment) (j : Job) : Bool × Deployment × Job :=
  match fuel with
  | 0 => (false, d, j)
  | fuel + 1 =>
    match d.stepJob j with
    | none => (false, d, j)
    | some (d, j) => (true, (driveJob fuel d j).2)

/-- Moves a background job on, and notes when it is done. -/
def driveTask (d : Deployment) (id : Nat) : Bool × Deployment :=
  match d.tasks.get? id with
  | none => (false, d)
  | some task =>
    if task.doneAt.isSome then (false, d) else
    let (moved, d, job) := driveJob stride d task.job
    let doneAt := if d.isOver job then some d.now else none
    (moved || doneAt.isSome, { d with tasks := d.tasks.set id { job, doneAt } })

def driveListener (fuel : Nat) (d : Deployment) (id index : Nat) : Bool × Deployment :=
  match fuel with
  | 0 => (false, d)
  | fuel + 1 =>
    match d.monitors[id]? with
    | none => (false, d)
    | some m =>
      match m.listeners[index]?.bind (d.stepListener m) with
      | none => (false, d)
      | some (d, l) =>
        let m := { m with listeners := m.listeners.set index l }
        (true, (driveListener fuel { d with monitors := d.monitors.set id m } id index).2)

def driveMonitor (d : Deployment) (id : Nat) : Bool × Deployment :=
  let count := (d.monitors[id]?.map fun m => m.listeners.length).getD 0
  (List.range count).foldl (fun (moved, d) index =>
    let (more, d) := driveListener stride d id index
    (moved || more, d)) (false, d)

/-- Gives everybody a turn: the job in front, those in the background, then the listeners. -/
def turn (d : Deployment) (j : Job) : Bool × Deployment × Job :=
  let (moved, d, j) := driveJob stride d j
  let (moved, d) := (d.tasks.map Prod.fst).foldl (fun (moved, d) id =>
    let (more, d) := driveTask d id
    (moved || more, d)) (moved, d)
  let (moved, d) := (List.range d.monitors.length).foldl (fun (moved, d) id =>
    let (more, d) := driveMonitor d id
    (moved || more, d)) (moved, d)
  (moved, d, j)

/-- Gives turns until everybody waits. -/
def settleWith (fuel : Nat) (d : Deployment) (j : Job) : Deployment × Job :=
  match fuel with
  | 0 => (d, j)
  | fuel + 1 =>
    match d.turn j with
    | (true, d, j) => settleWith fuel d j
    | (false, d, j) => (d, j)

def settle (d : Deployment) : Deployment := (settleWith stride d .idle).1

/-- The times at which anybody who waits goes on by itself. -/
def dues (d : Deployment) (j : Job) : List Nat :=
  j.due?.toList
    ++ d.tasks.filterMap (fun (_, t) => if t.doneAt.isSome then none else t.job.due?)
    ++ d.monitors.flatMap (fun m => m.listeners.filterMap Monitor.listenerDue?)

/-- The first moment after now at which something happens, the limit included. -/
def nextMoment? (d : Deployment) (j : Job) (limit : Option Nat) : Option Nat :=
  ((limit.toList ++ d.dues j).filter (d.now < ·)).min?

/-- Works until the job is over or the limit is reached; a job that is over at the limit counts. -/
def runJob (fuel : Nat) (d : Deployment) (j : Job) (limit : Option Nat) : Deployment × Job :=
  match fuel with
  | 0 => (d, j)
  | fuel + 1 =>
    let (d, j) := settleWith stride d j
    if d.isOver j || limit.any (· ≤ d.now) then (d, j) else
    match d.nextMoment? j limit with
    | none => (d, j)
    | some now => runJob fuel { d with now } j limit

def perform (d : Deployment) (j : Job) : Deployment × Job := runJob horizon d j none

/-- Works on a job for some milliseconds, and drops it if it is not over by then. -/
def performFor (d : Deployment) (j : Job) (ms : Nat) : Deployment × Option Job :=
  let (d, j) := runJob horizon d j (some (d.now + ms))
  if d.isOver j then (d, some j) else ((d.abandon j).settle, none)

def advance (d : Deployment) (ms : Nat) : Deployment := (d.performFor .idle ms).1

/-- Puts a job into the background. -/
def spawn (d : Deployment) (j : Job) : Deployment × Nat :=
  ({ d with tasks := d.tasks.set d.nextTask { job := j }, nextTask := d.nextTask + 1 }, d.nextTask)

/-- Drops a background job that is not done. -/
def abort (d : Deployment) (id : Nat) : Deployment :=
  match d.tasks.get? id with
  | none => d
  | some task =>
    { d.abandon task.job with tasks := d.tasks.erase id }

end Holdfast.Deployment
