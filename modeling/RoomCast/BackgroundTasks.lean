namespace RoomCast

inductive TaskKind where
  | ready
  | sleep (duration : Nat)
  | untilStop
  | linger (duration : Nat)
  | crash
  | forever
deriving DecidableEq, Repr

inductive TaskState where
  | fresh
  | waiting
  | sleeping (due : Nat)
  | done
  | dropped
deriving DecidableEq, Repr

structure BackgroundTask where
  kind : TaskKind
  state : TaskState
deriving DecidableEq, Repr

namespace BackgroundTask

def create (kind : TaskKind) : BackgroundTask := ⟨kind, .fresh⟩

def isOver (task : BackgroundTask) : Bool := task.state = .done || task.state = .dropped

def onStop (task : BackgroundTask) (now : Nat) : TaskState :=
  match task.kind with
  | .untilStop => .done
  | .linger duration => .sleeping (now + duration)
  | _ => .waiting

def step (task : BackgroundTask) (now : Nat) (stopping : Bool) : Option BackgroundTask :=
  match task.state with
  | .fresh =>
    match task.kind with
    | .ready => some { task with state := .done }
    | .crash => some { task with state := .dropped }
    | .sleep duration => some { task with state := .sleeping (now + duration) }
    | _ => some { task with state := .waiting }
  | .waiting =>
    if stopping && task.onStop now ≠ .waiting then some { task with state := task.onStop now }
    else none
  | .sleeping due => if due ≤ now then some { task with state := .done } else none
  | .done => none
  | .dropped => none

/-- Runs a task until it has to wait. No task takes more than three steps at one time. -/
def settle (task : BackgroundTask) (now : Nat) (stopping : Bool) : BackgroundTask :=
  let next (task : BackgroundTask) := (task.step now stopping).getD task
  next (next (next task))

def due (task : BackgroundTask) : Option Nat :=
  match task.state with
  | .sleeping time => some time
  | _ => none

def abort (task : BackgroundTask) : BackgroundTask :=
  if task.isOver then task else { task with state := .dropped }

end BackgroundTask

/-- All tasks that were started, by number, and those that are tracked. -/
structure TaskPool where
  now : Nat
  tasks : List BackgroundTask
  tracked : List Nat
  stopping : Bool
deriving DecidableEq, Repr

namespace TaskPool

def defaultTimeout : Nat := 10000

def empty : TaskPool := ⟨0, [], [], false⟩

def spawn (p : TaskPool) (kind : TaskKind) : TaskPool × Nat :=
  ({ p with tasks := p.tasks ++ [.create kind] }, p.tasks.length)

def isOver (p : TaskPool) (i : Nat) : Bool := p.tasks[i]?.all (·.isOver)

/-- Tracks a task, and forgets the tracked ones that have ended. -/
def track (p : TaskPool) (i : Nat) : TaskPool :=
  { p with tracked := p.tracked.filter (fun j => !p.isOver j) ++ [i] }

def takeTracked (p : TaskPool) : TaskPool × List Nat := ({ p with tracked := [] }, p.tracked)

def shutdown (p : TaskPool) : TaskPool := { p with stopping := true }

def settle (p : TaskPool) : TaskPool :=
  { p with tasks := p.tasks.map fun task => task.settle p.now p.stopping }

def nextDue (p : TaskPool) : Option Nat := (p.tasks.filterMap (·.due)).min?

/-- Settles at every time below `limit` at which a task goes on, until `stop` holds. Each round ends a
task, so their number bounds the rounds. -/
def runBelow (limit : Nat) (stop : TaskPool → Bool) : Nat → TaskPool → TaskPool
  | 0, p => p
  | rounds + 1, p =>
    if stop p then p
    else
      match p.nextDue with
      | none => p
      | some time =>
        if time < limit then runBelow limit stop rounds { p with now := time }.settle else p

def advance (p : TaskPool) (duration : Nat) : TaskPool :=
  let p := p.settle
  let limit := p.now + duration
  let p := runBelow (limit + 1) (fun _ => false) (p.tasks.length + 1) p
  { p with now := limit }.settle

def abort (p : TaskPool) (numbers : List Nat) : TaskPool :=
  { p with tasks := p.tasks.mapIdx fun i task => if i ∈ numbers then task.abort else task }

/-- Gives the stop signal and waits for some tasks and all tracked ones, but no longer than the
timeout; then aborts those that are left. -/
def graceful (p : TaskPool) (extra : List Nat) (timeout : Option Nat) : TaskPool :=
  let (p, tracked) := p.settle.shutdown.takeTracked
  let awaited := extra ++ tracked
  let allOver (p : TaskPool) : Bool := awaited.all p.isOver
  let limit := p.now + timeout.getD defaultTimeout
  if allOver p then p.settle
  else if limit = p.now then (p.abort awaited).settle
  else
    let p := runBelow limit allOver (p.tasks.length + 1) p.settle
    if allOver p then p.settle else ({ p with now := limit }.abort awaited).settle

end TaskPool

end RoomCast
