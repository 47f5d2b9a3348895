import RoomCast.MergeWorker
import RoomCast.Settings

namespace RoomCast

/-- The worker of a room among `workers`: its bytes as digits in base 33, reduced at every step. -/
def roomWorker (room : String) (workers : Nat) : Nat :=
  room.toUTF8.toList.foldl (fun h b => (h * 33 + b.toNat) % max workers 1) 0

inductive MergeError where
  | queueFull
  | shutDown
deriving DecidableEq, Repr

def MergeError.message : MergeError → String
  | .queueFull => "merge queue full"
  | .shutDown => "merge layer shut down"

structure BatchTimer where
  lane : Nat
  key : BatchKey
  number : Nat
  due : Nat
deriving DecidableEq, Repr

structure MergeLane where
  input : List MergeItem
  expiries : List BatchTimer
  worker : MergeWorker
deriving DecidableEq, Repr

/-- The merge layer. The first lane serves broadcasts. -/
structure MergeLayer where
  capacity : Nat
  delay : Nat
  lanes : List MergeLane
  /-- The timers that run, in the order of their start. -/
  timers : List BatchTimer
  cancelled : Bool
  stopped : Bool
  counters : MergeCounters

abbrev MergeMove := MergeLayer × Option Commit

namespace MergeLayer

/-- How many fired timers may wait for a worker. -/
def expiryCapacity : Nat := 64

/-- A layer with its workers at their start; no room workers count as one. -/
def create (settings : MergeSettings) : MergeLayer where
  capacity := settings.channelSize.toNat
  delay := settings.maxDelayMs.toNat
  lanes := List.replicate (max settings.workerCount.toNat 1 + 1)
    ⟨[], [], .create settings.maxBatchSize.toNat⟩
  timers := []
  cancelled := false
  stopped := false
  counters := ⟨0, 0, 0, 0⟩

def roomWorkers (m : MergeLayer) : Nat := m.lanes.length - 1

def laneOf (m : MergeLayer) : BatchKey → Nat
  | .broadcast => 0
  | .room name => roomWorker name m.roomWorkers + 1

def push (m : MergeLayer) (item : MergeItem) : MergeLayer × Except MergeError Unit :=
  if m.cancelled || m.stopped then (m, .error .shutDown)
  else
    match m.lanes[m.laneOf item.key]? with
    | none => (m, .error .shutDown)
    | some lane =>
      if m.capacity ≤ lane.input.length then
        ({ m with counters := { m.counters with drops := m.counters.drops + 1 } }, .error .queueFull)
      else
        ({ m with
          lanes := m.lanes.set (m.laneOf item.key) { lane with input := lane.input ++ [item] } },
          .ok ())

def abortTimer (timers : List BatchTimer) (lane : Nat) (key : BatchKey) (number : Nat) :
    List BatchTimer :=
  timers.filter fun t => !(t.lane = lane && t.key = key && t.number = number)

def takeItem (m : MergeLayer) (i now : Nat) : Option MergeMove :=
  match m.lanes[i]? with
  | none => none
  | some lane =>
    match lane.input with
    | [] => none
    | item :: rest =>
      let number := (lane.worker.batches.get? item.key).map (·.number)
      let (worker, outcome) := lane.worker.onItem item
      let lanes := m.lanes.set i { lane with input := rest, worker := worker }
      match outcome with
      | .committed commit =>
        let timers := match number with
          | some n => abortTimer m.timers i item.key n
          | none => m.timers
        some ({ m with
          lanes := lanes
          timers := timers
          counters := m.counters.afterItem outcome }, some commit)
      | .opened n =>
        some ({ m with
          lanes := lanes
          timers := m.timers ++ [⟨i, item.key, n, now + m.delay⟩] }, none)
      | .gathered => some ({ m with lanes := lanes }, none)

/-- A timer that is due fires, if its worker has room for it to wait. -/
def fire (m : MergeLayer) (k now : Nat) : Option MergeMove :=
  match m.timers[k]? with
  | none => none
  | some t =>
    if now < t.due then none
    else
      match m.lanes[t.lane]? with
      | none => none
      | some lane =>
        if expiryCapacity ≤ lane.expiries.length then none
        else
          some ({ m with
            lanes := m.lanes.set t.lane { lane with expiries := lane.expiries ++ [t] }
            timers := m.timers.eraseIdx k }, none)

def takeExpiry (m : MergeLayer) (i : Nat) : Option MergeMove :=
  match m.lanes[i]? with
  | none => none
  | some lane =>
    match lane.expiries with
    | [] => none
    | t :: rest =>
      let (worker, commit) := lane.worker.onExpiry t.key t.number
      some ({ m with
        lanes := m.lanes.set i { lane with expiries := rest, worker := worker }
        counters := m.counters.afterExpiry commit }, commit)

/-- The workers end: open batches, waiting items and timers are lost. -/
def stopWorkers (m : MergeLayer) : MergeLayer :=
  { m with
    lanes := m.lanes.map fun lane => ⟨[], [], { lane.worker with batches := [] }⟩
    timers := []
    stopped := true }

def firedLane? (m : MergeLayer) : Option Nat :=
  m.lanes.findIdx? fun lane => !lane.expiries.isEmpty

def fireFirst (m : MergeLayer) (now : Nat) (lane : Option Nat) : Option MergeMove :=
  (List.range m.timers.length).findSome? fun k =>
    if lane.all fun i => m.timers[k]?.all (·.lane = i) then m.fire k now else none

/-- The next step in the order of settling: workers take all their items before a timer that is due
fires, and a worker that a timer has woken attends to all its timers before another is woken. -/
def step? (m : MergeLayer) (now : Nat) : Option MergeMove :=
  if m.stopped then none
  else if m.cancelled then some (m.stopWorkers, none)
  else
    match m.firedLane? with
    | some i => m.fireFirst now (some i) <|> m.takeExpiry i
    | none =>
      (List.range m.lanes.length).findSome? (m.takeItem · now) <|> m.fireFirst now none

/-- A bound on the steps that are left while time stands still. -/
def work (m : MergeLayer) : Nat :=
  total (m.lanes.map fun lane => 3 * lane.input.length + lane.expiries.length) +
    2 * m.timers.length + 1

def run (now : Nat) : Nat → MergeLayer → MergeLayer × List Commit
  | 0, m => (m, [])
  | n + 1, m =>
    match m.step? now with
    | none => (m, [])
    | some (m, commit) =>
      let (m, commits) := run now n m
      (m, commit.toList ++ commits)

def settle (m : MergeLayer) (now : Nat) : MergeLayer × List Commit := run now m.work m

def nextDue (m : MergeLayer) : Option Nat := (m.timers.map (·.due)).min?

/-- Settles at every time up to `limit` at which a timer is due, at most `rounds` times, and gives the
committed batches with their times. -/
def settleUntil (limit : Nat) : Nat → MergeLayer → MergeLayer × List (Nat × Commit)
  | 0, m => (m, [])
  | rounds + 1, m =>
    match m.nextDue with
    | none => (m, [])
    | some time =>
      if time ≤ limit then
        let (m, commits) := m.settle time
        let (m, later) := settleUntil limit rounds m
        (m, commits.map (time, ·) ++ later)
      else (m, [])

/-- Lets time pass from `now`. Settling leaves no timer that is due, so the duration bounds the
rounds. -/
def advance (m : MergeLayer) (now duration : Nat) : MergeLayer × List (Nat × Commit) :=
  let (m, first) := m.settle now
  let (m, later) := settleUntil (now + duration) (duration + 1) m
  (m, first.map (now, ·) ++ later)

def shutdown (m : MergeLayer) : MergeLayer := { m with cancelled := true }

def taskCount (m : MergeLayer) : Nat := m.lanes.length

end MergeLayer

end RoomCast
