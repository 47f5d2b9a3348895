import RoomCast.Connection

namespace RoomCast

inductive HeartbeatEnd where
  | timedOut
  | closed
deriving DecidableEq, Repr

/-- Where a heartbeat stands, with the time at which its timer was set or at which it ended. -/
inductive Heartbeat where
  | waiting (since : Nat)
  | ended (how : HeartbeatEnd) (time : Nat)
deriving DecidableEq, Repr

namespace Heartbeat

/-- A heartbeat that starts now. The checks need a positive interval, and without one none is made. -/
def start (now interval : Nat) : Option Heartbeat := if interval = 0 then none else some (.waiting now)

def step (h : Heartbeat) (c : Connection) (now interval : Nat) : Option (Heartbeat × Connection) :=
  match h with
  | .ended _ _ => none
  | .waiting since =>
    if c.closed then some (.ended .closed now, c)
    else if now < since + interval then none
    else if c.isAlive now interval then some (.waiting now, c)
    else
      let (c, closedNow) := c.close
      some (.ended (if closedNow then .timedOut else .closed) now, c)

def isOver : Heartbeat → Bool
  | .ended _ _ => true
  | .waiting _ => false

def due (h : Heartbeat) (interval : Nat) : Option Nat :=
  match h with
  | .waiting since => some (since + interval)
  | .ended _ _ => none

def timeouts : Heartbeat → Nat
  | .ended .timedOut _ => 1
  | _ => 0

end Heartbeat

structure HeartbeatWatch where
  now : Nat
  interval : Nat
  connection : Connection
  heartbeat : Option Heartbeat
deriving DecidableEq, Repr

namespace HeartbeatWatch

def create (c : Connection) (now interval : Nat) : HeartbeatWatch :=
  ⟨now, interval, c, Heartbeat.start now interval⟩

def due (w : HeartbeatWatch) : Option Nat := w.heartbeat.bind (·.due w.interval)

/-- The heartbeat does what it can at this time. That is one step at most: a check sets the timer
anew, and everything else ends it. -/
def settle (w : HeartbeatWatch) : HeartbeatWatch :=
  match w.heartbeat.bind (·.step w.connection w.now w.interval) with
  | none => w
  | some (heartbeat, connection) => { w with heartbeat := some heartbeat, connection := connection }

def checkUntil (limit : Nat) : Nat → HeartbeatWatch → HeartbeatWatch
  | 0, w => w
  | rounds + 1, w =>
    match w.due with
    | none => w
    | some time => if time ≤ limit then checkUntil limit rounds { w with now := time }.settle else w

/-- Lets time pass. Checks are at least a unit of time apart, which bounds their number. -/
def advance (w : HeartbeatWatch) (duration : Nat) : HeartbeatWatch :=
  let w := w.settle
  let limit := w.now + duration
  let w := checkUntil limit (duration + 1) w
  { w with now := limit }.settle

def keepAlive (w : HeartbeatWatch) : HeartbeatWatch :=
  { w with connection := w.connection.keepAlive w.now }.settle

def close (w : HeartbeatWatch) : HeartbeatWatch :=
  { w with connection := w.connection.close.1 }.settle

end HeartbeatWatch

end RoomCast
