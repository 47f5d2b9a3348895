import RoomCast.Identity
import RoomCast.Table

namespace RoomCast

inductive SendError where
  | connectionClosed
  | queueFull
deriving DecidableEq, Repr

def SendError.message : SendError → String
  | .connectionClosed => "connection closed"
  | .queueFull => "outbound queue full"

structure ConnectionLimits where
  inbound : Nat
  outbound : Nat
  rooms : Nat
deriving DecidableEq, Repr

structure Connection where
  id : ConnectionId
  capacity : Nat
  roomLimit : Nat
  /-- Frames queued and not yet taken, oldest first. -/
  outbound : List String
  receiving : Bool
  closed : Bool
  heartbeat : Nat
  /-- The joined rooms in text order. -/
  rooms : List String
  dropped : Nat
deriving DecidableEq, Repr

namespace Connection

/-- A new connection at a time, which counts as its first heartbeat. -/
def create (id : ConnectionId) (limits : ConnectionLimits) (now : Nat) : Connection where
  id := id
  capacity := limits.outbound
  roomLimit := limits.rooms
  outbound := []
  receiving := true
  closed := false
  heartbeat := now
  rooms := []
  dropped := 0

def send (c : Connection) (frame : String) : Connection × Except SendError Unit :=
  if c.closed then (c, .error .connectionClosed)
  else if !c.receiving then (c, .error .connectionClosed)
  else if c.capacity ≤ c.outbound.length then
    ({ c with dropped := c.dropped + 1 }, .error .queueFull)
  else ({ c with outbound := c.outbound ++ [frame] }, .ok ())

def receive (c : Connection) : Option (String × Connection) :=
  match c.outbound with
  | [] => none
  | frame :: rest => some (frame, { c with outbound := rest })

def dropQueue (c : Connection) : Connection := { c with receiving := false, outbound := [] }

/-- Closes a connection, and tells whether this closed it. -/
def close (c : Connection) : Connection × Bool :=
  if c.closed then (c, false) else ({ c with closed := true }, true)

def keepAlive (c : Connection) (now : Nat) : Connection := { c with heartbeat := now }

/-- Whether a connection is open and its last heartbeat no older than `interval`. -/
def isAlive (c : Connection) (now interval : Nat) : Bool :=
  !c.closed && now - c.heartbeat ≤ interval

def isMember (c : Connection) (room : String) : Bool := room ∈ c.rooms

def recordJoin (c : Connection) (room : String) : Connection × Bool :=
  if c.isMember room then (c, false)
  else ({ c with rooms := insertOrdered (fun a b => decide (a < b)) room c.rooms }, true)

def recordLeave (c : Connection) (room : String) : Connection × Bool :=
  if c.isMember room then ({ c with rooms := c.rooms.filter (· ≠ room) }, true) else (c, false)

def takeRooms (c : Connection) : List String × Connection := (c.rooms, { c with rooms := [] })

end Connection

end RoomCast
