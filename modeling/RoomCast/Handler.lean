import RoomCast.ClientRequest
import RoomCast.Registry

namespace RoomCast

namespace Registry

def connection? (r : Registry) (seat : Nat) : Option Connection := r.roster[seat]?

/-- Answers a ping: a heartbeat, and a `PONG` if the queue takes it. -/
def ping (r : Registry) (seat now : Nat) : Registry :=
  r.updateConnection seat fun c => ((c.keepAlive now).send pongFrame).1

/-- Joins a room, unless the connection has joined it or as many as it may. -/
def join (r : Registry) (seat : Nat) (room : String) : Registry :=
  match r.connection? seat with
  | none => r
  | some c =>
    if c.roomLimit ≤ c.rooms.length then r
    else if c.isMember room then r
    else
      match r.joinRoom room c.id with
      | (r, .ok ()) => r.updateConnection seat fun c => (c.recordJoin room).1
      | (r, .error _) => r

def leave (r : Registry) (seat : Nat) (room : String) : Registry :=
  match r.connection? seat with
  | none => r
  | some c =>
    if c.isMember room then
      (r.leaveRoom room c.id).1.updateConnection seat fun c => (c.recordLeave room).1
    else r

/-- Does what a frame asks for; a frame that asks for nothing does nothing. -/
def handle (r : Registry) (seat now : Nat) (e : Envelope) : Registry :=
  match ClientRequest.ofEnvelope e with
  | .ok (some .ping) => r.ping seat now
  | .ok (some (.join room)) => r.join seat room
  | .ok (some (.leave room)) => r.leave seat room
  | .ok none => r
  | .error _ => r

/-- Closes a connection, takes it out of all its rooms and then out of its shard, and tells whether
the shard held it. -/
def teardown (r : Registry) (seat : Nat) : Registry × Bool :=
  match r.connection? seat with
  | none => (r, false)
  | some c =>
    let r := r.updateConnection seat fun c => (c.close.1.takeRooms).2
    let r := c.rooms.foldl (fun r room => (r.leaveRoom room c.id).1) r
    let (r, held) := r.removeConnection c.id
    (r, held.isSome)

end Registry

end RoomCast
