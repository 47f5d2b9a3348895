import RoomCast.Connection

namespace RoomCast

inductive RegistryError where
  | alreadyMember (room : String)
  | notAMember (room : String)
  | dispatchQueueFull
  | shutDown
deriving DecidableEq, Repr

def RegistryError.message : RegistryError → String
  | .alreadyMember room => "already a member of room '" ++ room ++ "'"
  | .notAMember room => "not a member of room '" ++ room ++ "'"
  | .dispatchQueueFull => "dispatch queue full"
  | .shutDown => "registry shut down"

/-- The members of a room in the order of their identities. -/
structure Room where
  members : List ConnectionId
deriving DecidableEq, Repr

namespace Room

def empty : Room := ⟨[]⟩

def insert (room : Room) (id : ConnectionId) : Room × Bool :=
  if id ∈ room.members then (room, false)
  else (⟨insertOrdered (fun a b => decide (a.value < b.value)) id room.members⟩, true)

def remove (room : Room) (id : ConnectionId) : Room × Bool :=
  if id ∈ room.members then (⟨room.members.filter (· ≠ id)⟩, true) else (room, false)

def size (room : Room) : Nat := room.members.length

end Room

/-- Every connection there has been, in the order of their making. -/
abbrev Roster := List Connection

/-- A frame offered to some connections: how many took it, and how many dropped it. -/
structure Offered where
  roster : Roster
  delivered : Nat
  dropped : Nat

def Offered.step (frame : String) (o : Offered) (seat : Nat) : Offered :=
  match o.roster[seat]? with
  | none => o
  | some c =>
    let (c, outcome) := c.send frame
    let roster := o.roster.set seat c
    match outcome with
    | .ok () => ⟨roster, o.delivered + 1, o.dropped⟩
    | .error .queueFull => ⟨roster, o.delivered, o.dropped + 1⟩
    | .error .connectionClosed => ⟨roster, o.delivered, o.dropped⟩

def Roster.offer (roster : Roster) (seats : List Nat) (frame : String) : Offered :=
  seats.foldl (Offered.step frame) ⟨roster, 0, 0⟩

inductive PushTarget where
  | all
  | room (name : String)
deriving DecidableEq, Repr

structure Shard where
  index : Nat
  connections : Table ConnectionId Nat
  rooms : Table String Room
deriving DecidableEq, Repr

namespace Shard

def empty (index : Nat) : Shard := ⟨index, [], []⟩

/-- Takes up a connection, in place of an earlier one of the same identity. -/
def addConnection (s : Shard) (id : ConnectionId) (seat : Nat) : Shard :=
  { s with connections := s.connections.put id seat }

def removeConnection (s : Shard) (id : ConnectionId) : Shard × Option Nat :=
  ({ s with connections := s.connections.remove id }, s.connections.get? id)

def roomOf (s : Shard) (name : String) : Room := (s.rooms.get? name).getD .empty

def openRoom (s : Shard) (name : String) : Shard :=
  match s.rooms.get? name with
  | some _ => s
  | none => { s with rooms := s.rooms.put name .empty }

def joinRoom (s : Shard) (name : String) (id : ConnectionId) : Shard × Except RegistryError Unit :=
  let s := s.openRoom name
  let (room, new) := (s.roomOf name).insert id
  ({ s with rooms := s.rooms.put name room },
    if new then .ok () else .error (.alreadyMember name))

/-- Removes an identity from a room, and the room with its last member. -/
def leaveRoom (s : Shard) (name : String) (id : ConnectionId) : Shard × Except RegistryError Unit :=
  match s.rooms.get? name with
  | none => (s, .error (.notAMember name))
  | some room =>
    let (room, present) := room.remove id
    if !present then (s, .error (.notAMember name))
    else if room.members = [] then ({ s with rooms := s.rooms.remove name }, .ok ())
    else ({ s with rooms := s.rooms.put name room }, .ok ())

def seats (s : Shard) : PushTarget → List Nat
  | .all => s.connections.map (·.2)
  | .room name => (s.roomOf name).members.filterMap fun id => s.connections.get? id

/-- Offers a frame to the connections that a push is for. -/
def broadcast (s : Shard) (roster : Roster) (target : PushTarget) (frame : String) : Offered :=
  roster.offer (s.seats target) frame

def connectionCount (s : Shard) : Nat := s.connections.length

def roomCount (s : Shard) : Nat := s.rooms.length

def memberCount (s : Shard) (name : String) : Nat := (s.roomOf name).size

end Shard

end RoomCast
