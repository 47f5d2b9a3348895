import RoomCast.ClientRequest
import RoomCast.Heartbeat

namespace RoomCast

inductive ClientMessage where
  | text (content : String)
  | binary
  | ping (payload : String)
  | pong
  | close
  | error
deriving DecidableEq, Repr

/-- What the wire to a client does with a write: it goes through, it blocks, or it fails. -/
inductive WireMode where
  | open
  | stalled
  | failing
deriving DecidableEq, Repr

inductive WireEvent where
  | text (frame : String)
  | pong (payload : String)
  | close
deriving DecidableEq, Repr

inductive ReaderState where
  | reading
  | holding (e : Envelope)
  | ended
deriving DecidableEq, Repr

/-- Where the writer stands, with the time at which a write or the closing began. -/
inductive WriterState where
  | idle
  | writing (frame : String) (since : Nat)
  | closing (since : Nat)
  | ended
deriving DecidableEq, Repr

inductive HandlerState where
  | starting
  | running
  | ended
deriving DecidableEq, Repr

structure Session where
  id : ConnectionId
  seat : Nat
  inboundCapacity : Nat
  /-- Whether the wire answers pings by itself. -/
  answersPings : Bool
  wire : WireMode
  incoming : List ClientMessage
  finished : Bool
  inbound : List Envelope
  reader : ReaderState
  writer : WriterState
  heartbeat : Option Heartbeat
  handler : HandlerState
  /-- All that the client has been shown. -/
  shown : List WireEvent

namespace Session

def create (id : ConnectionId) (seat inboundCapacity : Nat) (answersPings : Bool) (wire : WireMode) :
    Session where
  id := id
  seat := seat
  inboundCapacity := inboundCapacity
  answersPings := answersPings
  wire := wire
  incoming := []
  finished := false
  inbound := []
  reader := .reading
  writer := .idle
  heartbeat := none
  handler := .starting
  shown := []

def abandon (s : Session) : Session :=
  { s with reader := .ended, writer := .ended, handler := .ended }

def heartbeatDue (s : Session) (interval : Nat) : Option Nat := s.heartbeat.bind (·.due interval)

def isOver (s : Session) : Bool :=
  s.reader = .ended && s.writer = .ended && s.handler = .ended && s.heartbeat.all (·.isOver)

def isReading (s : Session) : Bool := s.reader ≠ .ended && !s.finished

def endReader (s : Session) (c : Connection) : Session × Connection :=
  ({ s with reader := .ended, incoming := [] }, c.close.1)

/-- The reader hands a frame to the handler, or holds it while the inbound queue is full. -/
def handOver (s : Session) (e : Envelope) : Session :=
  if s.inbound.length < s.inboundCapacity then
    { s with inbound := s.inbound ++ [e], reader := .reading }
  else { s with reader := .holding e }

/-- A step of the reader. A frame that cannot be decoded ends it, and so do a close, an error and the
end of the stream; other frames that are no text are passed over. -/
def readerStep (s : Session) (c : Connection) : Option (Session × Connection) :=
  match s.reader with
  | .ended => none
  | .holding e =>
    if s.handler = .ended then some (s.endReader c)
    else if s.inbound.length < s.inboundCapacity then some (s.handOver e, c)
    else none
  | .reading =>
    if c.closed then some (s.endReader c)
    else
      match s.incoming with
      | [] => if s.finished then some (s.endReader c) else none
      | message :: rest =>
        let s := { s with incoming := rest }
        match message with
        | .text content =>
          match Envelope.receive content with
          | .ok e => if s.handler = .ended then some (s.endReader c) else some (s.handOver e, c)
          | .error _ => some (s.endReader c)
        | .close => some (s.endReader c)
        | .error => some (s.endReader c)
        | .ping payload =>
          if s.answersPings ∧ s.wire = .open then
            some ({ s with shown := s.shown ++ [.pong payload] }, c)
          else some (s, c)
        | .binary => some (s, c)
        | .pong => some (s, c)

def beginClosing (s : Session) (c : Connection) (now : Nat) : Session × Connection :=
  ({ s with writer := .closing now }, c.close.1)

def endWriter (s : Session) (c : Connection) : Session × Connection :=
  ({ s with writer := .ended }, c.dropQueue)

/-- A step of the writer. A write that fails or takes longer than `limit` is the last. -/
def writerStep (s : Session) (c : Connection) (now limit : Nat) : Option (Session × Connection) :=
  match s.writer with
  | .ended => none
  | .idle =>
    if c.closed then some (s.beginClosing c now)
    else
      match c.receive with
      | none => none
      | some (frame, c) => some ({ s with writer := .writing frame now }, c)
  | .writing frame since =>
    match s.wire with
    | .open => some ({ s with writer := .idle, shown := s.shown ++ [.text frame] }, c)
    | .failing => some (s.beginClosing c now)
    | .stalled => if since + limit ≤ now then some (s.beginClosing c now) else none
  | .closing since =>
    match s.wire with
    | .open =>
      let (s, c) := s.endWriter c
      some ({ s with shown := s.shown ++ [.close] }, c)
    | .failing => some (s.endWriter c)
    | .stalled => if since + limit ≤ now then some (s.endWriter c) else none

def heartbeatStep (s : Session) (c : Connection) (now interval : Nat) :
    Option (Session × Connection) :=
  match s.heartbeat.bind (·.step c now interval) with
  | none => none
  | some (heartbeat, c) => some ({ s with heartbeat := some heartbeat }, c)

def writerDue (s : Session) (limit : Nat) : Option Nat :=
  match s.writer with
  | .writing _ since => some (since + limit)
  | .closing since => some (since + limit)
  | _ => none

/-- Whether the writer's timer was set before that of the heartbeat; of two timers due at once the
one set first fires first. -/
def writerFirst (s : Session) : Bool :=
  match s.writer, s.heartbeat with
  | .writing _ w, some (.waiting h) => w < h
  | .closing w, some (.waiting h) => w < h
  | _, _ => false

end Session

end RoomCast
