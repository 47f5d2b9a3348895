import RoomCast.Capacity
import RoomCast.Handler
import RoomCast.Metrics
import RoomCast.Publish
import RoomCast.Session

namespace RoomCast

structure Server where
  settings : Settings
  now : Nat
  registry : Registry
  merge : MergeLayer
  sessions : List Session
  identities : IdentitySource
  stopping : Bool
  figures : SessionCounters
  showsFigures : Bool

namespace Server

def create (settings : Settings) (identities : IdentitySource) (showsFigures : Bool) : Server where
  settings := settings
  now := 0
  registry := .create settings.registry
  merge := .create settings.merge
  sessions := []
  identities := identities
  stopping := false
  figures := ⟨0, 0, 0, 0⟩
  showsFigures := showsFigures

def canRun (settings : Settings) : Bool := settings.registry.canRun && settings.merge.canRun

def metrics (srv : Server) : List Metric :=
  srv.figures.metrics ++ srv.registry.counters.metrics ++ srv.merge.counters.metrics

/-- Opens a session under an identity, and gives its number. A session whose queues cannot be made is
over before it begins. -/
def openSession (srv : Server) (id : ConnectionId) (answersPings : Bool) (wire : WireMode) :
    Server × Nat :=
  let limits := srv.settings.socket.limits
  let connection := Connection.create id limits srv.now
  let connection := if limits.canRun then connection else connection.close.1.dropQueue
  let (registry, seat) := srv.registry.seatConnection connection
  let session := Session.create id seat limits.inbound answersPings wire
  let session := if limits.canRun then session else session.abandon
  ({ srv with registry := registry, sessions := srv.sessions ++ [session] }, srv.sessions.length)

def updateSession (srv : Server) (i : Nat) (f : Session → Session) : Server :=
  { srv with sessions := srv.sessions.modify i f }

def session? (srv : Server) (i : Nat) : Option (Session × Connection) :=
  match srv.sessions[i]? with
  | none => none
  | some s => (srv.registry.connection? s.seat).map fun c => (s, c)

def putSession (srv : Server) (i : Nat) (s : Session) (c : Connection) : Server :=
  { srv with
    sessions := srv.sessions.set i s
    registry := srv.registry.updateConnection s.seat fun _ => c }

def arrive (srv : Server) (i : Nat) (message : ClientMessage) : Server :=
  srv.updateSession i fun s => { s with incoming := s.incoming ++ [message] }

def say? (srv : Server) (i : Nat) (message : ClientMessage) : Option Server :=
  if srv.sessions[i]?.any (·.isReading) then some (srv.arrive i message) else none

def finish (srv : Server) (i : Nat) : Server := srv.updateSession i ({ · with finished := true })

def rewire (srv : Server) (i : Nat) (wire : WireMode) : Server :=
  srv.updateSession i ({ · with wire := wire })

/-- Gives the stop signal, to everything at once. -/
def stop (srv : Server) : Server :=
  { srv with stopping := true, merge := srv.merge.shutdown, registry := srv.registry.shutdown }

def readerStep (srv : Server) (i : Nat) : Option Server :=
  match srv.session? i with
  | none => none
  | some (s, c) => (s.readerStep c).map fun (s, c) => srv.putSession i s c

def writerStep (srv : Server) (i : Nat) : Option Server :=
  match srv.session? i with
  | none => none
  | some (s, c) =>
    (s.writerStep c srv.now srv.settings.socket.writeTimeoutMs.toNat).map fun (s, c) =>
      srv.putSession i s c

/-- A step of the heartbeat of a session. A connection that it closes counts as timed out. -/
def heartbeatStep (srv : Server) (i : Nat) : Option Server :=
  match srv.session? i with
  | none => none
  | some (s, c) =>
    (s.heartbeatStep c srv.now srv.settings.socket.heartbeatIntervalMs).map fun (s, c) =>
      let timeouts := (s.heartbeat.map (·.timeouts)).getD 0
      { srv.putSession i s c with
        figures := { srv.figures with timeouts := srv.figures.timeouts + timeouts } }

def startHandler (srv : Server) (i : Nat) (s : Session) : Server :=
  { srv with
    registry := srv.registry.addConnection s.id s.seat
    sessions := srv.sessions.set i { s with
      handler := .running
      heartbeat := Heartbeat.start srv.now srv.settings.socket.heartbeatIntervalMs }
    figures := { srv.figures with
      opened := srv.figures.opened + 1
      active := srv.figures.active + 1 } }

/-- The handler ends: it takes its connection out of the registry, and leaves the frames that wait. -/
def endHandler (srv : Server) (i : Nat) (s : Session) : Server :=
  let (registry, held) := srv.registry.teardown s.seat
  { srv with
    registry := registry
    sessions := srv.sessions.set i { s with handler := .ended, inbound := [] }
    figures := if held then
      { srv.figures with ended := srv.figures.ended + 1, active := srv.figures.active - 1 }
      else srv.figures }

/-- A step of the handler of a session. A closed connection and the stop signal come before any frame
that waits. -/
def handlerStep (srv : Server) (i : Nat) : Option Server :=
  match srv.session? i with
  | none => none
  | some (s, c) =>
    match s.handler with
    | .starting => some (srv.startHandler i s)
    | .ended => none
    | .running =>
      if c.closed || srv.stopping then some (srv.endHandler i s)
      else
        match s.inbound with
        | [] => none
        | e :: rest =>
          some { srv with
            registry := srv.registry.handle s.seat srv.now e
            sessions := srv.sessions.set i { s with inbound := rest } }

/-- The next step of a session in the order of settling: timers, reader, handler, writer. -/
def sessionStep? (srv : Server) (i : Nat) : Option Server :=
  match srv.sessions[i]? with
  | none => none
  | some s =>
    (if s.writerFirst then srv.writerStep i else none) <|> srv.heartbeatStep i <|>
      srv.readerStep i <|> srv.handlerStep i <|> srv.writerStep i

def sessionsStep? (srv : Server) : Option Server :=
  (List.range srv.sessions.length).findSome? srv.sessionStep?

/-- A bound on the steps of a session that are left while time stands still: a message is read,
handled and answered, and every task ends. -/
def sessionWork (srv : Server) (s : Session) : Nat :=
  let queued := match srv.registry.connection? s.seat with
    | some c => c.outbound.length
    | none => 0
  5 * s.incoming.length + 4 * s.inbound.length + 2 * queued + 20

def runSessions : Nat → Server → Server
  | 0, srv => srv
  | n + 1, srv =>
    match srv.sessionsStep? with
    | some srv => runSessions n srv
    | none => srv

def settleSessions (srv : Server) : Server :=
  runSessions (total (srv.sessions.map srv.sessionWork)) srv

/-- A batch reaches the registry; one that is refused is lost. -/
def takeCommit (srv : Server) (commit : Commit) : Server :=
  let target := match commit.key with
    | .broadcast => PushTarget.all
    | .room name => .room name
  { srv with registry := (srv.registry.push ⟨target, commit.payload⟩).1 }

def settleMerge (srv : Server) : Server :=
  let (merge, commits) := srv.merge.settle srv.now
  commits.foldl takeCommit { srv with merge := merge }

def settleRegistry (srv : Server) : Server := { srv with registry := srv.registry.settle }

/-- Takes steps until none is left: all frames are queued before any is written. -/
def settle (srv : Server) : Server := srv.settleSessions.settleMerge.settleRegistry.settleSessions

def sessionDue (srv : Server) (s : Session) : Option Nat :=
  ((s.heartbeatDue srv.settings.socket.heartbeatIntervalMs).toList ++
    (s.writerDue srv.settings.socket.writeTimeoutMs.toNat).toList).min?

def nextDue (srv : Server) : Option Nat :=
  (srv.merge.nextDue.toList ++ srv.sessions.filterMap srv.sessionDue).min?

/-- Settles at every time up to `limit` at which something is due, at most `rounds` times. -/
def settleUntil (limit : Nat) : Nat → Server → Server
  | 0, srv => srv
  | rounds + 1, srv =>
    match srv.nextDue with
    | none => srv
    | some time =>
      if time ≤ limit then settleUntil limit rounds { srv with now := time }.settle else srv

/-- Lets time pass. Settling leaves nothing that is due, so the duration bounds the rounds. -/
def advance (srv : Server) (duration : Nat) : Server :=
  let srv := srv.settle
  let limit := srv.now + duration
  { settleUntil limit (duration + 1) srv with now := limit }.settle

end Server

end RoomCast
