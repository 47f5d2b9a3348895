import RoomCast.BackgroundTasks
import RoomCast.Settings
import RoomCast.StartError

namespace RoomCast

/-- What the system answers a server that starts: the address that a listener is bound to, the address
as read back, whether certificate and key make a pair, and whether a listener can be handed over. -/
structure Outside where
  bind : String → UInt16 → Except String String
  address : String → Except String String
  pair : String → String → Except String Unit
  handOver : String → Except String Unit

inductive Endpoint where
  | socket
  | service
deriving DecidableEq, Repr

/-- The endpoints that accept connections, with their addresses, the background tasks, and what has
been logged. -/
structure Listeners where
  accepting : List (Endpoint × String)
  pool : TaskPool
  log : List String
deriving DecidableEq, Repr

structure BoundAddresses where
  socket : String
  service : String
deriving DecidableEq, Repr

namespace Listeners

def beside (pool : TaskPool) : Listeners := ⟨[], pool, []⟩

def track (l : Listeners) : Listeners :=
  let (pool, i) := l.pool.spawn .untilStop
  { l with pool := pool.track i }

def serve (l : Listeners) (endpoint : Endpoint) (address : String) : Listeners :=
  { l.track with accepting := l.accepting ++ [(endpoint, address)] }

def say (l : Listeners) (message : String) : Listeners := { l with log := l.log ++ [message] }

def bindAt (outside : Outside) (host : String) (port : UInt16) : Except StartError String := do
  let bound ← (outside.bind host port).mapError
    (.bind (host ++ ":" ++ toString port.toNat) ·)
  (outside.address bound).mapError (.bind "<bound listener>" ·)

/-- Serves the publish service, encrypted if both paths are set. -/
def serveService (l : Listeners) (outside : Outside) (settings : ServiceSettings) (address : String) :
    Listeners × Except StartError Unit :=
  match settings.tlsPair with
  | none => ((l.serve .service address).say "publish service listening", .ok ())
  | some (certificate, key) =>
    match outside.pair certificate key with
    | .error cause => (l, .error (.certificates cause))
    | .ok () =>
      match outside.handOver address with
      | .error cause => (l, .error (.handOver address cause))
      | .ok () => ((l.track.serve .service address).say "publish service listening (tls)", .ok ())

/-- Binds both listeners, then serves the clients, then the publishers. -/
def start (l : Listeners) (outside : Outside) (settings : Settings) :
    Listeners × Except StartError BoundAddresses :=
  match bindAt outside settings.socket.host settings.socket.port with
  | .error e => (l, .error e)
  | .ok socket =>
    match bindAt outside settings.service.host settings.service.port with
    | .error e => (l, .error e)
    | .ok service =>
      let l := (l.serve .socket socket).say "websocket endpoint listening on /connect"
      match l.serveService outside settings.service service with
      | (l, .error e) => (l, .error e)
      | (l, .ok ()) => (l, .ok ⟨socket, service⟩)

/-- Stops listening, and waits for the tasks as long as the timeout allows. -/
def stop (l : Listeners) (timeout : Nat) : Listeners :=
  let l := [
    "stopping publish service",
    "stopping websocket endpoint",
    "stopping merge layer",
    "stopping connection registry",
    "waiting for tasks to complete",
    "shutdown complete"].foldl say { l with accepting := [] }
  { l with pool := l.pool.graceful [] (some timeout) }

end Listeners

end RoomCast
