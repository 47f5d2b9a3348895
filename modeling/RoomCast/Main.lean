import Mathlib.Tactic.DeprecateTo
import RoomCast.CertificatePair
import RoomCast.Launch
import RoomCast.Service

namespace RoomCast

namespace Console

def variableNames : List String :=
  configVariable :: Launch.filterVariable :: overrides.map (·.name)

def environment : IO Environment := do
  let texts ← variableNames.mapM fun name => do return (name, ← IO.getEnv name)
  return fun name => (Table.get? name texts).join

/-- What the failure to read a path says about it; 21 is the system's code for a directory. -/
def entryOfFailure : IO.Error → FileEntry
  | .inappropriateType _ code _ => if code = 21 then .directory else .absent
  | _ => .absent

def entryAt (path : String) : IO FileEntry := do
  match ← (IO.FS.readBinFile path).toBaseIO with
  | .ok content => return .file content
  | .error failure => return entryOfFailure failure

def settingsPaths (env : Environment) (args : List String) : List String :=
  match CommandLine.parse args with
  | .error _ => []
  | .ok line =>
    match line.config <|> env configVariable with
    | none => []
    | some path => [path, joinPath path configFileName]

def certificatePaths (look : String → FileEntry) (env : Environment) (args : List String) :
    List String :=
  match CommandLine.parse args with
  | .error _ => []
  | .ok line =>
    match line.load look env with
    | .error _ => []
    | .ok settings =>
      match settings.service.tlsPair with
      | none => []
      | some (certificate, key) => [certificate, key]

def entriesAt (paths : List String) : IO (String → FileEntry) := do
  let entries ← paths.mapM fun path => do return (path, ← entryAt path)
  return fun path => (Table.get? path entries).getD .absent

/-- The one client is served over standard input and output, so every address can be had. -/
def outside (look : String → FileEntry) : Outside where
  bind host port := .ok (host ++ ":" ++ toString port.toNat)
  address bound := .ok bound
  pair := loadPair look
  handOver _ := .ok ()

def clock : IO Nat := IO.monoMsNow

/-- The Unix time in seconds, and zero before its epoch. -/
def unixSeconds : IO UInt64 := do
  let now ← Std.Time.Timestamp.now
  return UInt64.ofNat now.toSecondsSinceUnixEpoch.val.toNat

def write (output : IO.FS.Stream) (server : Server) (i seen : Nat) : IO Nat := do
  match server.sessions[i]? with
  | none => return seen
  | some s =>
    for event in s.shown.drop seen do
      match event with
      | .text frame => output.putStrLn frame
      | .pong _ => pure ()
      | .close => pure ()
    output.flush
    return s.shown.length

partial def serve (input output : IO.FS.Stream) (started i seen : Nat) (server : Server) :
    IO Server := do
  let line ← input.getLine
  let elapsed := (← clock) - started
  let server := server.advance (elapsed - server.now)
  let server := if line.isEmpty then server.finish i else server.arrive i (.text line.trimAscii.toString)
  let server := server.settle
  let seen ← write output server i seen
  if line.isEmpty || server.sessions[i]?.all (·.isOver) then return server
  else serve input output started i seen server

def logLine (json : Bool) (event : LogEvent) : String :=
  if json then
    Json.toText (.object [("level", .text "INFO"), ("target", .text event.target),
      ("fields", .object [("message", .text event.message)])])
  else "INFO " ++ event.target ++ ": " ++ event.message

def writeLog (json : Bool) (events : List LogEvent) : IO Unit := do
  let errors ← IO.getStderr
  for event in events do
    errors.putStrLn (logLine json event)

def finish (e : ProgramEnd) (written : Nat) : IO UInt32 := do
  writeLog e.log.json (e.log.events.drop written)
  match e.error with
  | some text => (← IO.getStderr).putStrLn ("Error: " ++ text)
  | none => pure ()
  return UInt32.ofNat e.exitCode

def serveClient (p : RunningProgram) : IO UInt32 := do
  writeLog p.log.json p.log.events
  match p.server.connect Server.connectPath with
  | (_, Except.error _) => pure ()
  | (server, Except.ok i) =>
    let _ ← serve (← IO.getStdin) (← IO.getStdout) (← clock) i 0 server.settle
  finish p.stop p.log.events.length

def run (args : List String) : IO UInt32 := do
  let env ← environment
  let look ← entriesAt (settingsPaths env args)
  let certificates ← entriesAt (certificatePaths look env args)
  match Launch.start args look env (outside certificates) (← unixSeconds) with
  | .ended e => finish e 0
  | .running p => serveClient p

end Console

end RoomCast

def main (args : List String) : IO UInt32 := RoomCast.Console.run args
