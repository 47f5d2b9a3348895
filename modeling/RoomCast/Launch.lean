import RoomCast.CommandLine
import RoomCast.Listeners
import RoomCast.LogFilter
import RoomCast.Server

namespace RoomCast

structure LogEvent where
  target : String
  message : String
deriving DecidableEq, Repr

/-- What the program has logged, and whether it writes that as JSON. -/
structure LogOutput where
  json : Bool
  events : List LogEvent
deriving DecidableEq, Repr

/-- How the program ends: its exit code, what it says about an error, and what it has logged. -/
structure ProgramEnd where
  exitCode : Nat
  error : Option String
  log : LogOutput
deriving DecidableEq, Repr

structure RunningProgram where
  settings : Settings
  filter : LogFilter
  server : Server
  listeners : Listeners
  addresses : BoundAddresses
  log : LogOutput

inductive Launch where
  | ended (e : ProgramEnd)
  | running (p : RunningProgram)

namespace Launch

def filterVariable : String := "RUST_LOG"

/-- The filter of a program: the one of the variable if it is right, else that of the settings. -/
def filterOf (env : Environment) (settings : Settings) : LogFilter :=
  ((env filterVariable).bind LogFilter.ofString?).getD (.ofString settings.logging.level)

def programTarget : String := "fanout"

def serverTarget : String := "fanout_server"

def passing (filter : LogFilter) (events : List LogEvent) : List LogEvent :=
  events.filter fun e => filter.allows e.target .info

def noLog : LogOutput := ⟨false, []⟩

def failureCode : Nat := 1

def crashCode : Nat := 101

def startFailure : String := "Failed to start server"

def run (env : Environment) (outside : Outside) (seconds : UInt64) (settings : Settings) : Launch :=
  let filter := filterOf env settings
  let log (events : List LogEvent) : LogOutput := ⟨settings.logging.json, passing filter events⟩
  let installed : LogEvent := ⟨serverTarget, "prometheus metrics recorder installed"⟩
  if Server.canRun settings then
    match (Listeners.beside .empty).start outside settings with
    | (l, .error _) =>
      .ended ⟨failureCode, some startFailure, log (installed :: l.log.map (⟨serverTarget, ·⟩))⟩
    | (l, .ok addresses) =>
      .running {
        settings := settings
        filter := filter
        server := .create settings (.ofStartTime seconds) true
        listeners := { l with log := [] }
        addresses := addresses
        log := log (installed :: l.log.map (⟨serverTarget, ·⟩) ++
          [⟨programTarget, "fanout server running"⟩]) }
  else .ended ⟨crashCode, none, log [installed]⟩

def start (args : List String) (look : String → FileEntry) (env : Environment) (outside : Outside)
    (seconds : UInt64) : Launch :=
  match CommandLine.parse args with
  | .error e => .ended ⟨e.exitCode, none, noLog⟩
  | .ok line =>
    match line.load look env with
    | .error _ => .ended ⟨failureCode, some loadFailure, noLog⟩
    | .ok settings => run env outside seconds settings

end Launch

def RunningProgram.stop (p : RunningProgram) : ProgramEnd :=
  let listeners := p.listeners.stop TaskPool.defaultTimeout
  let events : List LogEvent := ⟨Launch.programTarget, "shutdown signal received"⟩ ::
    listeners.log.map (⟨Launch.serverTarget, ·⟩)
  ⟨0, none, { p.log with events := p.log.events ++ Launch.passing p.filter events }⟩

end RoomCast
