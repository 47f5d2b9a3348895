import RoomCast.SettingsFile

namespace RoomCast

/-- Why arguments are refused; asking for help is one reason. -/
inductive UsageError where
  | help
  | unknownArgument
  | badValue
  | surplusValue
  | repeatedOption
deriving DecidableEq, Repr

def UsageError.exitCode : UsageError → Nat
  | .help => 0
  | _ => 2

structure CommandLine where
  config : Option String
  logLevel : Option String
  jsonLogs : Bool
deriving DecidableEq, Repr

inductive ValueOption where
  | config
  | logLevel
deriving DecidableEq, Repr

namespace CommandLine

def empty : CommandLine := ⟨none, none, false⟩

def set (line : CommandLine) (option : ValueOption) (value : Option String) :
    Except UsageError CommandLine :=
  match option, value with
  | _, none => .error .badValue
  | .config, some v =>
    if line.config.isSome then .error .repeatedOption
    else if v = "" then .error .badValue
    else .ok { line with config := some v }
  | .logLevel, some v =>
    if line.logLevel.isSome then .error .repeatedOption
    else .ok { line with logLevel := some v }

/-- An option that waits: for its value, or to be set. -/
abbrev Pending := Option (ValueOption × Option String)

def settle (line : CommandLine) : Pending → Except UsageError CommandLine
  | none => .ok line
  | some (option, value) => line.set option value

inductive Argument where
  /-- `--`, behind which there are no options. -/
  | separator
  | long (name : String) (value : Option String)
  | short (letter : Char)
  | plain (text : String)
deriving DecidableEq, Repr

def splitValue : List Char → List Char × Option (List Char)
  | [] => ([], none)
  | '=' :: r => ([], some r)
  | c :: r => ((c :: (splitValue r).1), (splitValue r).2)

def Argument.ofString (s : String) : Argument :=
  match s.toList with
  | ['-', '-'] => .separator
  | '-' :: '-' :: r =>
    let (name, value) := splitValue r
    .long (String.ofList name) (value.map String.ofList)
  | '-' :: c :: _ => .short c
  | _ => .plain s

/-- Reads arguments; `closed` once the separator has been seen. -/
def readArguments : Bool → CommandLine → Pending → List String → Except UsageError CommandLine
  | _, line, pending, [] => line.settle pending
  | true, _, _, _ :: _ => .error .unknownArgument
  | false, line, pending, arg :: args =>
    match Argument.ofString arg with
    | .separator => readArguments true line pending args
    | .long "config" value => do
      let line ← line.settle pending
      match value with
      | some v =>
        let line ← line.set .config (some v)
        readArguments false line none args
      | none => readArguments false line (some (.config, none)) args
    | .long "log-level" value => do
      let line ← line.settle pending
      match value with
      | some v =>
        let line ← line.set .logLevel (some v)
        readArguments false line none args
      | none => readArguments false line (some (.logLevel, none)) args
    | .long "json-logs" none => do
      let line ← line.settle pending
      if line.jsonLogs then throw .repeatedOption
      readArguments false { line with jsonLogs := true } none args
    | .long "json-logs" (some _) => .error .surplusValue
    | .long "help" none => do
      let _ ← line.settle pending
      throw .help
    | .long "help" (some _) => .error .surplusValue
    | .long _ _ => .error .unknownArgument
    | .short 'h' => do
      let _ ← line.settle pending
      throw .help
    | .short _ => .error .unknownArgument
    | .plain v =>
      match pending with
      | some (option, none) => readArguments false line (some (option, some v)) args
      | _ => .error .unknownArgument

def parse (args : List String) : Except UsageError CommandLine := readArguments false empty none args

def apply (line : CommandLine) (s : Settings) : Settings :=
  { s with logging := ⟨line.logLevel.getD s.logging.level, line.jsonLogs || s.logging.json⟩ }

def load (line : CommandLine) (look : String → FileEntry) (env : Environment) :
    Except SettingsError Settings :=
  return line.apply (← loadSettings look env line.config)

end CommandLine

def loadFailure : String := "Failed to load settings"

end RoomCast
