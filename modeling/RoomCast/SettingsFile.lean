import RoomCast.FileTree
import RoomCast.JsonMerge
import RoomCast.Overrides

namespace RoomCast

inductive ReadFault where
  | isDirectory
  | notText
  | other (reason : String)
deriving DecidableEq, Repr

def ReadFault.message : ReadFault → String
  | .isDirectory => "Is a directory (os error 21)"
  | .notText => "stream did not contain valid UTF-8"
  | .other reason => reason

inductive SettingsError where
  | unreadable (fault : ReadFault)
  | malformed (cause : JsonError)
  | invalid (cause : Settings.Invalid)
deriving DecidableEq, Repr

def SettingsError.message : SettingsError → String
  | .unreadable fault => "failed to read settings file: " ++ fault.message
  | .malformed cause => "failed to parse settings JSON: " ++ cause.message
  | .invalid cause => "invalid settings value: " ++ cause.message

def configVariable : String := "FANOUT_CONFIG"

def configFileName : String := "config.json"

def joinPath (directory name : String) : String :=
  if directory.endsWith "/" then directory ++ name else directory ++ "/" ++ name

/-- The settings file: the one asked for, else the one the environment names; a directory stands
for the file it holds. -/
def settingsPath (look : String → FileEntry) (env : Environment) (asked : Option String) :
    Option String :=
  let named := (env configVariable).filter (· ≠ "")
  (asked <|> named).map fun path =>
    match look path with
    | .directory => joinPath path configFileName
    | _ => path

/-- The default settings as a value in key order. -/
def defaultsJson : Json := Settings.defaults.toJson.sorted

/-- The settings that a value holds, under the environment, if they can be run. -/
def settleSettings (env : Environment) (v : Json) : Except SettingsError Settings := do
  let s ← (Settings.ofJson v).mapError .malformed
  let s := s.override env
  (s.validate).mapError .invalid
  return s

def readSettingsText : FileEntry → Except SettingsError (Option String)
  | .absent => .ok none
  | .directory => .error (.unreadable .isDirectory)
  | .file content =>
    match String.fromUTF8? content with
    | some text => .ok (some text)
    | none => .error (.unreadable .notText)

/-- The settings of a text laid over the defaults; without a text, the defaults. -/
def settingsOfText (env : Environment) : Option String → Except SettingsError Settings
  | none => settleSettings env defaultsJson
  | some text => do
    let user ← (Json.parse text).mapError .malformed
    settleSettings env (defaultsJson.overlay user)

def loadSettings (look : String → FileEntry) (env : Environment) (asked : Option String) :
    Except SettingsError Settings :=
  match settingsPath look env asked with
  | none => settingsOfText env none
  | some path => do
    let text ← readSettingsText (look path)
    settingsOfText env text

end RoomCast
