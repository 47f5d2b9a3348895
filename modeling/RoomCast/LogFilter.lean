namespace RoomCast

/-- How urgent a message is; a filter lets pass what is as urgent as its level or more so. -/
inductive LogLevel where
  | off
  | error
  | warn
  | info
  | debug
  | trace
deriving DecidableEq, Repr

namespace LogLevel

def rank : LogLevel → Nat
  | .off => 0
  | .error => 1
  | .warn => 2
  | .info => 3
  | .debug => 4
  | .trace => 5

def all : List LogLevel := [.off, .error, .warn, .info, .debug, .trace]

def name : LogLevel → String
  | .off => "off"
  | .error => "error"
  | .warn => "warn"
  | .info => "info"
  | .debug => "debug"
  | .trace => "trace"

def ofString? (s : String) : Option LogLevel :=
  all.find? fun level => level.name = s.toLower || toString level.rank = s

end LogLevel

/-- A directive: what begins the targets that it is about, and their level. -/
structure LogDirective where
  target : String
  level : LogLevel
deriving DecidableEq, Repr

def isTarget (s : String) : Bool :=
  s ≠ "" && s.toList.all fun c => c.isAlphanum || c = '_' || c = ':' || c = '-'

/-- Reads a directive. A target without a level lets everything pass. -/
def LogDirective.ofString? (s : String) : Option LogDirective :=
  match s.splitOn "=" with
  | [word] =>
    match LogLevel.ofString? word with
    | some level => some ⟨"", level⟩
    | none => if isTarget word then some ⟨word, .trace⟩ else none
  | [target, word] =>
    if !isTarget target then none
    else if word = "" then some ⟨target, .trace⟩
    else (LogLevel.ofString? word).map fun level => ⟨target, level⟩
  | _ => none

abbrev LogFilter := List LogDirective

namespace LogFilter

def words (s : String) : List String := (s.splitOn ",").filter (· ≠ "")

/-- The filter of some directives; without any only errors pass. -/
def ofDirectives : List LogDirective → LogFilter
  | [] => [⟨"", .error⟩]
  | directives => directives

def ofString (s : String) : LogFilter := ofDirectives ((words s).filterMap LogDirective.ofString?)

def ofString? (s : String) : Option LogFilter :=
  ((words s).mapM LogDirective.ofString?).map ofDirectives

/-- The directive that decides about a target: of the longest, the last. -/
def deciding (filter : LogFilter) (target : String) : Option LogDirective :=
  filter.foldl (fun best d =>
    if d.target.toList.isPrefixOf target.toList then
      match best with
      | none => some d
      | some b => if b.target.length ≤ d.target.length then some d else some b
    else best) none

def allows (filter : LogFilter) (target : String) (level : LogLevel) : Bool :=
  (filter.deciding target).any fun d => level.rank ≤ d.level.rank

end LogFilter

end RoomCast
