import RoomCast.JsonLexeme

namespace RoomCast

inductive Bracket where
  | list
  | object
deriving DecidableEq, Repr

inductive ScanSpot where
  | value
  | opened
  | key
  | colon
  | ended
  | word (letters : List Char)
  | text (isKey : Bool)
  | escape (isKey : Bool)
  | hex (isKey : Bool) (missing : Nat)
  /-- Inside a numeral: behind its minus, its leading zero, another integer digit, its point, … -/
  | minus
  | zero
  | integer
  | point
  | fraction
  | exponentMark
  | exponentSign
  | exponent
deriving DecidableEq, Repr

inductive ScanMove where
  /-- The value ended before this character. -/
  | stop
  | go (brackets : List Bracket) (spot : ScanSpot)
  | fail (cause : JsonError)
deriving DecidableEq, Repr

def ScanSpot.behindText (isKey : Bool) : ScanSpot := if isKey then .colon else .ended

def ScanMove.atValue (brackets : List Bracket) (c : Char) : ScanMove :=
  if isBlank c then .go brackets .value
  else if c = 'n' then .go brackets (.word ['u', 'l', 'l'])
  else if c = 't' then .go brackets (.word ['r', 'u', 'e'])
  else if c = 'f' then .go brackets (.word ['a', 'l', 's', 'e'])
  else if c = '-' then .go brackets .minus
  else if c = '0' then .go brackets .zero
  else if c.isDigit then .go brackets .integer
  else if c = '"' then .go brackets (.text false)
  else if c = '[' then .go (.list :: brackets) .opened
  else if c = '\x7b' then .go (.object :: brackets) .opened
  else .fail .expectedValue

def ScanMove.atKey (brackets : List Bracket) (c : Char) : ScanMove :=
  if isBlank c then .go brackets .key
  else if c = '"' then .go brackets (.text true)
  else .fail .keyNotText

def ScanMove.atEnd (brackets : List Bracket) (c : Char) : ScanMove :=
  match brackets with
  | [] => .stop
  | .list :: outer =>
    if isBlank c then .go brackets .ended
    else if c = ',' then .go brackets .value
    else if c = ']' then .go outer .ended
    else .fail .expectedListSeparator
  | .object :: outer =>
    if isBlank c then .go brackets .ended
    else if c = ',' then .go brackets .key
    else if c = '\x7d' then .go outer .ended
    else .fail .expectedObjectSeparator

def ScanMove.atOpened (brackets : List Bracket) (c : Char) : ScanMove :=
  match brackets with
  | [] => .stop
  | .list :: outer =>
    if isBlank c then .go brackets .opened
    else if c = ']' then .go outer .ended
    else ScanMove.atValue brackets c
  | .object :: outer =>
    if isBlank c then .go brackets .opened
    else if c = '\x7d' then .go outer .ended
    else ScanMove.atKey brackets c

/-- The move of a scan at `c` with `r` behind it. -/
def ScanSpot.move (spot : ScanSpot) (brackets : List Bracket) (c : Char) (r : List Char) : ScanMove :=
  match spot with
  | .value => ScanMove.atValue brackets c
  | .opened => ScanMove.atOpened brackets c
  | .key => ScanMove.atKey brackets c
  | .colon =>
    if isBlank c then .go brackets .colon
    else if c = ':' then .go brackets .value
    else .fail .expectedColon
  | .ended => ScanMove.atEnd brackets c
  | .word [] => ScanMove.atEnd brackets c
  | .word (w :: ws) =>
    if c = w then .go brackets (if ws = [] then .ended else .word ws) else .fail .expectedWord
  | .text isKey =>
    if c = '"' then .go brackets (.behindText isKey)
    else if c = '\\' then .go brackets (.escape isKey)
    else if c.toNat < 0x20 then .fail .controlCharacter
    else .go brackets (.text isKey)
  | .escape isKey =>
    if c = 'u' then .go brackets (.hex isKey 4)
    else if (shortEscape? c).isSome then .go brackets (.text isKey)
    else .fail .invalidEscape
  | .hex isKey missing =>
    if (hexDigit? c).isSome then
      .go brackets (if missing = 1 then .text isKey else .hex isKey (missing - 1))
    else .fail (hexFault missing (c :: r))
  | .minus =>
    if c = '0' then .go brackets .zero
    else if c.isDigit then .go brackets .integer
    else .fail .invalidNumber
  | .zero =>
    if c.isDigit then .fail .invalidNumber
    else if c = '.' then .go brackets .point
    else if c = 'e' ∨ c = 'E' then .go brackets .exponentMark
    else ScanMove.atEnd brackets c
  | .integer =>
    if c.isDigit then .go brackets .integer
    else if c = '.' then .go brackets .point
    else if c = 'e' ∨ c = 'E' then .go brackets .exponentMark
    else ScanMove.atEnd brackets c
  | .point => if c.isDigit then .go brackets .fraction else .fail .invalidNumber
  | .fraction =>
    if c.isDigit then .go brackets .fraction
    else if c = 'e' ∨ c = 'E' then .go brackets .exponentMark
    else ScanMove.atEnd brackets c
  | .exponentMark =>
    if c = '+' ∨ c = '-' then .go brackets .exponentSign
    else if c.isDigit then .go brackets .exponent
    else .fail .invalidNumber
  | .exponentSign => if c.isDigit then .go brackets .exponent else .fail .invalidNumber
  | .exponent => if c.isDigit then .go brackets .exponent else ScanMove.atEnd brackets c

def missingBracket : List Bracket → Option JsonError
  | [] => none
  | .list :: _ => some .endOfList
  | .object :: _ => some .endOfObject

/-- Why a text may not end where a scan stands, if so. -/
def ScanSpot.endFault (spot : ScanSpot) (brackets : List Bracket) : Option JsonError :=
  match spot with
  | .value => some .endOfValue
  | .opened => missingBracket brackets
  | .key => some .endOfObject
  | .colon => some .endOfObject
  | .ended => missingBracket brackets
  | .word [] => missingBracket brackets
  | .word (_ :: _) => some .endOfValue
  | .text _ => some .endOfText
  | .escape _ => some .endOfText
  | .hex _ _ => some .endOfText
  | .minus => some .invalidNumber
  | .zero => missingBracket brackets
  | .integer => missingBracket brackets
  | .point => some .invalidNumber
  | .fraction => missingBracket brackets
  | .exponentMark => some .invalidNumber
  | .exponentSign => some .invalidNumber
  | .exponent => missingBracket brackets

/-- Carries a scan on to the end of the value it started with, and gives the text behind that. -/
def scan (brackets : List Bracket) (spot : ScanSpot) : List Char → Except JsonError (List Char)
  | [] =>
    match spot.endFault brackets with
    | some cause => .error cause
    | none => .ok []
  | c :: r =>
    match spot.move brackets c r with
    | .stop => .ok (c :: r)
    | .go brackets spot => scan brackets spot r
    | .fail cause => .error cause

def skipValue (s : List Char) : Except JsonError (List Char) := scan [] .value s

/-- A piece of JSON text that is carried as it was written. -/
structure Fragment where
  text : String
deriving DecidableEq, Repr, Inhabited

def Fragment.read : Reader Fragment := fun s => do
  let s := skipBlanks s
  let rest ← skipValue s
  return (⟨String.ofList (s.take (s.length - rest.length))⟩, rest)

def finishText (rest : List Char) : Except JsonError Unit :=
  match skipBlanks rest with
  | [] => .ok ()
  | _ :: _ => .error .trailingCharacters

def Reader.readAll {α : Type} (reader : Reader α) (text : String) : Except JsonError α := do
  let (a, rest) ← reader text.toList
  finishText rest
  return a

def Fragment.ofString (text : String) : Except JsonError Fragment := Fragment.read.readAll text

end RoomCast
