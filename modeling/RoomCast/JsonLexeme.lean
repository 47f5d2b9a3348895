import RoomCast.JsonError

namespace RoomCast

/-- A reader of one piece of a text. -/
abbrev Reader (α : Type) := List Char → Except JsonError (α × List Char)

def isBlank (c : Char) : Bool := c == ' ' || c == '\t' || c == '\n' || c == '\r'

def skipBlanks : List Char → List Char
  | [] => []
  | c :: r => if isBlank c then skipBlanks r else c :: r

def readWord : List Char → List Char → Except JsonError (List Char)
  | [], s => .ok s
  | _ :: _, [] => .error .endOfValue
  | w :: ws, c :: r => if c = w then readWord ws r else .error .expectedWord

def hexDigit? (c : Char) : Option Nat :=
  if c.isDigit then some (c.toNat - '0'.toNat)
  else if 'a' ≤ c ∧ c ≤ 'f' then some (c.toNat - 'a'.toNat + 10)
  else if 'A' ≤ c ∧ c ≤ 'F' then some (c.toNat - 'A'.toNat + 10)
  else none

def bytesAhead (s : List Char) : Nat :=
  (s.take 4).foldl (fun n c => n + c.utf8Size) 0

/-- Why an escape with `missing` digits to go fails at a character that is no digit: four bytes have to
follow `\u`. -/
def hexFault (missing : Nat) (s : List Char) : JsonError :=
  if bytesAhead s < missing then .endOfText else .invalidEscape

def shortEscape? (c : Char) : Option Char :=
  match c with
  | '"' => some '"'
  | '\\' => some '\\'
  | '/' => some '/'
  | 'b' => some '\x08'
  | 'f' => some '\x0c'
  | 'n' => some '\n'
  | 'r' => some '\r'
  | 't' => some '\t'
  | _ => none

def isHighSurrogate (n : Nat) : Bool := 0xD800 ≤ n && n ≤ 0xDBFF

def isLowSurrogate (n : Nat) : Bool := 0xDC00 ≤ n && n ≤ 0xDFFF

def surrogateChar (high low : Nat) : Char :=
  Char.ofNat ((high - 0xD800) * 0x400 + (low - 0xDC00) + 0x10000)

/-- Where the reading of a string literal stands. -/
inductive LiteralSpot where
  | plain
  | escape
  /-- Inside `\u`, with digits to go, their value so far and the high surrogate before it. -/
  | hex (missing : Nat) (value : Nat) (high : Option Nat)
  | paired (high : Nat)
  | pairedEscape (high : Nat)
deriving DecidableEq, Repr

inductive LiteralMove where
  | finish
  | stay (emitted : List Char) (spot : LiteralSpot)
  | fail (cause : JsonError)

/-- The move once `\u` and its four digits stand complete. -/
def LiteralMove.ofUnit (n : Nat) : Option Nat → LiteralMove
  | some h => if isLowSurrogate n then .stay [surrogateChar h n] .plain else .fail .loneSurrogate
  | none =>
    if isLowSurrogate n then .fail .loneSurrogate
    else if isHighSurrogate n then .stay [] (.paired n)
    else .stay [Char.ofNat n] .plain

def LiteralSpot.move (spot : LiteralSpot) (c : Char) (r : List Char) : LiteralMove :=
  match spot with
  | .plain =>
    if c = '"' then .finish
    else if c = '\\' then .stay [] .escape
    else if c.toNat < 0x20 then .fail .controlCharacter
    else .stay [c] .plain
  | .escape =>
    if c = 'u' then .stay [] (.hex 4 0 none)
    else
      match shortEscape? c with
      | some d => .stay [d] .plain
      | none => .fail .invalidEscape
  | .hex missing value high =>
    match hexDigit? c with
    | some d =>
      if missing = 1 then .ofUnit (value * 16 + d) high
      else .stay [] (.hex (missing - 1) (value * 16 + d) high)
    | none => .fail (hexFault missing (c :: r))
  | .paired high => if c = '\\' then .stay [] (.pairedEscape high) else .fail .endOfSurrogatePair
  | .pairedEscape high => if c = 'u' then .stay [] (.hex 4 0 (some high)) else .fail .endOfSurrogatePair

def readLiteral (spot : LiteralSpot) : List Char → Except JsonError (List Char × List Char)
  | [] => .error .endOfText
  | c :: r =>
    match spot.move c r with
    | .finish => .ok ([], r)
    | .fail cause => .error cause
    | .stay emitted spot => do
      let (text, rest) ← readLiteral spot r
      return (emitted ++ text, rest)

def readText : Reader String := fun s => do
  let (text, rest) ← readLiteral .plain s
  return (String.ofList text, rest)

def greatestWord : Nat := Nat.pow 2 64 - 1

/-- The digits of a numeral that fit 64 bits, and the power of ten they stand at. -/
structure Significand where
  digits : Nat
  power : Int
  full : Bool
deriving DecidableEq, Repr

def digitValue (c : Char) : Nat := c.toNat - '0'.toNat

/-- A digit before the point: from the first that does not fit on, digits only raise the power. -/
def Significand.pushInteger (x : Significand) (c : Char) : Significand :=
  if x.full || greatestWord < x.digits * 10 + digitValue c then
    { x with power := x.power + 1, full := true }
  else { x with digits := x.digits * 10 + digitValue c }

/-- A digit behind the point: from the first that does not fit on, digits do not count. -/
def Significand.pushFraction (x : Significand) (c : Char) : Significand :=
  if x.full || greatestWord < x.digits * 10 + digitValue c then { x with full := true }
  else { x with digits := x.digits * 10 + digitValue c, power := x.power - 1 }

def digitRun : List Char → List Char × List Char
  | [] => ([], [])
  | c :: r => if c.isDigit then ((c :: (digitRun r).1), (digitRun r).2) else ([], c :: r)

def Significand.toFloat (negative : Bool) (x : Significand) (shift : Int) : Except JsonError Number :=
  match Binary64.ofDecimal negative x.digits (x.power + shift) with
  | some f => .ok (.float f)
  | none => .error .numberOutOfRange

/-- The number of a numeral without point and exponent: an integer where 64 bits hold it, and `-0` is
a double. -/
def Significand.toNumber (negative : Bool) (x : Significand) : Except JsonError Number :=
  if x.full then x.toFloat negative 0
  else if negative then
    if 0 < x.digits ∧ x.digits ≤ Nat.pow 2 63 then .ok (.integer (-(x.digits : Int)))
    else x.toFloat true 0
  else .ok (.integer x.digits)

def readExponent (negative : Bool) (x : Significand) : Reader Number := fun s =>
  let (minus, s) := match s with
    | '+' :: r => (false, r)
    | '-' :: r => (true, r)
    | s => (false, s)
  match digitRun s with
  | ([], []) => .error .endOfValue
  | ([], _ :: _) => .error .invalidNumber
  | (ds, rest) => do
    let e : Int := ds.foldl (fun n c => n * 10 + digitValue c) 0
    let n ← x.toFloat negative (if minus then -e else e)
    return (n, rest)

def readFraction (negative : Bool) (x : Significand) : Reader Number := fun s =>
  match digitRun s with
  | ([], []) => .error .endOfValue
  | ([], _ :: _) => .error .invalidNumber
  | (ds, rest) =>
    let x := ds.foldl Significand.pushFraction { x with full := false }
    match rest with
    | 'e' :: r => readExponent negative x r
    | 'E' :: r => readExponent negative x r
    | rest => do
      let n ← x.toFloat negative 0
      return (n, rest)

def readNumberTail (negative : Bool) (x : Significand) : Reader Number := fun s =>
  match s with
  | '.' :: r => readFraction negative x r
  | 'e' :: r => readExponent negative x r
  | 'E' :: r => readExponent negative x r
  | s => do
    let n ← x.toNumber negative
    return (n, s)

def readNumber (negative : Bool) : Reader Number := fun s =>
  match s with
  | [] => .error .endOfValue
  | '0' :: r =>
    match r with
    | c :: _ => if c.isDigit then .error .invalidNumber else readNumberTail negative ⟨0, 0, false⟩ r
    | [] => readNumberTail negative ⟨0, 0, false⟩ []
  | c :: r =>
    if c.isDigit then
      let (ds, rest) := digitRun (c :: r)
      readNumberTail negative (ds.foldl Significand.pushInteger ⟨0, 0, false⟩) rest
    else .error .invalidNumber

end RoomCast
