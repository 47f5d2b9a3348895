import RoomCast.JsonLexeme

namespace RoomCast

def digitsValue (ds : List Char) : Nat := ds.foldl (fun n c => n * 10 + digitValue c) 0

def numeralDigits : List Char → List Char
  | '+' :: ds => ds
  | ds => ds

def numeralValue? (s : String) : Option Nat :=
  let ds := numeralDigits s.toList
  if ds ≠ [] ∧ ds.all Char.isDigit then some (digitsValue ds) else none

def numeralBetween? (lo hi : Nat) (s : String) : Option Nat :=
  match numeralValue? s with
  | some n => if lo ≤ n ∧ n ≤ hi then some n else none
  | none => none

/-- A number with one more digit behind it, unless that is no digit or the number is then more than
`limit`. -/
def pushDigit? (limit n : Nat) (c : Char) : Option Nat :=
  if c.isDigit ∧ n * 10 + digitValue c ≤ limit then some (n * 10 + digitValue c) else none

def wordValue? (limit : Nat) (s : String) : Option Nat :=
  match numeralDigits s.toList with
  | [] => none
  | ds => ds.foldlM (pushDigit? limit) 0

def wordBetween? (limit lo hi : Nat) (s : String) : Option Nat :=
  match wordValue? limit s with
  | some n => if lo ≤ n ∧ n ≤ hi then some n else none
  | none => none

end RoomCast
