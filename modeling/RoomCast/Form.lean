import RoomCast.LossyText

namespace RoomCast

def splitAtAll (separator : Char) : List Char → List (List Char)
  | [] => [[]]
  | c :: cs =>
    if c = separator then [] :: splitAtAll separator cs
    else
      match splitAtAll separator cs with
      | [] => [[c]]
      | part :: parts => (c :: part) :: parts

def splitAtFirst (separator : Char) : List Char → List Char × List Char
  | [] => ([], [])
  | c :: cs =>
    if c = separator then ([], cs)
    else ((c :: (splitAtFirst separator cs).1), (splitAtFirst separator cs).2)

def hexDigitValue? (c : Char) : Option Nat :=
  if '0' ≤ c ∧ c ≤ '9' then some (c.toNat - '0'.toNat)
  else if 'a' ≤ c ∧ c ≤ 'f' then some (c.toNat - 'a'.toNat + 10)
  else if 'A' ≤ c ∧ c ≤ 'F' then some (c.toNat - 'A'.toNat + 10)
  else none

def escapedByte? (high low : Char) : Option UInt8 :=
  match hexDigitValue? high, hexDigitValue? low with
  | some h, some l => some (UInt8.ofNat (16 * h + l))
  | _, _ => none

/-- The bytes of a name or a value. A `%` without two digits behind it stands for itself. -/
def formBytes : List Char → List UInt8
  | [] => []
  | '%' :: high :: low :: cs =>
    match escapedByte? high low with
    | some b => b :: formBytes cs
    | none => 0x25 :: formBytes (high :: low :: cs)
  | c :: cs => (if c = '+' then [0x20] else String.utf8EncodeChar c) ++ formBytes cs

def formText (cs : List Char) : String := lossyText (formBytes cs)

abbrev Form := List (String × String)

namespace Form

/-- Reads a form. Empty pairs are passed over, and a pair without `=` has an empty value. -/
def ofString (body : String) : Form :=
  ((splitAtAll '&' body.toList).filter (· ≠ [])).map fun part =>
    let (name, value) := splitAtFirst '=' part
    (formText name, formText value)

def values (form : Form) (name : String) : List String :=
  form.filterMap fun p => if p.1 = name then some p.2 else none

end Form

end RoomCast
