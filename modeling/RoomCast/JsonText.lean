import RoomCast.JsonValue

namespace RoomCast

def hexChar (n : Nat) : Char := Nat.digitChar n

def escapedChar (c : Char) : List Char :=
  match c with
  | '"' => ['\\', '"']
  | '\\' => ['\\', '\\']
  | '\x08' => ['\\', 'b']
  | '\x0c' => ['\\', 'f']
  | '\n' => ['\\', 'n']
  | '\r' => ['\\', 'r']
  | '\t' => ['\\', 't']
  | c =>
    if c.toNat < 0x20 then ['\\', 'u', '0', '0', hexChar (c.toNat / 16), hexChar (c.toNat % 16)]
    else [c]

def literal (s : String) : List Char := '"' :: s.toList.flatMap escapedChar ++ ['"']

def commaSeparated : List (List Char) → List Char
  | [] => []
  | [p] => p
  | p :: q :: ps => p ++ ',' :: commaSeparated (q :: ps)

def bracketed (items : List (List Char)) : List Char := '[' :: commaSeparated items ++ [']']

def braced (members : List (String × List Char)) : List Char :=
  '\x7b' :: commaSeparated (members.map fun m => literal m.1 ++ ':' :: m.2) ++ ['\x7d']

def Number.written : Number → List Char
  | .integer i => (toString i).toList
  | .float x => x.text.toList

mutual

def Json.written : Json → List Char
  | .null => ['n', 'u', 'l', 'l']
  | .boolean true => ['t', 'r', 'u', 'e']
  | .boolean false => ['f', 'a', 'l', 's', 'e']
  | .number n => n.written
  | .text s => literal s
  | .list items => bracketed (Json.writtenItems items)
  | .object members => braced (Json.writtenMembers members)
termination_by structural v => v

def Json.writtenItems : List Json → List (List Char)
  | [] => []
  | v :: vs => v.written :: Json.writtenItems vs
termination_by structural vs => vs

def Json.writtenMembers : List (String × Json) → List (String × List Char)
  | [] => []
  | (k, v) :: ms => (k, v.written) :: Json.writtenMembers ms
termination_by structural ms => ms

end

def Json.toText (v : Json) : String := String.ofList v.written

end RoomCast
