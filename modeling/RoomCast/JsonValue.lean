import RoomCast.JsonSkip

namespace RoomCast

inductive Json where
  | null
  | boolean (b : Bool)
  | number (n : Number)
  | text (s : String)
  | list (items : List Json)
  | object (members : List (String × Json))
deriving Repr, Inhabited

def Json.found : Json → Found
  | .null => .null
  | .boolean b => .boolean b
  | .number n => .number n
  | .text s => .text s
  | .list _ => .sequence
  | .object _ => .map

def lookupMember {α : Type} (key : String) : List (String × α) → Option α
  | [] => none
  | (k, v) :: ms => if k = key then some v else lookupMember key ms

/-- Puts a value under a key, in key order, in place of an earlier one. -/
def insertMember {α : Type} (key : String) (value : α) : List (String × α) → List (String × α)
  | [] => [(key, value)]
  | (k, v) :: ms =>
    if key = k then (key, value) :: ms
    else if key < k then (key, value) :: (k, v) :: ms
    else (k, v) :: insertMember key value ms

def sortMembers {α : Type} (members : List (String × α)) : List (String × α) :=
  members.foldl (fun ms m => insertMember m.1 m.2 ms) []

mutual

/-- A value with the members of every object in key order, the last of each key. -/
def Json.sorted : Json → Json
  | .list items => .list (Json.sortedItems items)
  | .object members => .object (sortMembers (Json.sortedMembers members))
  | v => v
termination_by structural v => v

def Json.sortedItems : List Json → List Json
  | [] => []
  | v :: vs => v.sorted :: Json.sortedItems vs
termination_by structural vs => vs

def Json.sortedMembers : List (String × Json) → List (String × Json)
  | [] => []
  | (k, v) :: ms => (k, v.sorted) :: Json.sortedMembers ms
termination_by structural ms => ms

end

/-- Whether another item stands in a list, and the text it starts at. -/
def nextItem (first : Bool) (s : List Char) : Except JsonError (Option (List Char)) :=
  match skipBlanks s with
  | [] => .error .endOfList
  | c :: r =>
    if c = ']' then .ok none
    else if first then .ok (some (c :: r))
    else if c = ',' then
      match skipBlanks r with
      | [] => .error .endOfValue
      | d :: t => if d = ']' then .error .trailingComma else .ok (some (d :: t))
    else .error .expectedListSeparator

def closeList (s : List Char) : Except JsonError (List Char) :=
  match skipBlanks s with
  | [] => .error .endOfList
  | c :: r =>
    if c = ']' then .ok r
    else if c = ',' then
      match skipBlanks r with
      | d :: _ => if d = ']' then .error .trailingComma else .error .trailingCharacters
      | [] => .error .trailingCharacters
    else .error .trailingCharacters

/-- Whether another member stands in an object, and the text behind the opening quote of its key. -/
def nextKey (first : Bool) (s : List Char) : Except JsonError (Option (List Char)) :=
  match skipBlanks s with
  | [] => .error .endOfObject
  | c :: r =>
    if c = '\x7d' then .ok none
    else if first then if c = '"' then .ok (some r) else .error .keyNotText
    else if c = ',' then
      match skipBlanks r with
      | [] => .error .endOfValue
      | d :: t =>
        if d = '"' then .ok (some t)
        else if d = '\x7d' then .error .trailingComma
        else .error .keyNotText
    else .error .expectedObjectSeparator

def closeObject (s : List Char) : Except JsonError (List Char) :=
  match skipBlanks s with
  | [] => .error .endOfObject
  | c :: r =>
    if c = '\x7d' then .ok r
    else if c = ',' then .error .trailingComma
    else .error .trailingCharacters

def readColon (s : List Char) : Except JsonError (List Char) :=
  match skipBlanks s with
  | [] => .error .endOfObject
  | c :: r => if c = ':' then .ok r else .error .expectedColon

/-- Reads the items of a list up to its closing bracket. Every item takes a character, so the
length of the text bounds the rounds. -/
def readItems {α : Type} (item : Reader α) : Nat → Bool → Reader (List α)
  | 0, _, _ => .error .endOfList
  | rounds + 1, first, s => do
    match ← nextItem first s with
    | none => return ([], s)
    | some s =>
      let (a, s) ← item s
      let (as, s) ← readItems item rounds false s
      return (a :: as, s)

/-- Reads the members of an object up to its closing bracket, each by `member`, which is given the
key and carries a state along. -/
def readMembers {σ : Type} (member : String → σ → Reader σ) : Nat → Bool → σ → Reader σ
  | 0, _, _, _ => .error .endOfObject
  | rounds + 1, first, state, s => do
    match ← nextKey first s with
    | none => return (state, s)
    | some s =>
      let (key, s) ← readText s
      let (state, s) ← member key state s
      readMembers member rounds false state s

def readList {α : Type} (item : Reader α) : Reader (List α) := fun s => do
  let (as, s) ← readItems item (s.length + 1) true s
  let s ← closeList s
  return (as, s)

/-- Why a value that starts here is not the `expected` one. -/
def mistypedAt (expected : String) (s : List Char) : JsonError :=
  match s with
  | [] => .endOfValue
  | c :: r =>
    if c = 'n' then
      match readWord ['u', 'l', 'l'] r with
      | .ok _ => .wrongType .null expected
      | .error cause => cause
    else if c = 't' then
      match readWord ['r', 'u', 'e'] r with
      | .ok _ => .wrongType (.boolean true) expected
      | .error cause => cause
    else if c = 'f' then
      match readWord ['a', 'l', 's', 'e'] r with
      | .ok _ => .wrongType (.boolean false) expected
      | .error cause => cause
    else if c = '-' then
      match readNumber true r with
      | .ok (n, _) => .wrongType (.number n) expected
      | .error cause => cause
    else if c.isDigit then
      match readNumber false (c :: r) with
      | .ok (n, _) => .wrongType (.number n) expected
      | .error cause => cause
    else if c = '"' then
      match readText r with
      | .ok (t, _) => .wrongType (.text t) expected
      | .error cause => cause
    else if c = '[' then .wrongType .sequence expected
    else if c = '\x7b' then .wrongType .map expected
    else .expectedValue

def readTextValue (expected : String) : Reader String := fun s =>
  match skipBlanks s with
  | [] => .error .endOfValue
  | c :: r => if c = '"' then readText r else .error (mistypedAt expected (c :: r))

/-- An object with this first key holds a value as text under it, and stands for that value. -/
def embeddedKey : String := "$serde_json::private::RawValue"

def nestingLimit : Nat := 127

namespace Json

def readObject (value : Reader Json) (embedded : String → Except JsonError Json) : Reader Json :=
  fun s => do
    match ← nextKey true s with
    | none =>
      let s ← closeObject s
      return (.object [], s)
    | some s =>
      let (key, s) ← readText s
      let s ← readColon s
      if key = embeddedKey then
        let (content, s) ← readTextValue "raw value" s
        let v ← embedded content
        let s ← closeObject s
        return (v, s)
      else
        let (v, s) ← value s
        let member := fun key members s => do
          let s ← readColon s
          let (v, s) ← value s
          return (insertMember key v members, s)
        let (members, s) ← readMembers member (s.length + 1) false [(key, v)] s
        let s ← closeObject s
        return (.object members, s)

/-- Reads a value inside which `room` containers may still open. -/
def readWithin (embedded : String → Except JsonError Json) : Nat → Reader Json
  | room, s =>
    match skipBlanks s with
    | [] => .error .endOfValue
    | c :: r =>
      if c = 'n' then do
        let s ← readWord ['u', 'l', 'l'] r
        return (.null, s)
      else if c = 't' then do
        let s ← readWord ['r', 'u', 'e'] r
        return (.boolean true, s)
      else if c = 'f' then do
        let s ← readWord ['a', 'l', 's', 'e'] r
        return (.boolean false, s)
      else if c = '-' then do
        let (n, s) ← readNumber true r
        return (.number n, s)
      else if c.isDigit then do
        let (n, s) ← readNumber false (c :: r)
        return (.number n, s)
      else if c = '"' then do
        let (t, s) ← readText r
        return (.text t, s)
      else if c = '[' then
        match room with
        | 0 => .error .nestedTooDeeply
        | room + 1 => do
          let (items, s) ← readList (readWithin embedded room) r
          return (.list items, s)
      else if c = '\x7b' then
        match room with
        | 0 => .error .nestedTooDeeply
        | room + 1 => readObject (readWithin embedded room) embedded r
      else .error .expectedValue

def parseEmbedded : Nat → String → Except JsonError Json
  | 0, _ => .error .nestedTooDeeply
  | levels + 1, content => Reader.readAll (readWithin (parseEmbedded levels) nestingLimit) content

/-- The value a text holds. An embedded text is shorter than the one around it, so the length bounds
the levels. -/
def parse (content : String) : Except JsonError Json := parseEmbedded (content.length + 1) content

end Json

end RoomCast
