import RoomCast.JsonValue

namespace RoomCast

structure TextField (σ : Type) where
  name : String
  read : σ → Reader σ

/-- A record as a text holds it: its title in messages, its fields, and how a draft becomes a value
given the names that occurred, for objects and for lists. -/
structure TextRecord (σ α : Type) where
  title : String
  draft : σ
  fields : List (TextField σ)
  ofObject : List String → σ → Except JsonError α
  ofList : List String → σ → Except JsonError α

namespace TextRecord

variable {σ α : Type}

/-- Reads one member behind its key. No field may occur twice. -/
def readMember (fields : List (TextField σ)) (key : String) (state : List String × σ) :
    Reader (List String × σ) := fun s =>
  match fields.find? fun f => f.name = key with
  | some f =>
    if key ∈ state.1 then .error (.duplicateField key)
    else do
      let s ← readColon s
      let (draft, s) ← f.read state.2 s
      return ((key :: state.1, draft), s)
  | none => do
    let s ← readColon s
    let s ← skipValue s
    return (state, s)

def readFields : List (TextField σ) → Bool → List String × σ → Reader (List String × σ)
  | [], _, state, s => .ok (state, s)
  | f :: fs, first, state, s => do
    match ← nextItem first s with
    | none => return (state, s)
    | some s =>
      let (draft, s) ← f.read state.2 s
      readFields fs false (f.name :: state.1, draft) s

def read (record : TextRecord σ α) : Reader α := fun s =>
  match skipBlanks s with
  | [] => .error .endOfValue
  | c :: r =>
    if c = '[' then do
      let (state, s) ← readFields record.fields true ([], record.draft) r
      let a ← record.ofList state.1 state.2
      let s ← closeList s
      return (a, s)
    else if c = '\x7b' then do
      let (state, s) ← readMembers (readMember record.fields) (r.length + 1) true ([], record.draft) r
      let a ← record.ofObject state.1 state.2
      let s ← closeObject s
      return (a, s)
    else .error (mistypedAt ("struct " ++ record.title) (c :: r))

end TextRecord

/-- The two ways to read one shape of value. -/
structure Codec (α : Type) where
  read : Reader α
  ofJson : Json → Except JsonError α

namespace Codec

variable {α β : Type}

def textAs (expected : String) : Codec String where
  read := readTextValue expected
  ofJson
    | .text s => .ok s
    | v => .error (.wrongType v.found expected)

def boolean : Codec Bool where
  read s :=
    match skipBlanks s with
    | [] => .error .endOfValue
    | c :: r =>
      if c = 't' then do
        let s ← readWord ['r', 'u', 'e'] r
        return (true, s)
      else if c = 'f' then do
        let s ← readWord ['a', 'l', 's', 'e'] r
        return (false, s)
      else .error (mistypedAt "a boolean" (c :: r))
  ofJson
    | .boolean b => .ok b
    | v => .error (.wrongType v.found "a boolean")

def checkRange (expected : String) (limit : Nat) : Number → Except JsonError Nat
  | .integer i =>
    if 0 ≤ i ∧ i.toNat ≤ limit then .ok i.toNat
    else .error (.wrongValue (.number (.integer i)) expected)
  | .float x => .error (.wrongType (.number (.float x)) expected)

def unsigned (expected : String) (limit : Nat) : Codec Nat where
  read s :=
    match skipBlanks s with
    | [] => .error .endOfValue
    | c :: r =>
      if c = '-' then do
        let (n, s) ← readNumber true r
        let n ← checkRange expected limit n
        return (n, s)
      else if c.isDigit then do
        let (n, s) ← readNumber false (c :: r)
        let n ← checkRange expected limit n
        return (n, s)
      else .error (mistypedAt expected (c :: r))
  ofJson
    | .number n => checkRange expected limit n
    | v => .error (.wrongType v.found expected)

def map (f : α → β) (codec : Codec α) : Codec β where
  read s := do
    let (a, s) ← codec.read s
    return (f a, s)
  ofJson v := return f (← codec.ofJson v)

def nullable (codec : Codec α) : Codec (Option α) where
  read s :=
    match skipBlanks s with
    | 'n' :: r => do
      let s ← readWord ['u', 'l', 'l'] r
      return (none, s)
    | s => do
      let (a, s) ← codec.read s
      return (some a, s)
  ofJson
    | .null => .ok none
    | v => return some (← codec.ofJson v)

end Codec

/-- A named field with a default: a codec of changes to the record, and the value it shows, if any. -/
structure Field (α : Type) where
  name : String
  codec : Codec (α → α)
  shown : α → Option Json

/-- A field of a record from a codec of its values, their JSON values, its getter and its setter. -/
def Field.of {α β : Type} (name : String) (codec : Codec β) (toJson : β → Option Json)
    (get : α → β) (put : α → β → α) : Field α where
  name := name
  codec := codec.map fun b a => put a b
  shown a := toJson (get a)

def Field.objectOf {α : Type} (fields : List (Field α)) (a : α) : Json :=
  .object (fields.filterMap fun f => (f.shown a).map fun v => (f.name, v))

namespace Codec

variable {α : Type}

def setItems : List (Field α) → List Json → α → Except JsonError α
  | f :: fs, v :: vs, a => do
    let change ← f.codec.ofJson v
    setItems fs vs (change a)
  | _, _, a => .ok a

def setMembers (fields : List (Field α)) : List (String × Json) → α → Except JsonError α
  | [], a => .ok a
  | (key, v) :: ms, a =>
    match fields.find? fun f => f.name = key with
    | some f => do
      let change ← f.codec.ofJson v
      setMembers fields ms (change a)
    | none => setMembers fields ms a

def textField (f : Field α) : TextField α where
  name := f.name
  read a s := do
    let (change, s) ← f.codec.read s
    return (change a, s)

/-- A record whose missing fields keep their defaults. -/
def record (title : String) (defaults : α) (fields : List (Field α)) : Codec α where
  read := TextRecord.read ⟨title, defaults, fields.map textField, fun _ a => .ok a, fun _ a => .ok a⟩
  ofJson
    | .list items => do
      let a ← setItems fields items defaults
      if fields.length < items.length then
        throw (.wrongLength items.length "fewer elements in array")
      return a
    | .object members => setMembers fields members defaults
    | v => .error (.wrongType v.found ("struct " ++ title))

end Codec

end RoomCast
