import RoomCast.JsonRecord
import RoomCast.JsonText

namespace RoomCast

/-- A frame: the kind of message and the fragment it carries. -/
structure Envelope where
  kind : String
  data : Option Fragment
deriving DecidableEq, Repr, Inhabited

def Fragment.readNullable : Reader (Option Fragment) := fun s =>
  match skipBlanks s with
  | 'n' :: r => do
    let s ← readWord ['u', 'l', 'l'] r
    return (none, s)
  | s => do
    let (f, s) ← Fragment.read s
    return (some f, s)

namespace Envelope

/-- The two fields of a frame; only the first is required. -/
def record : TextRecord (Option String × Option Fragment) Envelope where
  title := "Envelope"
  draft := (none, none)
  fields := [
    { name := "type"
      read := fun draft s => do
        let (kind, s) ← readTextValue "a string" s
        return ((some kind, draft.2), s) },
    { name := "data"
      read := fun draft s => do
        let (data, s) ← Fragment.readNullable s
        return ((draft.1, data), s) }]
  ofObject _ draft :=
    match draft.1 with
    | some kind => .ok ⟨kind, draft.2⟩
    | none => .error (.missingField "type")
  ofList _ draft :=
    match draft.1 with
    | some kind => .ok ⟨kind, draft.2⟩
    | none => .error (.wrongLength 0 "struct Envelope with 2 elements")

def decode (text : String) : Except JsonError Envelope := record.read.readAll text

def encode (e : Envelope) : String :=
  String.ofList (braced (("type", literal e.kind) ::
    match e.data with
    | some f => [("data", f.text.toList)]
    | none => []))

end Envelope

/-- The frame sent to show that the server has heard a `PING`. -/
def pongFrame : String := "\x7b\"type\":\"PONG\",\"data\":\x7b\x7d\x7d"

structure PushPayload where
  items : List Fragment
deriving DecidableEq, Repr, Inhabited

def readFragments : Reader (List Fragment) := fun s =>
  match skipBlanks s with
  | [] => .error .endOfValue
  | c :: r => if c = '[' then readList Fragment.read r else .error (mistypedAt "a sequence" (c :: r))

namespace PushPayload

def record : TextRecord (List Fragment) PushPayload where
  title := "PushPayload"
  draft := []
  fields := [
    { name := "items"
      read := fun _ => readFragments }]
  ofObject names items := if names = [] then .error (.missingField "items") else .ok ⟨items⟩
  ofList names items :=
    if names = [] then .error (.wrongLength 0 "struct PushPayload with 1 element") else .ok ⟨items⟩

def decode (text : String) : Except JsonError PushPayload := record.read.readAll text

/-- The fragments of some texts, numbered from `first`; a text that is none is refused with its
number. -/
def readTexts : Nat → List String → Except (Nat × JsonError) (List Fragment)
  | _, [] => .ok []
  | first, text :: texts => do
    let f ← (Fragment.ofString text).mapError (first, ·)
    let fs ← readTexts (first + 1) texts
    return f :: fs

def ofTexts (texts : List String) : Except (Nat × JsonError) PushPayload :=
  (readTexts 0 texts).map PushPayload.mk

def written (p : PushPayload) : List Char :=
  braced [("items", bracketed (p.items.map fun f => f.text.toList))]

def encode (p : PushPayload) : String := String.ofList p.written

def frame (p : PushPayload) : String :=
  String.ofList (braced [("type", literal "PUSH"), ("data", p.written)])

end PushPayload

end RoomCast
