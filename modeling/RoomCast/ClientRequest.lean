import RoomCast.Envelope

namespace RoomCast

inductive ProtocolError where
  | invalidEnvelope (cause : JsonError)
  | missingRoom (kind : String)
  | malformedData (kind : String) (cause : JsonError)
deriving DecidableEq, Repr

def ProtocolError.message : ProtocolError → String
  | .invalidEnvelope cause => "invalid envelope: " ++ cause.message
  | .missingRoom kind => kind ++ " request is missing a room"
  | .malformedData kind cause => "malformed " ++ kind ++ " data: " ++ cause.message

def ProtocolError.isFatal : ProtocolError → Bool
  | .invalidEnvelope _ => true
  | _ => false

def Envelope.receive (text : String) : Except ProtocolError Envelope :=
  (Envelope.decode text).mapError .invalidEnvelope

inductive ClientRequest where
  | ping
  | join (room : String)
  | leave (room : String)
deriving DecidableEq, Repr

/-- The room that the data of a membership request names; a missing name is empty. -/
def roomRecord : TextRecord String String where
  title := "RoomData"
  draft := ""
  fields := [
    { name := "room"
      read := fun _ => readTextValue "a string" }]
  ofObject _ room := .ok room
  ofList _ room := .ok room

def roomOf (kind : String) : Option Fragment → Except ProtocolError String
  | none => .error (.missingRoom kind)
  | some data =>
    match roomRecord.read.readAll data.text with
    | .error cause => .error (.malformedData kind cause)
    | .ok room => if room = "" then .error (.missingRoom kind) else .ok room

/-- The request that a frame makes, if any. -/
def ClientRequest.ofEnvelope (e : Envelope) : Except ProtocolError (Option ClientRequest) :=
  if e.kind = "PING" then .ok (some .ping)
  else if e.kind = "JOIN" then return some (.join (← roomOf "JOIN" e.data))
  else if e.kind = "LEAVE" then return some (.leave (← roomOf "LEAVE" e.data))
  else .ok none

end RoomCast
