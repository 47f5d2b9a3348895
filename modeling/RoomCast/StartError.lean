namespace RoomCast

inductive StartError where
  | bind (address cause : String)
  | certificates (cause : String)
  | handOver (address cause : String)
deriving DecidableEq, Repr

namespace StartError

def cause : StartError → String
  | .bind _ cause => cause
  | .certificates cause => cause
  | .handOver _ cause => cause

def message : StartError → String
  | .bind address cause => "failed to bind " ++ address ++ ": " ++ cause
  | .certificates cause => "invalid TLS certificate pair: " ++ cause
  | .handOver address cause => "listener setup failed on " ++ address ++ ": " ++ cause

end StartError

end RoomCast
