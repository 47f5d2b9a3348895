import RoomCast.Numeral
import RoomCast.Settings

namespace RoomCast

abbrev Environment := String → Option String

/-- A variable that overrides one setting: what its text is read as, and where that goes. -/
structure Override where
  name : String
  apply : String → Settings → Settings

def greatestPort : Nat := 65535

/-- A variable that has to be a numeral between two bounds, in a word that holds numbers up to
`limit`. -/
def Override.number (name : String) (limit lo hi : Nat) (put : Settings → Nat → Settings) :
    Override where
  name := name
  apply text s :=
    match wordBetween? limit lo hi text with
    | some n => put s n
    | none => s

/-- A variable that may be any text but the empty one. -/
def Override.text (name : String) (put : Settings → String → Settings) : Override where
  name := name
  apply text s := if text = "" then s else put s text

def overrides : List Override := [
  .number "FANOUT_SOCKET_PORT" greatestPort 1 65535
    fun s n => { s with socket := { s.socket with port := UInt16.ofNat n } },
  .number "FANOUT_SERVICE_PORT" greatestPort 1 65535
    fun s n => { s with service := { s.service with port := UInt16.ofNat n } },
  .text "FANOUT_TLS_CERT" fun s t => { s with service := { s.service with tlsCertPath := some t } },
  .text "FANOUT_TLS_KEY" fun s t => { s with service := { s.service with tlsKeyPath := some t } },
  .number "FANOUT_HEARTBEAT_INTERVAL_SECS" greatestWord 1 86400
    fun s n => { s with socket := { s.socket with heartbeatIntervalSecs := UInt64.ofNat n } },
  .number "FANOUT_MAX_JOIN_ROOM" greatestWord 1 10000
    fun s n => { s with socket := { s.socket with maxJoinRoom := UInt64.ofNat n } },
  .number "FANOUT_SHARD_COUNT" greatestWord 1 4096
    fun s n => { s with registry := { s.registry with shardCount := UInt64.ofNat n } },
  .number "FANOUT_MERGE_WORKER_COUNT" greatestWord 1 1024
    fun s n => { s with merge := { s.merge with workerCount := UInt64.ofNat n } },
  .number "FANOUT_MERGE_MAX_DELAY_MS" greatestWord 1 60000
    fun s n => { s with merge := { s.merge with maxDelayMs := UInt64.ofNat n } },
  .number "FANOUT_MERGE_MAX_BATCH_SIZE" greatestWord 1 100000
    fun s n => { s with merge := { s.merge with maxBatchSize := UInt64.ofNat n } },
  .text "FANOUT_LOG_LEVEL" fun s t => { s with logging := { s.logging with level := t } }]

def Override.applyFrom (env : Environment) (s : Settings) (o : Override) : Settings :=
  match env o.name with
  | some text => o.apply text s
  | none => s

def Settings.override (s : Settings) (env : Environment) : Settings :=
  overrides.foldl (Override.applyFrom env) s

end RoomCast
