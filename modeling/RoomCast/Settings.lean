import RoomCast.JsonRecord

namespace RoomCast

structure SocketSettings where
  host : String
  port : UInt16
  readTimeoutMs : UInt64
  writeTimeoutMs : UInt64
  inChannelSize : UInt64
  outChannelSize : UInt64
  heartbeatIntervalSecs : UInt64
  maxJoinRoom : UInt64
deriving DecidableEq, Repr

structure ServiceSettings where
  host : String
  port : UInt16
  readTimeoutMs : UInt64
  writeTimeoutMs : UInt64
  tlsCertPath : Option String
  tlsKeyPath : Option String
deriving DecidableEq, Repr

structure RegistrySettings where
  shardCount : UInt64
  dispatchChannelSize : UInt64
  dispatchWorkerCount : UInt64
  shardJobChannelSize : UInt64
  shardJobWorkerCount : UInt64
deriving DecidableEq, Repr

structure MergeSettings where
  workerCount : UInt64
  channelSize : UInt64
  maxDelayMs : UInt64
  maxBatchSize : UInt64
deriving DecidableEq, Repr

structure LoggingSettings where
  level : String
  json : Bool
deriving DecidableEq, Repr

structure Settings where
  socket : SocketSettings
  service : ServiceSettings
  registry : RegistrySettings
  merge : MergeSettings
  logging : LoggingSettings
deriving DecidableEq, Repr

namespace Codec

def text : Codec String := textAs "a string"

def path : Codec (Option String) := nullable (textAs "path string")

def port : Codec UInt16 := (unsigned "u16" 65535).map UInt16.ofNat

def word : Codec UInt64 := (unsigned "u64" greatestWord).map UInt64.ofNat

def size : Codec UInt64 := (unsigned "usize" greatestWord).map UInt64.ofNat

end Codec

def textJson (s : String) : Option Json := some (.text s)

def booleanJson (b : Bool) : Option Json := some (.boolean b)

def portJson (n : UInt16) : Option Json := some (.number (.integer n.toNat))

def wordJson (n : UInt64) : Option Json := some (.number (.integer n.toNat))

def pathJson (p : Option String) : Option Json := p.map .text

namespace SocketSettings

def defaults : SocketSettings where
  host := "0.0.0.0"
  port := 7777
  readTimeoutMs := 2000
  writeTimeoutMs := 2000
  inChannelSize := 1000
  outChannelSize := 1000
  heartbeatIntervalSecs := 60
  maxJoinRoom := 5

def fields : List (Field SocketSettings) := [
  .of "host" .text textJson (·.host) fun s x => { s with host := x },
  .of "port" .port portJson (·.port) fun s x => { s with port := x },
  .of "readTimeoutMs" .word wordJson (·.readTimeoutMs) fun s x => { s with readTimeoutMs := x },
  .of "writeTimeoutMs" .word wordJson (·.writeTimeoutMs) fun s x => { s with writeTimeoutMs := x },
  .of "inChannelSize" .size wordJson (·.inChannelSize) fun s x => { s with inChannelSize := x },
  .of "outChannelSize" .size wordJson (·.outChannelSize) fun s x => { s with outChannelSize := x },
  .of "heartbeatIntervalSecs" .word wordJson (·.heartbeatIntervalSecs)
    fun s x => { s with heartbeatIntervalSecs := x },
  .of "maxJoinRoom" .size wordJson (·.maxJoinRoom) fun s x => { s with maxJoinRoom := x }]

def codec : Codec SocketSettings := .record "SocketSettings" defaults fields

def toJson (s : SocketSettings) : Json := Field.objectOf fields s

def heartbeatIntervalMs (s : SocketSettings) : Nat := s.heartbeatIntervalSecs.toNat * 1000

end SocketSettings

namespace ServiceSettings

def defaults : ServiceSettings where
  host := "0.0.0.0"
  port := 7788
  readTimeoutMs := 2000
  writeTimeoutMs := 2000
  tlsCertPath := none
  tlsKeyPath := none

def fields : List (Field ServiceSettings) := [
  .of "host" .text textJson (·.host) fun s x => { s with host := x },
  .of "port" .port portJson (·.port) fun s x => { s with port := x },
  .of "readTimeoutMs" .word wordJson (·.readTimeoutMs) fun s x => { s with readTimeoutMs := x },
  .of "writeTimeoutMs" .word wordJson (·.writeTimeoutMs) fun s x => { s with writeTimeoutMs := x },
  .of "tlsCertPath" .path pathJson (·.tlsCertPath) fun s x => { s with tlsCertPath := x },
  .of "tlsKeyPath" .path pathJson (·.tlsKeyPath) fun s x => { s with tlsKeyPath := x }]

def codec : Codec ServiceSettings := .record "ServiceSettings" defaults fields

def toJson (s : ServiceSettings) : Json := Field.objectOf fields s

/-- The time for a whole request: reading and writing together, at most the greatest word. -/
def requestTimeoutMs (s : ServiceSettings) : Nat :=
  min (s.readTimeoutMs.toNat + s.writeTimeoutMs.toNat) greatestWord

/-- The paths of certificate and key, if both are set. -/
def tlsPair (s : ServiceSettings) : Option (String × String) :=
  match s.tlsCertPath, s.tlsKeyPath with
  | some cert, some key => some (cert, key)
  | _, _ => none

end ServiceSettings

namespace RegistrySettings

def defaults : RegistrySettings where
  shardCount := 16
  dispatchChannelSize := 1000
  dispatchWorkerCount := 16
  shardJobChannelSize := 1000
  shardJobWorkerCount := 2

def fields : List (Field RegistrySettings) := [
  .of "shardCount" .size wordJson (·.shardCount) fun s x => { s with shardCount := x },
  .of "dispatchChannelSize" .size wordJson (·.dispatchChannelSize)
    fun s x => { s with dispatchChannelSize := x },
  .of "dispatchWorkerCount" .size wordJson (·.dispatchWorkerCount)
    fun s x => { s with dispatchWorkerCount := x },
  .of "shardJobChannelSize" .size wordJson (·.shardJobChannelSize)
    fun s x => { s with shardJobChannelSize := x },
  .of "shardJobWorkerCount" .size wordJson (·.shardJobWorkerCount)
    fun s x => { s with shardJobWorkerCount := x }]

def codec : Codec RegistrySettings := .record "RegistrySettings" defaults fields

def toJson (s : RegistrySettings) : Json := Field.objectOf fields s

end RegistrySettings

namespace MergeSettings

def defaults : MergeSettings where
  workerCount := 8
  channelSize := 1000
  maxDelayMs := 300
  maxBatchSize := 100

def fields : List (Field MergeSettings) := [
  .of "workerCount" .size wordJson (·.workerCount) fun s x => { s with workerCount := x },
  .of "channelSize" .size wordJson (·.channelSize) fun s x => { s with channelSize := x },
  .of "maxDelayMs" .word wordJson (·.maxDelayMs) fun s x => { s with maxDelayMs := x },
  .of "maxBatchSize" .size wordJson (·.maxBatchSize) fun s x => { s with maxBatchSize := x }]

def codec : Codec MergeSettings := .record "MergeSettings" defaults fields

def toJson (s : MergeSettings) : Json := Field.objectOf fields s

end MergeSettings

namespace LoggingSettings

def defaults : LoggingSettings where
  level := "info"
  json := false

def fields : List (Field LoggingSettings) := [
  .of "level" .text textJson (·.level) fun s x => { s with level := x },
  .of "json" .boolean booleanJson (·.json) fun s x => { s with json := x }]

def codec : Codec LoggingSettings := .record "LoggingSettings" defaults fields

def toJson (s : LoggingSettings) : Json := Field.objectOf fields s

end LoggingSettings

namespace Settings

def defaults : Settings where
  socket := .defaults
  service := .defaults
  registry := .defaults
  merge := .defaults
  logging := .defaults

def fields : List (Field Settings) := [
  .of "socket" SocketSettings.codec (some ·.toJson) (·.socket) fun s x => { s with socket := x },
  .of "service" ServiceSettings.codec (some ·.toJson) (·.service) fun s x => { s with service := x },
  .of "registry" RegistrySettings.codec (some ·.toJson) (·.registry)
    fun s x => { s with registry := x },
  .of "merge" MergeSettings.codec (some ·.toJson) (·.merge) fun s x => { s with merge := x },
  .of "logging" LoggingSettings.codec (some ·.toJson) (·.logging) fun s x => { s with logging := x }]

def codec : Codec Settings := .record "FanoutSettings" defaults fields

/-- The settings as a value, with fields in their order and unset paths left out. -/
def toJson (s : Settings) : Json := Field.objectOf fields s

def decode (text : String) : Except JsonError Settings := codec.read.readAll text

def ofJson (v : Json) : Except JsonError Settings := codec.ofJson v

inductive Invalid where
  | notPositive (key : String)
  | unpairedTls
deriving DecidableEq, Repr

def Invalid.message : Invalid → String
  | .notPositive key => key ++ " must be > 0"
  | .unpairedTls => "service.tlsCertPath and service.tlsKeyPath must be set together"

/-- The settings that have to be positive, in the order in which they are checked. -/
def positives (s : Settings) : List (String × UInt64) := [
  ("socket.readTimeoutMs", s.socket.readTimeoutMs),
  ("socket.writeTimeoutMs", s.socket.writeTimeoutMs),
  ("socket.heartbeatIntervalSecs", s.socket.heartbeatIntervalSecs),
  ("service.readTimeoutMs", s.service.readTimeoutMs),
  ("service.writeTimeoutMs", s.service.writeTimeoutMs),
  ("merge.maxDelayMs", s.merge.maxDelayMs),
  ("socket.inChannelSize", s.socket.inChannelSize),
  ("socket.outChannelSize", s.socket.outChannelSize),
  ("socket.maxJoinRoom", s.socket.maxJoinRoom),
  ("registry.shardCount", s.registry.shardCount),
  ("registry.dispatchChannelSize", s.registry.dispatchChannelSize),
  ("registry.dispatchWorkerCount", s.registry.dispatchWorkerCount),
  ("registry.shardJobChannelSize", s.registry.shardJobChannelSize),
  ("registry.shardJobWorkerCount", s.registry.shardJobWorkerCount),
  ("merge.workerCount", s.merge.workerCount),
  ("merge.channelSize", s.merge.channelSize),
  ("merge.maxBatchSize", s.merge.maxBatchSize)]

/-- Refuses the first setting that has to be positive and is not, and a certificate without a key. -/
def validate (s : Settings) : Except Invalid Unit :=
  match s.positives.find? fun p => p.2 = 0 with
  | some (key, _) => .error (.notPositive key)
  | none =>
    if s.service.tlsCertPath.isSome = s.service.tlsKeyPath.isSome then .ok ()
    else .error .unpairedTls

end Settings

end RoomCast
