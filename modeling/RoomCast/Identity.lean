import RoomCast.JsonRecord

namespace RoomCast

structure ConnectionId where
  value : UInt64
deriving DecidableEq, Repr, Inhabited

namespace ConnectionId

def text (id : ConnectionId) : String := toString id.value.toNat

def codec : Codec ConnectionId :=
  (Codec.unsigned "u64" greatestWord).map fun n => ⟨UInt64.ofNat n⟩

def decode (text : String) : Except JsonError ConnectionId := codec.read.readAll text

/-- The shard of an identity among `shards`; no shards count as one. -/
def shard (id : ConnectionId) (shards : Nat) : Nat := id.value.toNat % max shards 1

end ConnectionId

structure IdentitySource where
  next : UInt64
deriving DecidableEq, Repr, Inhabited

namespace IdentitySource

/-- The next identity; after the greatest word comes zero. -/
def take (source : IdentitySource) : ConnectionId × IdentitySource :=
  (⟨source.next⟩, ⟨source.next + 1⟩)

def takeMany : Nat → IdentitySource → List ConnectionId × IdentitySource
  | 0, source => ([], source)
  | count + 1, source =>
    let (id, source) := source.take
    let (ids, source) := takeMany count source
    (id :: ids, source)

def ofStartTime (seconds : UInt64) : IdentitySource := ⟨seconds⟩

end IdentitySource

end RoomCast
