import RoomCast.Connection
import RoomCast.Settings

namespace RoomCast

/-- The most elements of a queue, and the most permits of a pool. -/
def greatestCapacity : Nat := Nat.pow 2 61 - 1

def isQueueCapacity (n : Nat) : Bool := 0 < n && n ≤ greatestCapacity

def isPoolSize (n : Nat) : Bool := n ≤ greatestCapacity

def ConnectionLimits.canRun (limits : ConnectionLimits) : Bool :=
  isQueueCapacity limits.inbound && isQueueCapacity limits.outbound

def RegistrySettings.canRun (s : RegistrySettings) : Bool :=
  isQueueCapacity s.dispatchChannelSize.toNat && isQueueCapacity s.shardJobChannelSize.toNat &&
    isPoolSize s.shardJobChannelSize.toNat

/-- Whether the queues of a merge layer can be made, and its workers counted in a word. -/
def MergeSettings.canRun (s : MergeSettings) : Bool :=
  isQueueCapacity s.channelSize.toNat && s.workerCount.toNat + 1 ≤ greatestWord

def SocketSettings.limits (s : SocketSettings) : ConnectionLimits :=
  ⟨s.inChannelSize.toNat, s.outChannelSize.toNat, s.maxJoinRoom.toNat⟩

end RoomCast
