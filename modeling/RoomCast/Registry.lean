import RoomCast.Envelope
import RoomCast.Settings
import RoomCast.Shard

namespace RoomCast

/-- A payload on its way to the connections it is for. -/
structure PushJob where
  target : PushTarget
  payload : PushPayload
deriving DecidableEq, Repr

structure ShardJob where
  target : PushTarget
  frame : String
deriving DecidableEq, Repr

/-- The way into one shard: its free permits, the jobs that wait, and those that workers have taken
and not released. -/
structure ShardLane where
  capacity : Nat
  permits : Nat
  queued : List ShardJob
  taken : List ShardJob
  served : Bool
deriving DecidableEq, Repr

namespace ShardLane

def create (capacity workers : Nat) : ShardLane where
  capacity := capacity
  permits := capacity
  queued := []
  taken := []
  served := workers ≠ 0

/-- Admits a job if there is a permit for it and room in the queue. -/
def accept (lane : ShardLane) (job : ShardJob) : ShardLane × Bool :=
  if lane.permits = 0 then (lane, false)
  else if !lane.served || lane.capacity ≤ lane.queued.length then (lane, false)
  else ({ lane with permits := lane.permits - 1, queued := lane.queued ++ [job] }, true)

def take (lane : ShardLane) : ShardLane :=
  match lane.queued with
  | [] => lane
  | job :: rest => { lane with queued := rest, taken := lane.taken ++ [job] }

def release (lane : ShardLane) (i : Nat) : ShardLane :=
  if i < lane.taken.length then
    { lane with permits := lane.permits + 1, taken := lane.taken.eraseIdx i }
  else lane

/-- No worker takes jobs any more, and those that wait are lost. -/
def stop (lane : ShardLane) : ShardLane := { lane with queued := [], taken := [], served := false }

def work (lane : ShardLane) : Nat := 2 * lane.queued.length + lane.taken.length

end ShardLane

/-- A job that a dispatcher is offering: the next shard to offer it to. -/
structure Offering where
  job : ShardJob
  next : Nat
deriving DecidableEq, Repr

structure RegistryCounters where
  dispatchDrops : Nat
  shardSkips : Nat
  outboundDrops : Nat
deriving DecidableEq, Repr

structure Registry where
  shards : List Shard
  roster : Roster
  dispatchCapacity : Nat
  dispatchers : Nat
  workersPerShard : Nat
  queue : List PushJob
  offerings : List Offering
  lanes : List ShardLane
  served : Bool
  cancelled : Bool
  stopped : Bool
  counters : RegistryCounters

namespace Registry

/-- A registry with its workers at their start; no shards count as one. -/
def create (settings : RegistrySettings) : Registry :=
  let shards := max settings.shardCount.toNat 1
  { shards := (List.range shards).map Shard.empty
    roster := []
    dispatchCapacity := settings.dispatchChannelSize.toNat
    dispatchers := settings.dispatchWorkerCount.toNat
    workersPerShard := settings.shardJobWorkerCount.toNat
    queue := []
    offerings := []
    lanes := List.replicate shards
      (.create settings.shardJobChannelSize.toNat settings.shardJobWorkerCount.toNat)
    served := settings.dispatchWorkerCount ≠ 0
    cancelled := false
    stopped := false
    counters := ⟨0, 0, 0⟩ }

def shardCount (r : Registry) : Nat := r.shards.length

def route (r : Registry) (id : ConnectionId) : Nat := id.shard r.shards.length

def shardFor (r : Registry) (id : ConnectionId) : Shard :=
  r.shards.getD (r.route id) (.empty (r.route id))

def setShard (r : Registry) (id : ConnectionId) (s : Shard) : Registry :=
  { r with shards := r.shards.set (r.route id) s }

/-- Makes a connection, which takes the next seat of the roster. -/
def seatConnection (r : Registry) (c : Connection) : Registry × Nat :=
  ({ r with roster := r.roster ++ [c] }, r.roster.length)

def addConnection (r : Registry) (id : ConnectionId) (seat : Nat) : Registry :=
  r.setShard id ((r.shardFor id).addConnection id seat)

def removeConnection (r : Registry) (id : ConnectionId) : Registry × Option Nat :=
  let (s, seat) := (r.shardFor id).removeConnection id
  (r.setShard id s, seat)

def joinRoom (r : Registry) (name : String) (id : ConnectionId) :
    Registry × Except RegistryError Unit :=
  let (s, outcome) := (r.shardFor id).joinRoom name id
  (r.setShard id s, outcome)

def leaveRoom (r : Registry) (name : String) (id : ConnectionId) :
    Registry × Except RegistryError Unit :=
  let (s, outcome) := (r.shardFor id).leaveRoom name id
  (r.setShard id s, outcome)

def updateConnection (r : Registry) (seat : Nat) (f : Connection → Connection) : Registry :=
  { r with roster := r.roster.modify seat f }

def push (r : Registry) (job : PushJob) : Registry × Except RegistryError Unit :=
  if r.cancelled then (r, .error .shutDown)
  else if !r.served then (r, .error .shutDown)
  else if r.dispatchCapacity ≤ r.queue.length then
    ({ r with counters := { r.counters with dispatchDrops := r.counters.dispatchDrops + 1 } },
      .error .dispatchQueueFull)
  else ({ r with queue := r.queue ++ [job] }, .ok ())

def takeJob (r : Registry) : Option Registry :=
  match r.queue with
  | [] => none
  | job :: rest =>
    if r.offerings.length < r.dispatchers then
      some { r with
        queue := rest
        offerings := r.offerings ++ [⟨⟨job.target, job.payload.frame⟩, 0⟩] }
    else none

/-- A dispatcher offers its job to the next shard, or is free again behind the last. -/
def offerNext (r : Registry) (i : Nat) : Option Registry :=
  match r.offerings[i]? with
  | none => none
  | some o =>
    match r.lanes[o.next]? with
    | none => some { r with offerings := r.offerings.eraseIdx i }
    | some lane =>
      let (lane, accepted) := lane.accept o.job
      some { r with
        lanes := r.lanes.set o.next lane
        offerings := r.offerings.set i { o with next := o.next + 1 }
        counters := if accepted then r.counters
          else { r.counters with shardSkips := r.counters.shardSkips + 1 } }

def takeShardJob (r : Registry) (shard : Nat) : Option Registry :=
  match r.lanes[shard]? with
  | none => none
  | some lane =>
    if lane.queued ≠ [] ∧ lane.taken.length < r.workersPerShard then
      some { r with lanes := r.lanes.set shard lane.take }
    else none

def deliver (r : Registry) (shard i : Nat) : Option Registry :=
  match r.lanes[shard]?, r.shards[shard]? with
  | some lane, some s =>
    match lane.taken[i]? with
    | none => none
    | some job =>
      let offered := s.broadcast r.roster job.target job.frame
      some { r with
        roster := offered.roster
        lanes := r.lanes.set shard (lane.release i)
        counters := { r.counters with outboundDrops := r.counters.outboundDrops + offered.dropped } }
  | _, _ => none

/-- The workers end: what waits is lost, and nothing is taken any more. -/
def stopWorkers (r : Registry) : Registry :=
  { r with
    queue := []
    offerings := []
    lanes := r.lanes.map ShardLane.stop
    served := false
    stopped := true }

def workerStep? (r : Registry) : Option Registry :=
  (List.range r.lanes.length).findSome? fun shard => r.deliver shard 0 <|> r.takeShardJob shard

/-- The next step in the order of settling: the dispatch queue is emptied before any shard works. -/
def step? (r : Registry) : Option Registry :=
  if r.stopped then none
  else if r.cancelled then some r.stopWorkers
  else r.offerNext 0 <|> r.takeJob <|> r.workerStep?

/-- A bound on the steps that are left. -/
def work (r : Registry) : Nat :=
  let perJob := 3 * r.lanes.length + 2
  perJob * r.queue.length + perJob * r.offerings.length + total (r.lanes.map ShardLane.work) + 1

def run : Nat → Registry → Registry
  | 0, r => r
  | n + 1, r =>
    match r.step? with
    | some r => run n r
    | none => r

def settle (r : Registry) : Registry := run r.work r

def shutdown (r : Registry) : Registry := { r with cancelled := true }

def taskCount (r : Registry) : Nat := r.dispatchers + r.shards.length * r.workersPerShard

def connectionCount (r : Registry) : Nat := total (r.shards.map Shard.connectionCount)

/-- How many rooms the shards hold, each counted once in every shard it has members in. -/
def roomCount (r : Registry) : Nat := total (r.shards.map Shard.roomCount)

def memberCount (r : Registry) (name : String) : Nat := total (r.shards.map (·.memberCount name))

end Registry

end RoomCast
