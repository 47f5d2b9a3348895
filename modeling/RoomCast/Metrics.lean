import RoomCast.MergeLayer
import RoomCast.Registry

namespace RoomCast

structure Metric where
  name : String
  labels : List (String × String)
  value : Nat
deriving DecidableEq, Repr

namespace Metric

def labelText (labels : List (String × String)) : String :=
  if labels = [] then ""
  else "\x7b" ++ String.intercalate "," (labels.map fun l => l.1 ++ "=\"" ++ l.2 ++ "\"") ++ "\x7d"

def title (m : Metric) : String := m.name ++ labelText m.labels

/-- A figure that only grows, once it has grown. -/
def counter (name : String) (labels : List (String × String)) (value : Nat) : List Metric :=
  if value = 0 then [] else [⟨name, labels, value⟩]

end Metric

structure SessionCounters where
  opened : Nat
  ended : Nat
  active : Nat
  timeouts : Nat
deriving DecidableEq, Repr

/-- The figures of sessions. The number of active ones is listed even when it is zero again. -/
def SessionCounters.metrics (c : SessionCounters) : List Metric :=
  Metric.counter "ws_connections_total" [] c.opened ++
  Metric.counter "ws_disconnections_total" [] c.ended ++
  (if c.opened = 0 then [] else [⟨"ws_connections_active", [], c.active⟩]) ++
  Metric.counter "ws_heartbeat_timeouts_total" [] c.timeouts

def RegistryCounters.metrics (c : RegistryCounters) : List Metric :=
  Metric.counter "registry_dispatch_drops_total" [] c.dispatchDrops ++
  Metric.counter "registry_shard_skips_total" [] c.shardSkips ++
  Metric.counter "ws_outbound_drops_total" [] c.outboundDrops

def MergeCounters.metrics (c : MergeCounters) : List Metric :=
  Metric.counter "merge_drops_total" [] c.drops ++
  Metric.counter "merge_batches_total" [("trigger", "size")] c.sizeBatches ++
  Metric.counter "merge_batches_total" [("trigger", "timer")] c.timerBatches ++
  Metric.counter "merge_stale_timers_total" [] c.staleTimers

end RoomCast
