import RoomCast.Envelope
import RoomCast.Table

namespace RoomCast

inductive BatchKey where
  | broadcast
  | room (name : String)
deriving DecidableEq, Repr

/-- A fragment on its way into a batch. -/
structure MergeItem where
  key : BatchKey
  item : Fragment
deriving DecidableEq, Repr

structure Batch where
  number : Nat
  items : List Fragment
deriving DecidableEq, Repr

inductive Trigger where
  | size
  | timer
deriving DecidableEq, Repr

structure Commit where
  key : BatchKey
  payload : PushPayload
  trigger : Trigger
deriving DecidableEq, Repr

structure MergeWorker where
  bound : Nat
  opened : Nat
  batches : Table BatchKey Batch
deriving DecidableEq, Repr

inductive ItemOutcome where
  | committed (commit : Commit)
  | opened (number : Nat)
  | gathered
deriving DecidableEq, Repr

structure MergeCounters where
  drops : Nat
  sizeBatches : Nat
  timerBatches : Nat
  staleTimers : Nat
deriving DecidableEq, Repr

def ItemOutcome.commit? : ItemOutcome → Option Commit
  | .committed commit => some commit
  | _ => none

namespace MergeCounters

def commit (c : MergeCounters) : Trigger → MergeCounters
  | .size => { c with sizeBatches := c.sizeBatches + 1 }
  | .timer => { c with timerBatches := c.timerBatches + 1 }

def afterItem (c : MergeCounters) : ItemOutcome → MergeCounters
  | .committed batch => c.commit batch.trigger
  | _ => c

/-- Counts what a timer brought about; one that committed nothing came too late. -/
def afterExpiry (c : MergeCounters) : Option Commit → MergeCounters
  | some batch => c.commit batch.trigger
  | none => { c with staleTimers := c.staleTimers + 1 }

end MergeCounters

namespace MergeWorker

/-- A worker without batches; a bound of zero counts as one. -/
def create (bound : Nat) : MergeWorker := ⟨max bound 1, 0, []⟩

/-- Adds an item to the batch under its key, and commits that when it is full. -/
def onItem (w : MergeWorker) (item : MergeItem) : MergeWorker × ItemOutcome :=
  let found := w.batches.get? item.key
  let opened := if found.isSome then w.opened else w.opened + 1
  let batch : Batch := found.getD ⟨opened, []⟩
  let items := batch.items ++ [item.item]
  if w.bound ≤ items.length then
    ({ w with opened := opened, batches := w.batches.remove item.key },
      .committed ⟨item.key, ⟨items⟩, .size⟩)
  else
    ({ w with opened := opened, batches := w.batches.put item.key { batch with items := items } },
      if found.isSome then .gathered else .opened batch.number)

/-- Commits the batch under a key if the timer that fired is its own. -/
def onExpiry (w : MergeWorker) (key : BatchKey) (number : Nat) : MergeWorker × Option Commit :=
  match w.batches.get? key with
  | some batch =>
    if batch.number = number then
      ({ w with batches := w.batches.remove key }, some ⟨key, ⟨batch.items⟩, .timer⟩)
    else (w, none)
  | none => (w, none)

end MergeWorker

end RoomCast
