import RoomCast.CertificatePair
import RoomCast.Listeners
import RoomCast.Proofs.GracefulStop

namespace RoomCast

namespace TaskPool

section Tracked

variable (p : TaskPool)

theorem runBelow_tracked (limit : Nat) (stop : TaskPool → Bool) (rounds : Nat) :
    (runBelow limit stop rounds p).tracked = p.tracked := by
  induction rounds generalizing p with
  | zero => rfl
  | succ rounds ih =>
    rw [runBelow]
    split
    next => rfl
    next =>
      split
      next => rfl
      next =>
        split
        next => exact ih _
        next => rfl

theorem graceful_tracked (extra : List Nat) (timeout : Option Nat) :
    (p.graceful extra timeout).tracked = [] := by
  rw [graceful_eq_waitOut, waitOut]
  dsimp only
  split
  next => rfl
  next =>
    split
    next => rfl
    next => split <;> exact runBelow_tracked _ _ _ _

end Tracked

section Over

variable {p : TaskPool} {i : Nat}

theorem settle_isOver (h : p.isOver i = true) : p.settle.isOver i = true := by
  rw [isOver, settle_getElem?]
  cases hi : p.tasks[i]? with
  | none => rfl
  | some task =>
    have hover : task.isOver = true := by simpa [isOver, hi] using h
    rw [Option.map_some, Option.all_some, BackgroundTask.settle_over hover, hover]

theorem abort_isOver {numbers : List Nat} (h : i ∈ numbers) : (p.abort numbers).isOver i = true := by
  rw [isOver, abort_getElem?]
  cases p.tasks[i]? with
  | none => rfl
  | some task =>
    rw [Option.map_some, if_pos h, Option.all_some]
    cases hover : task.isOver with
    | true => rw [BackgroundTask.abort_over hover, hover]
    | false =>
      rw [BackgroundTask.abort_early hover]
      rfl

theorem graceful_isOver {extra : List Nat} (timeout : Option Nat) (h : i ∈ extra ++ p.tracked) :
    (p.graceful extra timeout).isOver i = true := by
  rw [graceful_eq_waitOut, waitOut]
  dsimp only
  split
  next hall => exact settle_isOver (List.all_eq_true.mp hall i h)
  next =>
    split
    next => exact settle_isOver (abort_isOver h)
    next =>
      split
      next hall => exact settle_isOver (List.all_eq_true.mp hall i h)
      next => exact settle_isOver (abort_isOver h)

end Over

end TaskPool

namespace Listeners

variable {l l' : Listeners} {outside : Outside} {settings : Settings} {e : StartError}

/-- The endpoint of the clients is all that has been added. -/
structure OnlyClients (l l' : Listeners) (address : String) : Prop where
  accepting : l'.accepting = l.accepting ++ [(.socket, address)]
  tasks : l'.pool.tasks = l.pool.tasks ++ [.create .untilStop]
  tracked : l'.pool.tracked =
    l.pool.tracked.filter (fun i => !l'.pool.isOver i) ++ [l.pool.tasks.length]
  stopping : l'.pool.stopping = l.pool.stopping
  now : l'.pool.now = l.pool.now

section Stopped

variable {address : String}

theorem OnlyClients.stop (h : l.OnlyClients l' address) (timeout : Nat) :
    (l'.stop timeout).accepting = [] ∧ (l'.stop timeout).pool.tracked = [] ∧
      (l'.stop timeout).pool.isOver l.pool.tasks.length = true := by
  have hmem : l.pool.tasks.length ∈ [] ++ l'.pool.tracked := by
    rw [h.tracked, List.nil_append]
    exact List.mem_append_right _ (List.mem_singleton_self _)
  exact ⟨rfl, l'.pool.graceful_tracked [] _, TaskPool.graceful_isOver (some timeout) hmem⟩

end Stopped

end Listeners

end RoomCast
