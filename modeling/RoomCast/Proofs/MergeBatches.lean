import RoomCast.MergeWorker
import RoomCast.Proofs.TableLookup

namespace RoomCast

/-- The fragments of a committed batch that are for a destination. -/
def Commit.itemsFor (commit : Commit) (key : BatchKey) : List Fragment :=
  if commit.key = key then commit.payload.items else []

def committedFor (commit : Option Commit) (key : BatchKey) : List Fragment :=
  match commit with
  | none => []
  | some commit => commit.itemsFor key

def fragmentsFor (items : List MergeItem) (key : BatchKey) : List Fragment :=
  (items.filter fun item => item.key = key).map (·.item)

theorem fragmentsFor_append (xs ys : List MergeItem) (key : BatchKey) :
    fragmentsFor (xs ++ ys) key = fragmentsFor xs key ++ fragmentsFor ys key := by
  simp [fragmentsFor]

theorem fragmentsFor_cons (item : MergeItem) (items : List MergeItem) (key : BatchKey) :
    fragmentsFor (item :: items) key = fragmentsFor [item] key ++ fragmentsFor items key := by
  rw [← fragmentsFor_append]
  rfl

theorem fragmentsFor_self (item : MergeItem) : fragmentsFor [item] item.key = [item.item] := by
  simp [fragmentsFor]

theorem fragmentsFor_ne {item : MergeItem} {key : BatchKey} (hne : item.key ≠ key) :
    fragmentsFor [item] key = [] := by
  simp [fragmentsFor, hne]

theorem fragmentsFor_cons_self (item : MergeItem) (rest : List MergeItem) :
    fragmentsFor (item :: rest) item.key = item.item :: fragmentsFor rest item.key := by
  simp [fragmentsFor]

theorem fragmentsFor_cons_ne {item : MergeItem} {key : BatchKey} (hne : item.key ≠ key)
    (rest : List MergeItem) : fragmentsFor (item :: rest) key = fragmentsFor rest key := by
  simp [fragmentsFor, hne]

namespace MergeWorker

def openItems (w : MergeWorker) (key : BatchKey) : List Fragment :=
  match w.batches.get? key with
  | none => []
  | some batch => batch.items

/-- The four things that taking an item can do. -/
theorem onItem_cases (w : MergeWorker) (item : MergeItem) :
    (∃ batch, w.batches.get? item.key = some batch ∧ w.bound ≤ batch.items.length + 1 ∧
      w.onItem item = ({ w with batches := w.batches.remove item.key },
        .committed ⟨item.key, ⟨batch.items ++ [item.item]⟩, .size⟩)) ∨
    (∃ batch, w.batches.get? item.key = some batch ∧ batch.items.length + 1 < w.bound ∧
      w.onItem item = ({ w with
        batches := w.batches.put item.key { batch with items := batch.items ++ [item.item] } },
        .gathered)) ∨
    (w.batches.get? item.key = none ∧ w.bound ≤ 1 ∧
      w.onItem item = ({ w with opened := w.opened + 1, batches := w.batches.remove item.key },
        .committed ⟨item.key, ⟨[item.item]⟩, .size⟩)) ∨
    (w.batches.get? item.key = none ∧ 1 < w.bound ∧
      w.onItem item = ({ w with
        opened := w.opened + 1
        batches := w.batches.put item.key ⟨w.opened + 1, [item.item]⟩ },
        .opened (w.opened + 1))) := by
  cases hg : w.batches.get? item.key with
  | some batch =>
    by_cases hb : w.bound ≤ batch.items.length + 1
    · exact Or.inl ⟨batch, rfl, hb, by simp [onItem, hg, hb]⟩
    · exact Or.inr (Or.inl ⟨batch, rfl, by omega, by simp [onItem, hg, hb]⟩)
  | none =>
    by_cases hb : w.bound ≤ 1
    · exact Or.inr (Or.inr (Or.inl ⟨rfl, hb, by simp [onItem, hg, hb]⟩))
    · exact Or.inr (Or.inr (Or.inr ⟨rfl, by omega, by simp [onItem, hg, hb]⟩))

theorem onExpiry_cases (w : MergeWorker) (key : BatchKey) (number : Nat) :
    (∃ batch, w.batches.get? key = some batch ∧ batch.number = number ∧
      w.onExpiry key number = ({ w with batches := w.batches.remove key },
        some ⟨key, ⟨batch.items⟩, .timer⟩)) ∨
    ((∀ batch, w.batches.get? key = some batch → batch.number ≠ number) ∧
      w.onExpiry key number = (w, none)) := by
  cases hg : w.batches.get? key with
  | some batch =>
    by_cases hn : batch.number = number
    · exact Or.inl ⟨batch, rfl, hn, by simp [onExpiry, hg, hn]⟩
    · refine Or.inr ⟨?_, by simp [onExpiry, hg, hn]⟩
      intro other ho
      cases Option.some.inj ho
      exact hn
  | none => exact Or.inr ⟨by simp, by simp [onExpiry, hg]⟩

theorem onItem_distinct {w : MergeWorker} (hd : w.batches.Distinct) (item : MergeItem) :
    (w.onItem item).1.batches.Distinct := by
  rcases onItem_cases w item with ⟨_, _, _, he⟩ | ⟨_, _, _, he⟩ | ⟨_, _, he⟩ | ⟨_, _, he⟩ <;> rw [he]
  · exact hd.remove _
  · exact hd.put _ _
  · exact hd.remove _
  · exact hd.put _ _

theorem onExpiry_distinct {w : MergeWorker} (hd : w.batches.Distinct) (key : BatchKey)
    (number : Nat) : (w.onExpiry key number).1.batches.Distinct := by
  rcases onExpiry_cases w key number with ⟨_, _, _, he⟩ | ⟨_, he⟩ <;> rw [he]
  · exact hd.remove _
  · exact hd

theorem onItem_get?_ne {w : MergeWorker} (hd : w.batches.Distinct) {item : MergeItem} {key : BatchKey}
    (hne : item.key ≠ key) : (w.onItem item).1.batches.get? key = w.batches.get? key := by
  rcases onItem_cases w item with ⟨_, _, _, he⟩ | ⟨_, _, _, he⟩ | ⟨_, _, he⟩ | ⟨_, _, he⟩ <;>
    simp [he, Table.get?_remove hd, Table.get?_put, hne]

theorem onExpiry_get?_ne {w : MergeWorker} (hd : w.batches.Distinct) {fired key : BatchKey}
    (hne : fired ≠ key) (number : Nat) :
    (w.onExpiry fired number).1.batches.get? key = w.batches.get? key := by
  rcases onExpiry_cases w fired number with ⟨_, _, _, he⟩ | ⟨_, he⟩ <;>
    simp [he, Table.get?_remove hd, hne]

theorem openItems_some {w : MergeWorker} {key : BatchKey} {batch : Batch}
    (h : w.batches.get? key = some batch) : w.openItems key = batch.items := by
  simp [openItems, h]

theorem openItems_none {w : MergeWorker} {key : BatchKey} (h : w.batches.get? key = none) :
    w.openItems key = [] := by
  simp [openItems, h]

theorem openItems_remove {w : MergeWorker} (hd : w.batches.Distinct) (removed key : BatchKey)
    (opened : Nat) :
    openItems { w with opened := opened, batches := w.batches.remove removed } key =
      if removed = key then [] else w.openItems key := by
  by_cases hk : removed = key <;> simp [openItems, Table.get?_remove hd, hk]

theorem openItems_put (w : MergeWorker) (put key : BatchKey) (opened : Nat) (batch : Batch) :
    openItems { w with opened := opened, batches := w.batches.put put batch } key =
      if put = key then batch.items else w.openItems key := by
  by_cases hk : put = key <;> simp [openItems, Table.get?_put, hk]

/-- Taking an item moves its fragment behind those of its destination, and every other destination
keeps what it has. -/
theorem onItem_items {w : MergeWorker} (hd : w.batches.Distinct) (item : MergeItem)
    (key : BatchKey) :
    committedFor (w.onItem item).2.commit? key ++ (w.onItem item).1.openItems key =
      w.openItems key ++ fragmentsFor [item] key := by
  rcases onItem_cases w item with ⟨batch, hg, _, he⟩ | ⟨batch, hg, _, he⟩ | ⟨hg, _, he⟩ | ⟨hg, _, he⟩ <;>
    rw [he] <;> by_cases hk : item.key = key
  · subst hk
    simp [committedFor, Commit.itemsFor, ItemOutcome.commit?, openItems_remove hd,
      fragmentsFor_self, openItems_some hg]
  · simp [committedFor, Commit.itemsFor, ItemOutcome.commit?, openItems_remove hd,
      fragmentsFor_ne hk, hk]
  · subst hk
    simp [committedFor, ItemOutcome.commit?, openItems_put, fragmentsFor_self, openItems_some hg]
  · simp [committedFor, ItemOutcome.commit?, openItems_put, fragmentsFor_ne hk, hk]
  · subst hk
    simp [committedFor, Commit.itemsFor, ItemOutcome.commit?, openItems_remove hd,
      fragmentsFor_self, openItems_none hg]
  · simp [committedFor, Commit.itemsFor, ItemOutcome.commit?, openItems_remove hd,
      fragmentsFor_ne hk, hk]
  · subst hk
    simp [committedFor, ItemOutcome.commit?, openItems_put, fragmentsFor_self, openItems_none hg]
  · simp [committedFor, ItemOutcome.commit?, openItems_put, fragmentsFor_ne hk, hk]

theorem onExpiry_items {w : MergeWorker} (hd : w.batches.Distinct) (fired : BatchKey) (number : Nat)
    (key : BatchKey) :
    committedFor (w.onExpiry fired number).2 key ++ (w.onExpiry fired number).1.openItems key =
      w.openItems key := by
  rcases onExpiry_cases w fired number with ⟨batch, hg, _, he⟩ | ⟨_, he⟩ <;> rw [he]
  · by_cases hk : fired = key
    · subst hk
      simp [committedFor, Commit.itemsFor, openItems_remove hd, openItems_some hg]
    · simp [committedFor, Commit.itemsFor, openItems_remove hd, hk]
  · simp [committedFor]

end MergeWorker

end RoomCast
