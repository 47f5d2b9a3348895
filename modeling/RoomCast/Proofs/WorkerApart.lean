import RoomCast.Proofs.BatchSizes

namespace RoomCast

/-- What reaches a worker: an item, or the timer of the batch that is open under a key. -/
inductive KeyedEvent where
  | arrive (item : MergeItem)
  | due (key : BatchKey)

def KeyedEvent.key : KeyedEvent → BatchKey
  | .arrive item => item.key
  | .due key => key

/-- What becomes of a batch as a fragment joins it: the fragments that go on gathering, or those that are
handed on. -/
def gather (bound : Nat) (gathered : Option (List Fragment)) (f : Fragment) :
    Option (List Fragment) × Option (List Fragment) :=
  let items := gathered.getD [] ++ [f]
  if bound ≤ items.length then (none, some items) else (some items, none)

/-- What an event makes of the open batch of its destination, and what is committed. -/
def KeyedEvent.answer (bound : Nat) (gathered : Option (List Fragment)) :
    KeyedEvent → Option (List Fragment) × Option Commit
  | .arrive item =>
    let (gathered, full) := gather bound gathered item.item
    (gathered, full.map fun items => ⟨item.key, ⟨items⟩, .size⟩)
  | .due key => (none, gathered.map fun items => ⟨key, ⟨items⟩, .timer⟩)

namespace MergeWorker

def gathered (w : MergeWorker) (key : BatchKey) : Option (List Fragment) :=
  (w.batches.get? key).map (·.items)

/-- What an event does to a worker, and what that commits; no timer runs where no batch is open. -/
def play (w : MergeWorker) : KeyedEvent → MergeWorker × Option Commit
  | .arrive item => ((w.onItem item).1, (w.onItem item).2.commit?)
  | .due key =>
    match w.batches.get? key with
    | none => (w, none)
    | some batch => w.onExpiry key batch.number

def commits (w : MergeWorker) : List KeyedEvent → List Commit
  | [] => []
  | e :: events => (w.play e).2.toList ++ (w.play e).1.commits events

variable {w : MergeWorker}

theorem onItem_commit (w : MergeWorker) (item : MergeItem) : (w.onItem item).2.commit? =
    (gather w.bound (w.gathered item.key) item.item).2.map fun items =>
      ⟨item.key, ⟨items⟩, .size⟩ := by
  rcases w.onItem_cases item with ⟨batch, hg, hb, he⟩ | ⟨batch, hg, hb, he⟩ | ⟨hg, hb, he⟩ |
    ⟨hg, hb, he⟩
  · simp [he, gather, gathered, hg, hb, ItemOutcome.commit?]
  · simp [he, gather, gathered, hg, Nat.not_le.mpr hb, ItemOutcome.commit?]
  · simp [he, gather, gathered, hg, hb, ItemOutcome.commit?]
  · simp [he, gather, gathered, hg, Nat.not_le.mpr hb, ItemOutcome.commit?]

theorem onItem_gathered (hd : w.batches.Distinct) (item : MergeItem) :
    (w.onItem item).1.gathered item.key =
      (gather w.bound (w.gathered item.key) item.item).1 := by
  rcases w.onItem_cases item with ⟨batch, hg, hb, he⟩ | ⟨batch, hg, hb, he⟩ | ⟨hg, hb, he⟩ |
    ⟨hg, hb, he⟩
  · simp [he, gather, gathered, hg, hb, Table.get?_remove hd]
  · simp [he, gather, gathered, hg, Nat.not_le.mpr hb, Table.get?_put]
  · simp [he, gather, gathered, hg, hb, Table.get?_remove hd]
  · simp [he, gather, gathered, hg, Nat.not_le.mpr hb, Table.get?_put]

theorem onExpiry_key {key : BatchKey} {number : Nat} {commit : Commit}
    (h : (w.onExpiry key number).2 = some commit) : commit.key = key := by
  rcases w.onExpiry_cases key number with ⟨_, _, _, he⟩ | ⟨_, he⟩ <;> rw [he] at h
  · obtain rfl := Option.some.inj h
    rfl
  · simp at h

theorem play_due_cases (w : MergeWorker) (key : BatchKey) :
    (w.batches.get? key = none ∧ w.play (.due key) = (w, none)) ∨
    ∃ batch, w.batches.get? key = some batch ∧ w.play (.due key) = w.onExpiry key batch.number := by
  cases hg : w.batches.get? key with
  | none => exact Or.inl ⟨rfl, by simp [play, hg]⟩
  | some batch => exact Or.inr ⟨batch, rfl, by simp [play, hg]⟩

theorem play_bound (w : MergeWorker) (e : KeyedEvent) : (w.play e).1.bound = w.bound := by
  cases e with
  | arrive item => exact w.onItem_bound item
  | due key =>
    rcases w.play_due_cases key with ⟨_, he⟩ | ⟨batch, _, he⟩ <;> rw [he]
    exact w.onExpiry_bound key batch.number

theorem play_distinct (hd : w.batches.Distinct) (e : KeyedEvent) : (w.play e).1.batches.Distinct := by
  cases e with
  | arrive item => exact onItem_distinct hd item
  | due key =>
    rcases w.play_due_cases key with ⟨_, he⟩ | ⟨batch, _, he⟩ <;> rw [he]
    · exact hd
    · exact onExpiry_distinct hd key batch.number

theorem play_own (hd : w.batches.Distinct) (e : KeyedEvent) :
    ((w.play e).1.gathered e.key, (w.play e).2) = e.answer w.bound (w.gathered e.key) := by
  cases e with
  | arrive item =>
    simp only [play, KeyedEvent.key, KeyedEvent.answer, onItem_gathered hd, onItem_commit]
  | due key =>
    rcases w.play_due_cases key with ⟨hg, he⟩ | ⟨batch, hg, he⟩
    · simp [he, KeyedEvent.key, KeyedEvent.answer, gathered, hg]
    · simp [he, KeyedEvent.key, KeyedEvent.answer, gathered, onExpiry, hg, Table.get?_remove hd]

theorem play_other (hd : w.batches.Distinct) {e : KeyedEvent} {key : BatchKey} (hne : e.key ≠ key) :
    (w.play e).1.gathered key = w.gathered key := by
  cases e with
  | arrive item =>
    have hne : item.key ≠ key := hne
    simp only [play, gathered, onItem_get?_ne hd hne]
  | due fired =>
    have hne : fired ≠ key := hne
    rcases w.play_due_cases fired with ⟨_, he⟩ | ⟨batch, _, he⟩ <;> rw [he]
    simp only [gathered, onExpiry_get?_ne hd hne]

theorem play_key (hd : w.batches.Distinct) {e : KeyedEvent} {commit : Commit}
    (h : (w.play e).2 = some commit) : commit.key = e.key := by
  have hown := congrArg Prod.snd (play_own hd e)
  rw [h] at hown
  cases e with
  | arrive item =>
    obtain ⟨_, _, rfl⟩ := Option.map_eq_some_iff.mp hown.symm
    rfl
  | due key =>
    obtain ⟨_, _, rfl⟩ := Option.map_eq_some_iff.mp hown.symm
    rfl

/-- Two workers with the same open batch of a destination commit the same for it, the one over all events
and the other over those of that destination. -/
theorem commits_apart (key : BatchKey) (events : List KeyedEvent) {w w' : MergeWorker}
    (hd : w.batches.Distinct) (hd' : w'.batches.Distinct) (hbound : w'.bound = w.bound)
    (hsame : w'.gathered key = w.gathered key) :
    (w.commits events).filter (·.key = key) = w'.commits (events.filter (·.key = key)) := by
  induction events generalizing w w' with
  | nil => rfl
  | cons e events ih =>
    have hdist := play_distinct hd e
    by_cases hk : e.key = key
    · -- both workers answer, and their open batches stay the same
      subst hk
      have hown := play_own hd e
      have hown' := play_own hd' e
      rw [hbound, hsame, ← hown] at hown'
      obtain ⟨hopen, hcommit⟩ := Prod.mk.inj hown'
      have hall : (w.play e).2.toList.filter (·.key = e.key) = (w.play e).2.toList := by
        refine List.filter_eq_self.mpr fun commit hc => ?_
        exact decide_eq_true (play_key hd (Option.mem_toList.mp hc))
      rw [List.filter_cons_of_pos (by simp), commits, commits, List.filter_append, hall, hcommit]
      refine congrArg _ (ih hdist (play_distinct hd' e) ?_ hopen)
      rw [play_bound, play_bound, hbound]
    · -- only the first worker has the event, and it is for another destination
      have hnone : (w.play e).2.toList.filter (·.key = key) = [] := by
        refine List.filter_eq_nil_iff.mpr fun commit hc => ?_
        rw [play_key hd (Option.mem_toList.mp hc)]
        simpa using hk
      rw [List.filter_cons_of_neg (by simpa using hk), commits, List.filter_append, hnone]
      exact ih hdist hd' (by rw [play_bound, hbound]) (hsame.trans (play_other hd hk).symm)

end MergeWorker

end RoomCast
