import RoomCast.Proofs.MergeBatches

namespace RoomCast

/-- What reaches a merge worker: an item, or a timer that names a batch, be it open, committed or none. -/
inductive WorkerEvent where
  | item (item : MergeItem)
  | expiry (key : BatchKey) (number : Nat)
deriving DecidableEq, Repr

def MergeWorker.Stale (w : MergeWorker) (key : BatchKey) (number : Nat) : Prop :=
  ∀ batch, w.batches.get? key = some batch → batch.number ≠ number

/-- The number of the batch that an item goes into: that of the open one, or the next. -/
def MergeWorker.numberFor (w : MergeWorker) (key : BatchKey) : Nat :=
  ((w.batches.get? key).map (·.number)).getD (w.opened + 1)

/-- A worker with its figures, the batches it has opened under their numbers, and those it has handed to
the sink, each in their order. -/
structure WorkerRun where
  worker : MergeWorker
  counters : MergeCounters
  opened : List (BatchKey × Nat)
  handed : List (Nat × Commit)
deriving DecidableEq, Repr

namespace WorkerRun

def start (bound : Nat) : WorkerRun := ⟨.create bound, ⟨0, 0, 0, 0⟩, [], []⟩

def step (t : WorkerRun) : WorkerEvent → WorkerRun
  | .item item =>
    let (worker, outcome) := t.worker.onItem item
    let number := t.worker.numberFor item.key
    { worker := worker
      counters := t.counters.afterItem outcome
      opened := if (t.worker.batches.get? item.key).isSome then t.opened
        else t.opened ++ [(item.key, number)]
      handed := t.handed ++ (outcome.commit?.map (number, ·)).toList }
  | .expiry key number =>
    let (worker, commit) := t.worker.onExpiry key number
    { t with
      worker := worker
      counters := t.counters.afterExpiry commit
      handed := t.handed ++ (commit.map (t.worker.numberFor key, ·)).toList }

def run (t : WorkerRun) (events : List WorkerEvent) : WorkerRun := events.foldl step t

/-- The same run with more timers counted as stale. -/
def ignoring (t : WorkerRun) (n : Nat) : WorkerRun :=
  { t with counters := { t.counters with staleTimers := t.counters.staleTimers + n } }

/-- A run into which stale timers have been put, each where it is stale; the last number is theirs. -/
inductive StaleInserted : WorkerRun → List WorkerEvent → List WorkerEvent → Nat → Prop where
  | done (t : WorkerRun) : StaleInserted t [] [] 0
  | event {t : WorkerRun} {es es' : List WorkerEvent} {n : Nat} (e : WorkerEvent) :
      StaleInserted (t.step e) es es' n → StaleInserted t (e :: es) (e :: es') n
  | stale {t : WorkerRun} {es es' : List WorkerEvent} {n : Nat} {key : BatchKey} {number : Nat} :
      t.worker.Stale key number → StaleInserted t es es' n →
      StaleInserted t es (.expiry key number :: es') (n + 1)

theorem numberFor_some {w : MergeWorker} {key : BatchKey} {batch : Batch}
    (h : w.batches.get? key = some batch) : w.numberFor key = batch.number := by
  simp [MergeWorker.numberFor, h]

theorem numberFor_none {w : MergeWorker} {key : BatchKey} (h : w.batches.get? key = none) :
    w.numberFor key = w.opened + 1 := by
  simp [MergeWorker.numberFor, h]

/-- The timer of the open batch hands that over. -/
theorem step_current {t : WorkerRun} {key : BatchKey} {batch : Batch}
    (h : t.worker.batches.get? key = some batch) :
    t.step (.expiry key batch.number) =
      { worker := { t.worker with batches := t.worker.batches.remove key }
        counters := { t.counters with timerBatches := t.counters.timerBatches + 1 }
        opened := t.opened
        handed := t.handed ++ [(batch.number, ⟨key, ⟨batch.items⟩, .timer⟩)] } := by
  simp [step, MergeWorker.onExpiry, h, numberFor_some h, MergeCounters.afterExpiry,
    MergeCounters.commit]

theorem step_stale {t : WorkerRun} {key : BatchKey} {number : Nat}
    (h : t.worker.Stale key number) : t.step (.expiry key number) = t.ignoring 1 := by
  rcases t.worker.onExpiry_cases key number with ⟨batch, hg, hn, _⟩ | ⟨_, he⟩
  · exact absurd hn (h batch hg)
  · simp [step, he, ignoring, MergeCounters.afterExpiry]

theorem expiry_cases (t : WorkerRun) (key : BatchKey) (number : Nat) :
    (∃ batch, t.worker.batches.get? key = some batch ∧ batch.number = number) ∨
      t.worker.Stale key number := by
  by_cases h : t.worker.Stale key number
  · exact Or.inr h
  · simp only [MergeWorker.Stale, not_forall, not_not] at h
    obtain ⟨batch, hg, hn⟩ := h
    exact Or.inl ⟨batch, hg, hn⟩

/-- A timer makes a call to the sink exactly if it is that of the open batch. -/
theorem handed_expiry_iff (t : WorkerRun) (key : BatchKey) (number : Nat) :
    (t.step (.expiry key number)).handed ≠ t.handed ↔
      ∃ batch, t.worker.batches.get? key = some batch ∧ batch.number = number := by
  constructor
  · intro hne
    rcases t.expiry_cases key number with h | h
    · exact h
    · exact absurd (congrArg handed (step_stale h)) hne
  · rintro ⟨batch, hg, rfl⟩
    rw [step_current hg]
    simp

/-- The numbers tell the batches apart: those given out are the first ones in order, every open batch
has one that was given out for its key and has not been handed over, and none is handed over twice. -/
structure Numbered (t : WorkerRun) : Prop where
  distinct : t.worker.batches.Distinct
  numbers : t.opened.map Prod.snd = List.range' 1 t.worker.opened
  waiting : ∀ key batch, t.worker.batches.get? key = some batch →
    (key, batch.number) ∈ t.opened ∧ batch.number ∉ t.handed.map Prod.fst
  known : ∀ number call, (number, call) ∈ t.handed → (call.key, number) ∈ t.opened
  once : (t.handed.map Prod.fst).Nodup

theorem start_numbered (bound : Nat) : (start bound).Numbered :=
  ⟨Table.distinct_nil, rfl, fun _ _ h => by simp [start, MergeWorker.create, Table.get?] at h,
    fun _ _ h => absurd h List.not_mem_nil, List.nodup_nil⟩

section Numbered

variable {t : WorkerRun} (h : t.Numbered)

include h in
theorem Numbered.le_opened {key : BatchKey} {number : Nat} (hm : (key, number) ∈ t.opened) :
    number ≤ t.worker.opened := by
  have hn : number ∈ t.opened.map Prod.snd := List.mem_map.mpr ⟨_, hm, rfl⟩
  rw [h.numbers, List.mem_range'_1] at hn
  omega

include h in
theorem Numbered.key_unique {key key' : BatchKey} {number : Nat} (hm : (key, number) ∈ t.opened)
    (hm' : (key', number) ∈ t.opened) : key = key' := by
  have hn : (t.opened.map Prod.snd).Nodup := by
    rw [h.numbers]
    exact List.nodup_range'
  exact congrArg Prod.fst (List.inj_on_of_nodup_map hn hm hm' rfl)

include h in
theorem Numbered.handed_le {number : Nat} (hm : number ∈ t.handed.map Prod.fst) :
    number ≤ t.worker.opened := by
  obtain ⟨⟨n, call⟩, hcall, rfl⟩ := List.mem_map.mp hm
  exact h.le_opened (h.known n call hcall)

include h in
theorem Numbered.handed_stale {number : Nat} (hm : number ∈ t.handed.map Prod.fst) (key : BatchKey) :
    t.worker.Stale key number := by
  rintro batch hg rfl
  exact (h.waiting key batch hg).2 hm

include h in
theorem Numbered.hand {key : BatchKey} {batch : Batch} (hg : t.worker.batches.get? key = some batch)
    (items : List Fragment) (trigger : Trigger) {t' : WorkerRun}
    (hd : t'.worker.batches.Distinct) (hn : t'.worker.opened = t.worker.opened)
    (hb : ∀ other, t'.worker.batches.get? other =
      if key = other then none else t.worker.batches.get? other)
    (ho : t'.opened = t.opened)
    (hh : t'.handed = t.handed ++ [(batch.number, ⟨key, ⟨items⟩, trigger⟩)]) : t'.Numbered := by
  obtain ⟨hopened, hnew⟩ := h.waiting key batch hg
  refine ⟨hd, by rw [ho, hn, h.numbers], ?_, ?_, ?_⟩
  · intro other left hl
    rw [hb] at hl
    split at hl
    next => simp at hl
    next hne =>
      obtain ⟨hopened', hnew'⟩ := h.waiting other left hl
      have hother : left.number ≠ batch.number :=
        fun he => hne (h.key_unique hopened (he ▸ hopened'))
      rw [ho, hh]
      exact ⟨hopened', by simpa [hother] using hnew'⟩
  · intro number call hm
    rw [hh] at hm
    rw [ho]
    rcases List.mem_append.mp hm with hm | hm
    · exact h.known number call hm
    · cases List.mem_singleton.mp hm
      exact hopened
  · rw [hh, List.map_append]
    exact h.once.append (List.nodup_singleton _) (by simpa using hnew)

include h in
theorem Numbered.enter (key : BatchKey) (items : List Fragment) {t' : WorkerRun}
    (hw : t'.worker = { t.worker with
      opened := t.worker.opened + 1
      batches := t.worker.batches.put key ⟨t.worker.opened + 1, items⟩ })
    (ho : t'.opened = t.opened ++ [(key, t.worker.opened + 1)]) (hh : t'.handed = t.handed) :
    t'.Numbered := by
  refine ⟨?_, ?_, ?_, ?_, ?_⟩
  · rw [hw]
    exact h.distinct.put key _
  · rw [ho, hw, List.map_append, h.numbers, List.range'_concat]
    simp [Nat.add_comm]
  · intro key' batch' hg'
    rw [hw, Table.get?_put] at hg'
    rw [ho, hh]
    split at hg'
    next hk =>
      cases Option.some.inj hg'
      subst hk
      exact ⟨List.mem_append_right _ (List.mem_singleton.mpr rfl), fun hm => by
        have := h.handed_le hm
        simp only at this
        omega⟩
    next =>
      obtain ⟨hopened, hnew⟩ := h.waiting key' batch' hg'
      exact ⟨List.mem_append_left _ hopened, hnew⟩
  · intro number call hm
    rw [ho]
    exact List.mem_append_left _ (h.known number call (hh ▸ hm))
  · rw [hh]
    exact h.once

include h in
theorem Numbered.gather {key : BatchKey} {batch : Batch}
    (hg : t.worker.batches.get? key = some batch) (items : List Fragment) {t' : WorkerRun}
    (hw : t'.worker = { t.worker with
      batches := t.worker.batches.put key { batch with items := items } })
    (ho : t'.opened = t.opened) (hh : t'.handed = t.handed) : t'.Numbered := by
  refine ⟨?_, ?_, ?_, ?_, ?_⟩
  · rw [hw]
    exact h.distinct.put key _
  · rw [ho, hw]
    exact h.numbers
  · intro key' batch' hg'
    rw [hw, Table.get?_put] at hg'
    rw [ho, hh]
    split at hg'
    next hk =>
      cases Option.some.inj hg'
      exact hk ▸ h.waiting key batch hg
    next => exact h.waiting key' batch' hg'
  · rw [ho, hh]
    exact h.known
  · rw [hh]
    exact h.once

include h in
theorem Numbered.item (item : MergeItem) : (t.step (.item item)).Numbered := by
  have hd := t.worker.onItem_distinct h.distinct item
  rcases t.worker.onItem_cases item with ⟨batch, hg, _, he⟩ | ⟨batch, hg, _, he⟩ | ⟨hg, _, he⟩ |
    ⟨hg, _, he⟩
  · refine h.hand hg (batch.items ++ [item.item]) .size hd ?_ ?_ ?_ ?_
    · simp [step, he]
    · intro other
      simp only [step, he, Table.get?_remove h.distinct]
    · simp [step, hg]
    · simp [step, he, numberFor_some hg, ItemOutcome.commit?]
  · refine h.gather hg (batch.items ++ [item.item]) ?_ ?_ ?_ <;>
      simp [step, he, hg, ItemOutcome.commit?]
  · -- a batch of one item is opened and handed over at once
    let entered : WorkerRun := { t with
      worker := { t.worker with
        opened := t.worker.opened + 1
        batches := t.worker.batches.put item.key ⟨t.worker.opened + 1, []⟩ }
      opened := t.opened ++ [(item.key, t.worker.opened + 1)] }
    have hentered : entered.Numbered := h.enter item.key [] rfl rfl rfl
    have hput : entered.worker.batches.get? item.key = some ⟨t.worker.opened + 1, []⟩ := by
      simp only [entered, Table.get?_put, ↓reduceIte]
    refine hentered.hand hput [item.item] .size hd ?_ ?_ ?_ ?_
    · simp [step, he, entered]
    · intro other
      simp only [step, he, entered, Table.get?_remove h.distinct, Table.get?_put]
      by_cases hk : item.key = other <;> simp [hk]
    · simp [step, hg, numberFor_none hg, entered]
    · simp [step, he, numberFor_none hg, ItemOutcome.commit?, entered]
  · refine h.enter item.key [item.item] ?_ ?_ ?_ <;>
      simp [step, he, hg, numberFor_none hg, ItemOutcome.commit?]

include h in
theorem Numbered.expiry (key : BatchKey) (number : Nat) :
    (t.step (.expiry key number)).Numbered := by
  rcases t.expiry_cases key number with ⟨batch, hg, rfl⟩ | hstale
  · rw [step_current hg]
    exact h.hand hg batch.items .timer (h.distinct.remove key) rfl (Table.get?_remove h.distinct key) rfl rfl
  · rw [step_stale hstale]
    exact ⟨h.distinct, h.numbers, h.waiting, h.known, h.once⟩

end Numbered

theorem run_numbered {t : WorkerRun} (h : t.Numbered) (events : List WorkerEvent) :
    (t.run events).Numbered := by
  induction events generalizing t with
  | nil => exact h
  | cons e events ih =>
    cases e with
    | item item => exact ih (h.item item)
    | expiry key number => exact ih (h.expiry key number)

theorem step_ignoring (t : WorkerRun) (n : Nat) (e : WorkerEvent) :
    (t.ignoring n).step e = (t.step e).ignoring n := by
  cases e with
  | item item =>
    rcases t.worker.onItem_cases item with ⟨_, _, _, he⟩ | ⟨_, _, _, he⟩ | ⟨_, _, he⟩ | ⟨_, _, he⟩ <;>
      simp [step, ignoring, he, MergeCounters.afterItem, MergeCounters.commit] <;> rfl
  | expiry key number =>
    rcases t.worker.onExpiry_cases key number with ⟨_, _, _, he⟩ | ⟨_, he⟩ <;>
      simp [step, ignoring, he, MergeCounters.afterExpiry, MergeCounters.commit, Nat.add_right_comm]

theorem run_ignoring (t : WorkerRun) (n : Nat) (events : List WorkerEvent) :
    (t.ignoring n).run events = (t.run events).ignoring n := by
  induction events generalizing t with
  | nil => rfl
  | cons e events ih =>
    rw [run, List.foldl_cons, step_ignoring]
    exact ih (t.step e)

theorem StaleInserted.run_eq {t : WorkerRun} {es es' : List WorkerEvent} {n : Nat}
    (h : StaleInserted t es es' n) : t.run es' = (t.run es).ignoring n := by
  induction h with
  | done t => rfl
  | event e _ ih => exact ih
  | @stale t es es' n key number hstale _ ih =>
    have hstep : t.run (.expiry key number :: es') = (t.step (.expiry key number)).run es' := rfl
    rw [hstep, step_stale hstale, run_ignoring, ih]
    simp [ignoring, Nat.add_assoc]

/-- A timer makes a call to the sink exactly if the open batch under its key has its number. Any other
changes nothing but the count of stale timers. -/
theorem stale_timers_are_harmless (bound : Nat) (events : List WorkerEvent) :
    let t := (start bound).run events
    t.opened.map Prod.snd = List.range' 1 t.worker.opened ∧
      (t.handed.map Prod.fst).Nodup ∧
      (∀ number call, (number, call) ∈ t.handed → (call.key, number) ∈ t.opened) ∧
      (∀ key batch, t.worker.batches.get? key = some batch →
        (key, batch.number) ∈ t.opened ∧ batch.number ∉ t.handed.map Prod.fst) ∧
      (∀ key number, ((t.step (.expiry key number)).handed ≠ t.handed ↔
          ∃ batch, t.worker.batches.get? key = some batch ∧ batch.number = number) ∧
        (∀ batch, t.worker.batches.get? key = some batch → batch.number = number →
          (t.step (.expiry key number)).handed =
            t.handed ++ [(number, ⟨key, ⟨batch.items⟩, .timer⟩)]) ∧
        (t.worker.Stale key number → t.step (.expiry key number) = t.ignoring 1)) ∧
      (∀ key, ∀ number ∈ t.handed.map Prod.fst, t.worker.Stale key number) ∧
      ∀ later later' n, StaleInserted t later later' n →
        t.run later' = (t.run later).ignoring n := by
  intro t
  have h : t.Numbered := run_numbered (start_numbered bound) events
  refine ⟨h.numbers, h.once, h.known, h.waiting, fun key number => ⟨t.handed_expiry_iff key number,
    ?_, step_stale⟩, fun key number hm => h.handed_stale hm key, fun _ _ _ hi => hi.run_eq⟩
  rintro batch hg rfl
  rw [step_current hg]

/-- The timer of a full batch comes late, and once more when the next batch is open under the same key:
that is handed over by its own timer, with what it would have held without the late ones. -/
theorem late_timer_spares_next_batch :
    let room : BatchKey := .room "a"
    let filled : List WorkerEvent := [.item ⟨room, ⟨"1"⟩⟩, .item ⟨room, ⟨"2"⟩⟩]
    let next : List WorkerEvent := [.item ⟨room, ⟨"3"⟩⟩, .expiry room 2]
    let late : List WorkerEvent := [.expiry room 1, .item ⟨room, ⟨"3"⟩⟩, .expiry room 1, .expiry room 2]
    let t := (start 2).run filled
    StaleInserted t next late 2 ∧ t.run late = (t.run next).ignoring 2 ∧
      (t.run late).handed = [(1, ⟨room, ⟨[⟨"1"⟩, ⟨"2"⟩]⟩, .size⟩), (2, ⟨room, ⟨[⟨"3"⟩]⟩, .timer⟩)] := by
  intro room filled next late t
  have inserted : StaleInserted t next late 2 := by
    refine .stale (fun batch hg => ?_) (.event _ (.stale (fun batch hg => ?_) (.event _ (.done _))))
    · simp [t, filled, room, start, run, step, MergeWorker.create, MergeWorker.onItem, Table.get?,
        Table.put, Table.remove] at hg
    · have hb : batch = ⟨2, [⟨"3"⟩]⟩ := by
        refine Option.some.inj (hg.symm.trans ?_)
        decide +kernel
      simp [hb]
  obtain ⟨_, _, _, _, _, _, hsame⟩ := stale_timers_are_harmless 2 filled
  exact ⟨inserted, hsame next late 2 inserted, by decide +kernel⟩

end WorkerRun

end RoomCast
