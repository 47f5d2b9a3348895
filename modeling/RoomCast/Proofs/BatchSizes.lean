import RoomCast.Proofs.MergeRun
import RoomCast.Proofs.StaleTimers

namespace RoomCast

def ItemOutcome.started? : ItemOutcome → Option Nat
  | .opened number => some number
  | _ => none

def MergeCounters.batches (c : MergeCounters) : Trigger → Nat
  | .size => c.sizeBatches
  | .timer => c.timerBatches

/-- What a trigger has to do with the size of the batch that it ends. -/
def Commit.Fits (bound : Nat) (commit : Commit) : Prop :=
  match commit.trigger with
  | .size => commit.payload.items.length = bound
  | .timer => 1 ≤ commit.payload.items.length ∧ commit.payload.items.length < bound

namespace MergeWorker

/-- Every open batch has an item and room for one more. -/
structure Sized (w : MergeWorker) : Prop where
  bound_pos : 1 ≤ w.bound
  sizes : ∀ entry ∈ w.batches, 1 ≤ entry.2.items.length ∧ entry.2.items.length < w.bound

variable {w : MergeWorker}

theorem create_sized (bound : Nat) : (create bound).Sized := by
  refine ⟨?_, by simp [create]⟩
  change 1 ≤ max bound 1
  omega

theorem Sized.at_key (h : w.Sized) {key : BatchKey} {batch : Batch}
    (hg : w.batches.get? key = some batch) :
    1 ≤ batch.items.length ∧ batch.items.length < w.bound :=
  h.sizes (key, batch) (Table.mem_of_get? hg)

theorem Sized.remove (h : w.Sized) (opened : Nat) (key : BatchKey) :
    Sized { w with opened := opened, batches := w.batches.remove key } :=
  ⟨h.bound_pos, fun entry he => h.sizes entry ((Table.remove_sublist _ key).subset he)⟩

theorem Sized.put (h : w.Sized) (opened : Nat) (key : BatchKey) {batch : Batch}
    (hpos : 1 ≤ batch.items.length) (hroom : batch.items.length < w.bound) :
    Sized { w with opened := opened, batches := w.batches.put key batch } := by
  refine ⟨h.bound_pos, fun entry he => ?_⟩
  rcases Table.mem_put he with rfl | he
  · exact ⟨hpos, hroom⟩
  · exact h.sizes entry he

theorem onItem_bound (w : MergeWorker) (item : MergeItem) : (w.onItem item).1.bound = w.bound := by
  rcases w.onItem_cases item with ⟨_, _, _, he⟩ | ⟨_, _, _, he⟩ | ⟨_, _, he⟩ | ⟨_, _, he⟩ <;> rw [he]

theorem onExpiry_bound (w : MergeWorker) (key : BatchKey) (number : Nat) :
    (w.onExpiry key number).1.bound = w.bound := by
  rcases w.onExpiry_cases key number with ⟨_, _, _, he⟩ | ⟨_, he⟩ <;> rw [he]

theorem Sized.onItem (h : w.Sized) (item : MergeItem) :
    (w.onItem item).1.Sized ∧
      ∀ commit, (w.onItem item).2.commit? = some commit → commit.Fits w.bound := by
  have hpos := h.bound_pos
  rcases w.onItem_cases item with ⟨batch, hg, hfull, he⟩ | ⟨batch, hg, hroom, he⟩ |
    ⟨_, hfull, he⟩ | ⟨_, hroom, he⟩
  · have hsize := h.at_key hg
    rw [he]
    refine ⟨h.remove w.opened item.key, ?_⟩
    rintro _ ⟨⟩
    have hlen : (batch.items ++ [item.item]).length = batch.items.length + 1 := by simp
    change (batch.items ++ [item.item]).length = w.bound
    omega
  · rw [he]
    refine ⟨h.put w.opened item.key (by simp) (by simpa using hroom), ?_⟩
    rintro _ ⟨⟩
  · rw [he]
    refine ⟨h.remove _ item.key, ?_⟩
    rintro _ ⟨⟩
    change 1 = w.bound
    omega
  · rw [he]
    refine ⟨h.put _ item.key (by simp) (by simpa using hroom), ?_⟩
    rintro _ ⟨⟩

theorem Sized.onExpiry (h : w.Sized) (key : BatchKey) (number : Nat) :
    (w.onExpiry key number).1.Sized ∧
      ∀ commit, (w.onExpiry key number).2 = some commit → commit.Fits w.bound := by
  rcases w.onExpiry_cases key number with ⟨batch, hg, _, he⟩ | ⟨_, he⟩
  · have hsize := h.at_key hg
    rw [he]
    refine ⟨h.remove w.opened key, ?_⟩
    rintro _ ⟨⟩
    exact hsize
  · rw [he]
    refine ⟨h, ?_⟩
    rintro _ ⟨⟩

theorem onItem_started {item : MergeItem} {number : Nat}
    (h : (w.onItem item).2.started? = some number) : 1 < w.bound := by
  rcases w.onItem_cases item with ⟨_, _, _, he⟩ | ⟨_, _, _, he⟩ | ⟨_, _, he⟩ | ⟨_, hroom, he⟩
  · simp [he, ItemOutcome.started?] at h
  · simp [he, ItemOutcome.started?] at h
  · simp [he, ItemOutcome.started?] at h
  · exact hroom

theorem onItem_number (hd : w.batches.Distinct) {item : MergeItem} {key : BatchKey} {batch : Batch}
    (hb : (w.onItem item).1.batches.get? key = some batch) :
    (∃ old, w.batches.get? key = some old ∧ old.number = batch.number) ∨
      (item.key = key ∧ (w.onItem item).2.started? = some batch.number) := by
  by_cases hk : item.key = key
  · rcases w.onItem_cases item with ⟨_, _, _, he⟩ | ⟨old, hg, _, he⟩ | ⟨_, _, he⟩ | ⟨_, _, he⟩ <;>
      rw [he] at hb ⊢
    · simp [Table.get?_remove hd, hk] at hb
    · simp only [Table.get?_put, hk, ↓reduceIte, Option.some.injEq] at hb
      exact Or.inl ⟨old, hk ▸ hg, hb ▸ rfl⟩
    · simp [Table.get?_remove hd, hk] at hb
    · simp only [Table.get?_put, hk, ↓reduceIte, Option.some.injEq] at hb
      exact Or.inr ⟨hk, hb ▸ rfl⟩
  · rw [onItem_get?_ne hd hk] at hb
    exact Or.inl ⟨batch, hb, rfl⟩

end MergeWorker

theorem Commit.Fits.items_pos {bound : Nat} {commit : Commit} (h : commit.Fits bound)
    (hpos : 1 ≤ bound) : commit.payload.items ≠ [] := by
  have hlen : 1 ≤ commit.payload.items.length := by
    unfold Commit.Fits at h
    split at h
    next => omega
    next => exact h.1
  exact List.length_pos_iff.mp hlen

def callsBy (trigger : Trigger) (calls : List SinkCall) : Nat :=
  (calls.filter fun call => call.1.trigger = trigger).length

theorem callsBy_append (trigger : Trigger) (calls more : List SinkCall) :
    callsBy trigger (calls ++ more) = callsBy trigger calls + callsBy trigger more := by
  simp [callsBy]

theorem callsBy_either (calls : List SinkCall) :
    callsBy .size calls + callsBy .timer calls = calls.length := by
  induction calls with
  | nil => rfl
  | cons call calls ih =>
    unfold callsBy at ih ⊢
    cases htrigger : call.1.trigger with
    | size =>
      simp only [List.filter_cons, htrigger, decide_true, ↓reduceIte, List.length_cons, reduceCtorEq,
        decide_false, Bool.false_eq_true]
      omega
    | timer =>
      simp only [List.filter_cons, htrigger, decide_true, ↓reduceIte, List.length_cons, reduceCtorEq,
        decide_false, Bool.false_eq_true]
      omega

def callFor (sink : MergeSink) (calls : List SinkCall) (commit : Option Commit) : List SinkCall :=
  (commit.map fun commit => (commit, sink calls commit)).toList

section Figures

variable (c : MergeCounters) (sink : MergeSink) (calls : List SinkCall) (trigger : Trigger)

theorem commit_batches (commit : Commit) : (c.commit commit.trigger).batches trigger =
    c.batches trigger + callsBy trigger (callFor sink calls (some commit)) := by
  cases hc : commit.trigger <;> cases trigger <;>
    simp [MergeCounters.batches, MergeCounters.commit, callsBy, callFor, hc]

theorem afterItem_batches (outcome : ItemOutcome) : (c.afterItem outcome).batches trigger =
    c.batches trigger + callsBy trigger (callFor sink calls outcome.commit?) := by
  cases outcome with
  | committed commit => exact commit_batches c sink calls trigger commit
  | opened number => rfl
  | gathered => rfl

theorem afterExpiry_batches (commit : Option Commit) : (c.afterExpiry commit).batches trigger =
    c.batches trigger + callsBy trigger (callFor sink calls commit) := by
  cases commit with
  | some commit => exact commit_batches c sink calls trigger commit
  | none => cases trigger <;> rfl

end Figures

/-- A worker with its figures, the calls it has made to its sink, and the batches for which it has started
timers. -/
structure SinkRun where
  worker : MergeWorker
  counters : MergeCounters
  calls : List SinkCall
  timers : List (BatchKey × Nat)

namespace SinkRun

def start (maxBatchSize : Nat) : SinkRun := ⟨.create maxBatchSize, ⟨0, 0, 0, 0⟩, [], []⟩

def step (sink : MergeSink) (t : SinkRun) : WorkerEvent → SinkRun
  | .item item =>
    let (worker, outcome) := t.worker.onItem item
    { worker := worker
      counters := t.counters.afterItem outcome
      calls := t.calls ++ callFor sink t.calls outcome.commit?
      timers := t.timers ++ (outcome.started?.map (item.key, ·)).toList }
  | .expiry key number =>
    let (worker, commit) := t.worker.onExpiry key number
    { t with
      worker := worker
      counters := t.counters.afterExpiry commit
      calls := t.calls ++ callFor sink t.calls commit }

def run (t : SinkRun) (sink : MergeSink) (events : List WorkerEvent) : SinkRun :=
  events.foldl (step sink) t

/-- Batches and calls keep to the bound, the figures agree with the calls, and timers are started for
batches that can wait. -/
structure Lawful (bound : Nat) (t : SinkRun) : Prop where
  sized : t.worker.Sized
  bounded : t.worker.bound = bound
  fits : ∀ call ∈ t.calls, call.1.Fits bound
  counted : ∀ trigger, t.counters.batches trigger = callsBy trigger t.calls
  started : ∀ key batch, t.worker.batches.get? key = some batch → (key, batch.number) ∈ t.timers
  waits : t.timers ≠ [] → 1 < bound

theorem start_lawful (maxBatchSize : Nat) : (start maxBatchSize).Lawful (max maxBatchSize 1) :=
  ⟨MergeWorker.create_sized maxBatchSize, rfl, by simp [start],
    fun trigger => by cases trigger <;> rfl, by simp [start, MergeWorker.create, Table.get?],
    by simp [start]⟩

variable {bound : Nat} {t : SinkRun}

theorem Lawful.fits_after (h : t.Lawful bound) (sink : MergeSink) {commit : Option Commit}
    (hfits : ∀ c, commit = some c → c.Fits bound) :
    ∀ call ∈ t.calls ++ callFor sink t.calls commit, call.1.Fits bound := by
  intro call hc
  rcases List.mem_append.mp hc with hc | hc
  · exact h.fits call hc
  · obtain ⟨made, hmade, rfl⟩ := Option.map_eq_some_iff.mp (Option.mem_toList.mp hc)
    exact hfits made hmade

theorem Lawful.item (h : t.Lawful bound) (sink : MergeSink) (hd : t.worker.batches.Distinct)
    (item : MergeItem) : (t.step sink (.item item)).Lawful bound := by
  obtain ⟨hsized, hfits⟩ := h.sized.onItem item
  refine ⟨hsized, (t.worker.onItem_bound item).trans h.bounded, ?_, ?_, ?_, ?_⟩
  · exact h.fits_after sink fun commit hc => h.bounded ▸ hfits commit hc
  · intro trigger
    simp only [step, callsBy_append, ← h.counted trigger]
    exact afterItem_batches t.counters sink t.calls trigger _
  · intro key batch hb
    rcases MergeWorker.onItem_number hd hb with ⟨old, hold, hn⟩ | ⟨rfl, hs⟩
    · exact List.mem_append_left _ (hn ▸ h.started key old hold)
    · refine List.mem_append_right _ (Option.mem_toList.mpr ?_)
      exact Option.map_eq_some_iff.mpr ⟨batch.number, hs, rfl⟩
  · intro hne
    by_cases hold : t.timers = []
    · cases hs : (t.worker.onItem item).2.started? with
      | none => simp [step, hold, hs] at hne
      | some number => exact h.bounded ▸ MergeWorker.onItem_started hs
    · exact h.waits hold

theorem Lawful.expiry (h : t.Lawful bound) (sink : MergeSink) (hd : t.worker.batches.Distinct)
    (key : BatchKey) (number : Nat) : (t.step sink (.expiry key number)).Lawful bound := by
  obtain ⟨hsized, hfits⟩ := h.sized.onExpiry key number
  refine ⟨hsized, (t.worker.onExpiry_bound key number).trans h.bounded, ?_, ?_, ?_, h.waits⟩
  · exact h.fits_after sink fun commit hc => h.bounded ▸ hfits commit hc
  · intro trigger
    simp only [step, callsBy_append, ← h.counted trigger]
    exact afterExpiry_batches t.counters sink t.calls trigger _
  · intro other batch hb
    refine h.started other batch ?_
    rcases t.worker.onExpiry_cases key number with ⟨_, _, _, he⟩ | ⟨_, he⟩ <;>
      simp only [step, he] at hb
    · rw [Table.get?_remove hd] at hb
      split at hb
      next => simp at hb
      next => exact hb
    · exact hb

theorem run_lawful (maxBatchSize : Nat) (sink : MergeSink) (events : List WorkerEvent) :
    ((start maxBatchSize).run sink events).Lawful (max maxBatchSize 1) ∧
      ((start maxBatchSize).run sink events).worker.batches.Distinct := by
  induction events using List.reverseRecOn with
  | nil => exact ⟨start_lawful maxBatchSize, Table.distinct_nil⟩
  | append_singleton events e ih =>
    obtain ⟨h, hd⟩ := ih
    rw [run, List.foldl_append]
    cases e with
    | item item => exact ⟨h.item sink hd item, MergeWorker.onItem_distinct hd item⟩
    | expiry key number =>
      exact ⟨h.expiry sink hd key number, MergeWorker.onExpiry_distinct hd key number⟩

/-- In any run of a worker open batches keep below the bound with their timers started, and the figures
count every call to the sink under what brought it about. -/
theorem batch_sizes_and_triggers (maxBatchSize : Nat) (sink : MergeSink) (events : List WorkerEvent) :
    let m := max 1 maxBatchSize
    let t := (start maxBatchSize).run sink events
    (∀ entry ∈ t.worker.batches,
      1 ≤ entry.2.items.length ∧ entry.2.items.length ≤ m - 1 ∧ (entry.1, entry.2.number) ∈ t.timers) ∧
    (m = 1 → t.worker.batches = [] ∧ t.timers = []) ∧
    (∀ call ∈ t.calls, call.1.payload.items ≠ [] ∧
      (call.1.trigger = .size → call.1.payload.items.length = m) ∧
      (call.1.trigger = .timer →
        1 ≤ call.1.payload.items.length ∧ call.1.payload.items.length ≤ m - 1)) ∧
    (∀ trigger, t.counters.batches trigger = callsBy trigger t.calls) ∧
    t.counters.sizeBatches + t.counters.timerBatches = t.calls.length := by
  intro m t
  obtain ⟨h, hd⟩ : t.Lawful m ∧ t.worker.batches.Distinct := by
    have hrun := run_lawful maxBatchSize sink events
    rwa [Nat.max_comm] at hrun
  have hpos : 1 ≤ m := by omega
  have hopen : ∀ entry ∈ t.worker.batches,
      1 ≤ entry.2.items.length ∧ entry.2.items.length < m := by
    intro entry he
    rw [← h.bounded]
    exact h.sized.sizes entry he
  refine ⟨?_, ?_, ?_, h.counted, ?_⟩
  · intro entry he
    obtain ⟨hitems, hroom⟩ := hopen entry he
    exact ⟨hitems, by omega, h.started entry.1 entry.2 (Table.get?_of_mem hd he)⟩
  · intro hone
    constructor
    · refine List.eq_nil_iff_forall_not_mem.mpr fun entry he => ?_
      have hsize := hopen entry he
      omega
    · by_contra hne
      have hwaits := h.waits hne
      omega
  · intro call hc
    have hfits := h.fits call hc
    refine ⟨hfits.items_pos hpos, fun htrigger => ?_, fun htrigger => ?_⟩
    · rw [Commit.Fits, htrigger] at hfits
      exact hfits
    · rw [Commit.Fits, htrigger] at hfits
      exact ⟨hfits.1, Nat.le_sub_one_of_lt hfits.2⟩
  · rw [← callsBy_either, ← h.counted, ← h.counted]
    rfl

/-- A bound of zero is one of one: every item goes to the sink at once, and is counted although that
refuses it; a timer finds nothing. -/
theorem single_items_reach_refusing_sink :
    let refusing : MergeSink := fun _ _ => .error .dispatchQueueFull
    let t := (start 0).run refusing
      [.item ⟨.broadcast, ⟨"1"⟩⟩, .item ⟨.room "a", ⟨"2"⟩⟩, .expiry .broadcast 1]
    t.worker.batches = [] ∧ t.timers = [] ∧ t.counters = ⟨0, 2, 0, 1⟩ ∧
      t.calls = [(⟨.broadcast, ⟨[⟨"1"⟩]⟩, .size⟩, .error .dispatchQueueFull),
        (⟨.room "a", ⟨[⟨"2"⟩]⟩, .size⟩, .error .dispatchQueueFull)] := by
  intro refusing t
  obtain ⟨hbatches, htimers⟩ := (batch_sizes_and_triggers 0 refusing _).2.1 rfl
  exact ⟨hbatches, htimers, by decide +kernel, by decide +kernel⟩

end SinkRun

namespace MergeTrace

structure Sized (bound : Nat) (t : MergeTrace) : Prop where
  workers : ∀ lane ∈ t.layer.lanes, lane.worker.Sized ∧ lane.worker.bound = bound
  fits : ∀ call ∈ t.calls, call.1.Fits bound
  counted : ∀ trigger, t.layer.counters.batches trigger = callsBy trigger t.calls
  waits : t.layer.timers ≠ [] → 1 < bound

theorem start_sized (settings : MergeSettings) :
    (start settings).Sized (max settings.maxBatchSize.toNat 1) := by
  refine ⟨fun lane hl => ?_, by simp [start], fun trigger => by cases trigger <;> rfl,
    by simp [start, MergeLayer.create]⟩
  rw [(List.mem_replicate.mp hl).2]
  exact ⟨MergeWorker.create_sized _, rfl⟩

theorem call_eq (t : MergeTrace) (sink : MergeSink) (commit : Option Commit) :
    t.call sink commit = t.calls ++ callFor sink t.calls commit := by
  cases commit <;> simp [call, callFor]

variable {bound : Nat} {t : MergeTrace}

theorem Sized.lane (h : t.Sized bound) {i : Nat} {lane : MergeLane}
    (hl : t.layer.lanes[i]? = some lane) : lane.worker.Sized ∧ lane.worker.bound = bound :=
  h.workers lane (List.mem_of_getElem? hl)

theorem Sized.moved (h : t.Sized bound) (sink : MergeSink) {layer : MergeLayer}
    {commit : Option Commit} {i : Nat} {lane' : MergeLane}
    (hlanes : layer.lanes = t.layer.lanes.set i lane')
    (hworker : lane'.worker.Sized ∧ lane'.worker.bound = bound)
    (hfits : ∀ made, commit = some made → made.Fits bound)
    (hcounted : ∀ trigger, layer.counters.batches trigger =
      t.layer.counters.batches trigger + callsBy trigger (callFor sink t.calls commit))
    (hwaits : layer.timers ≠ [] → 1 < bound) :
    Sized bound { t with layer := layer, calls := t.call sink commit } := by
  refine ⟨fun lane hl => ?_, fun call hc => ?_, fun trigger => ?_, hwaits⟩
  · simp only [hlanes] at hl
    rcases List.mem_or_eq_of_mem_set hl with hl | rfl
    · exact h.workers lane hl
    · exact hworker
  · simp only [call_eq] at hc
    rcases List.mem_append.mp hc with hc | hc
    · exact h.fits call hc
    · obtain ⟨made, hmade, rfl⟩ := Option.map_eq_some_iff.mp (Option.mem_toList.mp hc)
      exact hfits made hmade
  · simp only [call_eq, callsBy_append, ← h.counted trigger]
    exact hcounted trigger

theorem Sized.take (h : t.Sized bound) (sink : MergeSink) (i now : Nat) :
    (t.step sink (.take i now)).Sized bound := by
  simp only [step]
  cases hm : t.layer.takeItem i now with
  | none => exact h
  | some move =>
    obtain ⟨layer, commit⟩ := move
    obtain ⟨lane, item, rest, hl, _, rfl, rfl⟩ := MergeLayer.takeItem_cases hm
    obtain ⟨hsized, hbound⟩ := h.lane hl
    obtain ⟨hworker, hfits⟩ := hsized.onItem item
    refine h.moved sink rfl ⟨hworker, (lane.worker.onItem_bound item).trans hbound⟩
      (fun made hmade => hbound ▸ hfits made hmade)
      (fun trigger => afterItem_batches _ sink t.calls trigger _) fun hne => ?_
    cases hs : (lane.worker.onItem item).2.started? with
    | some number => exact hbound ▸ MergeWorker.onItem_started hs
    | none =>
      -- without a new timer there are only those that ran before
      refine h.waits fun hold => hne ?_
      simp only [MergeLayer.timersAfter]
      split
      next => simp [hold, MergeLayer.abortTimer]
      next ho => simp [ho, ItemOutcome.started?] at hs
      next => exact hold

theorem Sized.tell (h : t.Sized bound) (sink : MergeSink) {i : Nat} {lane : MergeLane}
    (hl : t.layer.lanes[i]? = some lane) (expiries : List BatchTimer) (key : BatchKey) (number : Nat) :
    (t.move sink (some ({ t.layer with
      lanes := t.layer.lanes.set i
        { lane with expiries := expiries, worker := (lane.worker.onExpiry key number).1 }
      counters := t.layer.counters.afterExpiry (lane.worker.onExpiry key number).2 },
      (lane.worker.onExpiry key number).2))).Sized bound := by
  obtain ⟨hsized, hbound⟩ := h.lane hl
  obtain ⟨hworker, hfits⟩ := hsized.onExpiry key number
  exact h.moved sink rfl ⟨hworker, (lane.worker.onExpiry_bound key number).trans hbound⟩
    (fun made hmade => hbound ▸ hfits made hmade)
    (fun trigger => afterExpiry_batches _ sink t.calls trigger _) h.waits

theorem Sized.push {settings : MergeSettings} (h : t.Sized bound) (hc : t.Conserved settings)
    (sink : MergeSink) (item : MergeItem) : (t.step sink (.push item)).Sized bound := by
  obtain ⟨lane, hl, ⟨_, he⟩ | ⟨_, he⟩⟩ := MergeLayer.push_cases hc.sound hc.running.1 hc.running.2 item
  · simp only [step, he]
    refine ⟨h.workers, h.fits, fun trigger => ?_, h.waits⟩
    rw [← h.counted trigger]
    cases trigger <;> rfl
  · simp only [step, he]
    refine ⟨fun other ho => ?_, h.fits, h.counted, h.waits⟩
    have hlane := h.lane hl
    rcases List.mem_or_eq_of_mem_set ho with ho | rfl
    · exact h.workers other ho
    · exact hlane

theorem Sized.step {settings : MergeSettings} (h : t.Sized bound) (hc : t.Conserved settings)
    (sink : MergeSink) (e : MergeEvent) : (t.step sink e).Sized bound := by
  cases e with
  | push item => exact h.push hc sink item
  | take i now => exact h.take sink i now
  | fire k now =>
    simp only [MergeTrace.step]
    cases hm : t.layer.fire k now with
    | none => exact h
    | some move =>
      obtain ⟨layer, commit⟩ := move
      obtain ⟨x, lane, hk, _, hl, _, rfl, rfl⟩ := MergeLayer.fire_cases hm
      have hlane := h.lane hl
      have htimers : t.layer.timers ≠ [] := List.ne_nil_of_mem (List.mem_of_getElem? hk)
      exact h.moved sink rfl hlane (by simp) (fun trigger => rfl) fun _ => h.waits htimers
  | attend i =>
    simp only [MergeTrace.step]
    cases hm : t.layer.takeExpiry i with
    | none => exact h
    | some move =>
      obtain ⟨layer, commit⟩ := move
      obtain ⟨lane, x, rest, hl, _, rfl, rfl⟩ := MergeLayer.takeExpiry_cases hm
      exact h.tell sink hl rest x.key x.number
  | expire i key number =>
    simp only [MergeTrace.step, MergeLayer.expire]
    cases hl : t.layer.lanes[i]? with
    | none => exact h
    | some lane => exact h.tell sink hl lane.expiries key number

/-- Over any run of a layer, with all its workers and the timers they start, batches and calls keep to the
bound, the figures count all calls, and no timer is started for a bound of one. -/
theorem run_sized (settings : MergeSettings) (sink : MergeSink) (events : List MergeEvent) :
    (run settings sink events).Sized (max settings.maxBatchSize.toNat 1) := by
  induction events using List.reverseRecOn with
  | nil => exact start_sized settings
  | append_singleton events e ih =>
    have hc := run_conserved settings sink events
    rw [run, List.foldl_append]
    exact ih.step hc sink e

end MergeTrace

end RoomCast
