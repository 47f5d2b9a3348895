import Mathlib.Data.List.Induction
import RoomCast.Proofs.MergeConservation
import RoomCast.Shard

namespace RoomCast

/-- A batch handed to the sink, with the answer. -/
abbrev SinkCall := Commit × Except RegistryError Unit

/-- A sink: its answer to a batch may depend on every call before. -/
abbrev MergeSink := List SinkCall → Commit → Except RegistryError Unit

/-- What can happen to a merge layer that has not been stopped. -/
inductive MergeEvent where
  | push (item : MergeItem)
  | take (lane now : Nat)
  | fire (timer now : Nat)
  | attend (lane : Nat)
  /-- A worker is told of any timer, current or stale. -/
  | expire (lane : Nat) (key : BatchKey) (number : Nat)

/-- A layer with the items it has admitted and the calls it has made to its sink. -/
structure MergeTrace where
  layer : MergeLayer
  admitted : List MergeItem
  calls : List SinkCall

namespace MergeTrace

def start (settings : MergeSettings) : MergeTrace := ⟨.create settings, [], []⟩

def call (t : MergeTrace) (sink : MergeSink) : Option Commit → List SinkCall
  | none => t.calls
  | some commit => t.calls ++ [(commit, sink t.calls commit)]

def move (t : MergeTrace) (sink : MergeSink) : Option MergeMove → MergeTrace
  | none => t
  | some (layer, commit) => { t with layer := layer, calls := t.call sink commit }

/-- An event. Only an item whose push succeeds has been admitted. -/
def step (sink : MergeSink) (t : MergeTrace) : MergeEvent → MergeTrace
  | .push item =>
    match t.layer.push item with
    | (layer, .ok ()) => { t with layer := layer, admitted := t.admitted ++ [item] }
    | (layer, .error _) => { t with layer := layer }
  | .take lane now => t.move sink (t.layer.takeItem lane now)
  | .fire timer now => t.move sink (t.layer.fire timer now)
  | .attend lane => t.move sink (t.layer.takeExpiry lane)
  | .expire lane key number => t.move sink (t.layer.expire lane key number)

def run (settings : MergeSettings) (sink : MergeSink) (events : List MergeEvent) : MergeTrace :=
  events.foldl (step sink) (start settings)

def handedItems (t : MergeTrace) (key : BatchKey) : List Fragment :=
  t.calls.flatMap fun call => call.1.itemsFor key

/-- Nothing is lost: what was admitted has been handed on, gathers in a batch or waits. -/
structure Conserved (settings : MergeSettings) (t : MergeTrace) : Prop where
  sound : t.layer.Sound
  capacity : t.layer.capacity = settings.channelSize.toNat
  running : t.layer.cancelled = false ∧ t.layer.stopped = false
  items : ∀ key, t.handedItems key ++ (t.layer.openItems key ++ t.layer.waitingItems key) =
    fragmentsFor t.admitted key

theorem start_conserved (settings : MergeSettings) : (start settings).Conserved settings := by
  refine ⟨MergeLayer.create_sound settings, rfl, ⟨rfl, rfl⟩, ?_⟩
  intro key
  obtain ⟨lane, hl⟩ := (MergeLayer.create_sound settings).lane_exists key
  have he : lane = ⟨[], [], .create settings.maxBatchSize.toNat⟩ :=
    (List.mem_replicate.mp (List.mem_of_getElem? hl)).2
  simp only [start, MergeLayer.items_of_lane hl, he]
  rfl

theorem handedItems_call (t : MergeTrace) (sink : MergeSink) (layer : MergeLayer)
    (commit : Option Commit) (key : BatchKey) :
    handedItems { t with layer := layer, calls := t.call sink commit } key =
      t.handedItems key ++ committedFor commit key := by
  cases commit <;> simp [handedItems, call, committedFor]

theorem Conserved.move {settings : MergeSettings} {t : MergeTrace} (h : t.Conserved settings)
    (sink : MergeSink) {next : Option MergeMove}
    (hm : ∀ layer commit, next = some (layer, commit) → t.layer.Moved layer commit) :
    (t.move sink next).Conserved settings := by
  cases next with
  | none => exact h
  | some next =>
    obtain ⟨layer, commit⟩ := next
    have moved := hm layer commit rfl
    refine ⟨moved.sound h.sound, moved.capacity.trans h.capacity, ?_, ?_⟩
    · exact ⟨moved.running.1.trans h.running.1, moved.running.2.trans h.running.2⟩
    · intro key
      simp only [MergeTrace.move, handedItems_call]
      rw [List.append_assoc, moved.items h.sound key]
      exact h.items key

theorem Conserved.push {settings : MergeSettings} {t : MergeTrace} (h : t.Conserved settings)
    (sink : MergeSink) (item : MergeItem) :
    (t.step sink (.push item)).Conserved settings := by
  obtain ⟨lane, hl, ⟨_, he⟩ | ⟨_, he⟩⟩ := MergeLayer.push_cases h.sound h.running.1 h.running.2 item
  · simp only [step, he]
    exact ⟨⟨h.sound.rooms_served, h.sound.distinct, h.sound.home⟩, h.capacity, h.running, h.items⟩
  · simp only [step, he]
    refine ⟨h.sound.queue hl, h.capacity, h.running, ?_⟩
    intro key
    have hq := MergeLayer.queue_items hl key
    simp only [handedItems, fragmentsFor_append] at hq ⊢
    rw [hq, ← List.append_assoc]
    exact congrArg (· ++ _) (h.items key)

theorem Conserved.step {settings : MergeSettings} {t : MergeTrace} (h : t.Conserved settings)
    (sink : MergeSink) (event : MergeEvent) :
    (t.step sink event).Conserved settings := by
  cases event with
  | push item => exact h.push sink item
  | take lane now => exact h.move sink fun _ _ hm => MergeLayer.takeItem_moved hm
  | fire timer now => exact h.move sink fun _ _ hm => MergeLayer.fire_moved hm
  | attend lane => exact h.move sink fun _ _ hm => MergeLayer.takeExpiry_moved hm
  | expire lane key number => exact h.move sink fun _ _ hm => MergeLayer.expire_moved hm

theorem run_conserved (settings : MergeSettings) (sink : MergeSink) (events : List MergeEvent) :
    (run settings sink events).Conserved settings := by
  induction events using List.reverseRecOn with
  | nil => exact start_conserved settings
  | append_singleton events event ih =>
    rw [run, List.foldl_append]
    exact ih.step sink event

/-- Two traces that differ in nothing but the answers of their sinks. -/
def Alike (t t' : MergeTrace) : Prop :=
  t.layer = t'.layer ∧ t.admitted = t'.admitted ∧ t.calls.map Prod.fst = t'.calls.map Prod.fst

theorem Alike.move {t t' : MergeTrace} (h : t.Alike t') (sink sink' : MergeSink)
    (next : Option MergeMove) : (t.move sink next).Alike (t'.move sink' next) := by
  cases next with
  | none => exact h
  | some next =>
    obtain ⟨layer, commit⟩ := next
    refine ⟨rfl, h.2.1, ?_⟩
    cases commit with
    | none => exact h.2.2
    | some commit => simp [MergeTrace.move, call, h.2.2]

theorem Alike.step {t t' : MergeTrace} (h : t.Alike t') (sink sink' : MergeSink)
    (event : MergeEvent) : (t.step sink event).Alike (t'.step sink' event) := by
  cases event with
  | push item =>
    simp only [MergeTrace.step, ← h.1]
    cases t.layer.push item with
    | mk layer outcome =>
      cases outcome with
      | ok _ => exact ⟨rfl, congrArg (· ++ [item]) h.2.1, h.2.2⟩
      | error _ => exact ⟨rfl, h.2.1, h.2.2⟩
  | take lane now => simpa only [MergeTrace.step, ← h.1] using h.move sink sink' _
  | fire timer now => simpa only [MergeTrace.step, ← h.1] using h.move sink sink' _
  | attend lane => simpa only [MergeTrace.step, ← h.1] using h.move sink sink' _
  | expire lane key number => simpa only [MergeTrace.step, ← h.1] using h.move sink sink' _

/-- A batch that the sink refuses is neither offered again nor put back. -/
theorem run_alike (settings : MergeSettings) (sink sink' : MergeSink) (events : List MergeEvent) :
    (run settings sink events).Alike (run settings sink' events) := by
  induction events using List.reverseRecOn with
  | nil => exact ⟨rfl, rfl, rfl⟩
  | append_singleton events event ih =>
    rw [run, run, List.foldl_append, List.foldl_append]
    exact ih.step sink sink' event

/-- For every destination, what the sink was handed, then the open batch, then what waits for its worker,
is exactly what was admitted. -/
theorem merge_run_conserves_items (settings : MergeSettings) (sink : MergeSink)
    (events : List MergeEvent) (key : BatchKey) :
    let t := run settings sink events
    t.handedItems key ++ t.layer.openItems key ++ t.layer.waitingItems key =
        fragmentsFor t.admitted key ∧
      (∀ (i : Nat) (lane : MergeLane), t.layer.lanes[i]? = some lane → i ≠ t.layer.laneOf key →
        lane.worker.openItems key = [] ∧ lane.waitingItems key = []) ∧
      (∀ item, ∃ lane, t.layer.lanes[t.layer.laneOf item.key]? = some lane ∧
        if settings.channelSize.toNat ≤ lane.input.length then
          (t.layer.push item).2 = .error .queueFull ∧
            (t.step sink (.push item)).layer.lanes = t.layer.lanes ∧
            (t.step sink (.push item)).admitted = t.admitted ∧
            (t.step sink (.push item)).calls = t.calls
        else
          (t.layer.push item).2 = .ok () ∧
            (t.step sink (.push item)).admitted = t.admitted ++ [item] ∧
            (t.step sink (.push item)).calls = t.calls) ∧
      ∀ sink' : MergeSink, (run settings sink' events).layer = t.layer ∧
        (run settings sink' events).calls.map Prod.fst = t.calls.map Prod.fst := by
  intro t
  have h : t.Conserved settings := run_conserved settings sink events
  refine ⟨?_, ?_, ?_, ?_⟩
  · rw [List.append_assoc]
    exact h.items key
  · intro i lane hi hne
    exact List.append_eq_nil_iff.mp (h.sound.home i lane key hi (Ne.symm hne))
  · intro item
    obtain ⟨lane, hl, hcases⟩ := MergeLayer.push_cases h.sound h.running.1 h.running.2 item
    refine ⟨lane, hl, ?_⟩
    rw [h.capacity] at hcases
    rcases hcases with ⟨hb, he⟩ | ⟨hb, he⟩
    · rw [if_pos hb]
      simp only [step, he, and_self]
    · rw [if_neg (by omega)]
      simp only [step, he, and_self]
  · intro sink'
    obtain ⟨hl, _, hc⟩ := run_alike settings sink' sink events
    exact ⟨hl, hc⟩

end MergeTrace

end RoomCast
