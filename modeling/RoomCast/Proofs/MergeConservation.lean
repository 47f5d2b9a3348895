import RoomCast.MergeLayer
import RoomCast.Proofs.MergeBatches

namespace RoomCast

theorem roomWorker_lt (room : String) (workers : Nat) : roomWorker room workers < max workers 1 := by
  unfold roomWorker
  generalize room.toUTF8.toList = bytes
  have fold : ∀ h, h < max workers 1 →
      bytes.foldl (fun h b => (h * 33 + b.toNat) % max workers 1) h < max workers 1 := by
    induction bytes with
    | nil => exact fun h hh => hh
    | cons b bytes ih => exact fun h _ => ih _ (Nat.mod_lt _ (by omega))
  exact fold 0 (by omega)

namespace MergeLane

def waitingItems (lane : MergeLane) (key : BatchKey) : List Fragment := fragmentsFor lane.input key

def items (lane : MergeLane) (key : BatchKey) : List Fragment :=
  lane.worker.openItems key ++ lane.waitingItems key

end MergeLane

namespace MergeLayer

def openItems (m : MergeLayer) (key : BatchKey) : List Fragment :=
  match m.lanes[m.laneOf key]? with
  | none => []
  | some lane => lane.worker.openItems key

def waitingItems (m : MergeLayer) (key : BatchKey) : List Fragment :=
  match m.lanes[m.laneOf key]? with
  | none => []
  | some lane => lane.waitingItems key

/-- A timer of some number is told to a worker, whether it was ever set or not. -/
def expire (m : MergeLayer) (i : Nat) (key : BatchKey) (number : Nat) : Option MergeMove :=
  match m.lanes[i]? with
  | none => none
  | some lane =>
    let (worker, commit) := lane.worker.onExpiry key number
    some ({ m with
      lanes := m.lanes.set i { lane with worker := worker }
      counters := m.counters.afterExpiry commit }, commit)

/-- Every worker has one batch to a destination, and nothing of a destination that is not its own. -/
structure Sound (m : MergeLayer) : Prop where
  rooms_served : 2 ≤ m.lanes.length
  distinct : ∀ (i : Nat) (lane : MergeLane), m.lanes[i]? = some lane → lane.worker.batches.Distinct
  home : ∀ (i : Nat) (lane : MergeLane) (key : BatchKey), m.lanes[i]? = some lane →
    m.laneOf key ≠ i → lane.items key = []

/-- One lane is changed, and what that takes from a destination is what was committed. -/
structure Moved (m m' : MergeLayer) (commit : Option Commit) : Prop where
  running : m'.cancelled = m.cancelled ∧ m'.stopped = m.stopped
  capacity : m'.capacity = m.capacity
  lane : ∃ (i : Nat) (lane lane' : MergeLane), m.lanes[i]? = some lane ∧
    m'.lanes = m.lanes.set i lane' ∧
    (lane.worker.batches.Distinct → lane'.worker.batches.Distinct ∧
      ∀ key, committedFor commit key ++ lane'.items key = lane.items key)

theorem laneOf_congr {m m' : MergeLayer} (h : m'.lanes.length = m.lanes.length) (key : BatchKey) :
    m'.laneOf key = m.laneOf key := by
  cases key <;> simp [laneOf, roomWorkers, h]

theorem laneOf_lt {m : MergeLayer} (h : 2 ≤ m.lanes.length) (key : BatchKey) :
    m.laneOf key < m.lanes.length := by
  cases key with
  | broadcast =>
    change 0 < m.lanes.length
    omega
  | room name =>
    have hw := roomWorker_lt name m.roomWorkers
    simp only [laneOf, roomWorkers] at hw ⊢
    omega

theorem Sound.lane_exists {m : MergeLayer} (hs : m.Sound) (key : BatchKey) :
    ∃ lane, m.lanes[m.laneOf key]? = some lane :=
  ⟨_, List.getElem?_eq_getElem (laneOf_lt hs.rooms_served key)⟩

theorem create_sound (settings : MergeSettings) : (create settings).Sound := by
  have lane : ∀ (i : Nat) (lane : MergeLane), (create settings).lanes[i]? = some lane →
      lane = ⟨[], [], .create settings.maxBatchSize.toNat⟩ := by
    intro i lane h
    exact (List.mem_replicate.mp (List.mem_of_getElem? h)).2
  refine ⟨?_, ?_, ?_⟩
  · simp only [create, List.length_replicate]
    omega
  · intro i l h
    rw [lane i l h]
    exact Table.distinct_nil
  · intro i l key h _
    rw [lane i l h]
    rfl

theorem items_set {m m' : MergeLayer} {i : Nat} {lane lane' : MergeLane}
    (hi : m.lanes[i]? = some lane) (hset : m'.lanes = m.lanes.set i lane') (key : BatchKey) :
    m'.openItems key ++ m'.waitingItems key =
      if m.laneOf key = i then lane'.items key else m.openItems key ++ m.waitingItems key := by
  have hlen : m'.lanes.length = m.lanes.length := by rw [hset, List.length_set]
  simp only [openItems, waitingItems, laneOf_congr hlen, hset, getElem?_set_of_some hi]
  by_cases hk : m.laneOf key = i
  · simp [hk, MergeLane.items]
  · rw [if_neg hk, if_neg (Ne.symm hk)]

theorem items_of_lane {m : MergeLayer} {lane : MergeLane} {key : BatchKey}
    (h : m.lanes[m.laneOf key]? = some lane) :
    m.openItems key ++ m.waitingItems key = lane.items key := by
  simp [openItems, waitingItems, h, MergeLane.items]

theorem lane_of_set {lanes : List MergeLane} {i j : Nat} {lane lane' : MergeLane}
    (h : (lanes.set i lane')[j]? = some lane) :
    (i = j ∧ lane = lane') ∨ (i ≠ j ∧ lanes[j]? = some lane) := by
  by_cases hi : i = j
  · subst hi
    obtain ⟨hb, hg⟩ := List.getElem?_eq_some_iff.mp h
    exact Or.inl ⟨rfl, by simpa using hg.symm⟩
  · exact Or.inr ⟨hi, by rwa [List.getElem?_set_ne hi] at h⟩

theorem Sound.set {m m' : MergeLayer} (hs : m.Sound) {i : Nat} {lane' : MergeLane}
    (hset : m'.lanes = m.lanes.set i lane') (hd : lane'.worker.batches.Distinct)
    (hh : ∀ key, m.laneOf key ≠ i → lane'.items key = []) : m'.Sound := by
  have hlen : m'.lanes.length = m.lanes.length := by rw [hset, List.length_set]
  refine ⟨by rw [hlen]; exact hs.rooms_served, ?_, ?_⟩
  · intro j l hj
    rw [hset] at hj
    rcases lane_of_set hj with ⟨_, rfl⟩ | ⟨_, hj⟩
    · exact hd
    · exact hs.distinct j l hj
  · intro j l key hj hk
    rw [laneOf_congr hlen] at hk
    rw [hset] at hj
    rcases lane_of_set hj with ⟨rfl, rfl⟩ | ⟨_, hj⟩
    · exact hh key hk
    · exact hs.home j l key hj hk

theorem Moved.sound {m m' : MergeLayer} {commit : Option Commit} (h : m.Moved m' commit)
    (hs : m.Sound) : m'.Sound := by
  obtain ⟨i, lane, lane', hi, hset, hl⟩ := h.lane
  obtain ⟨hd, hitems⟩ := hl (hs.distinct i lane hi)
  refine hs.set hset hd ?_
  intro key hk
  have hnone := hs.home i lane key hi hk
  rw [← hitems key] at hnone
  exact (List.append_eq_nil_iff.mp hnone).2

/-- A step hands on exactly what it takes out of a destination, from the front. -/
theorem Moved.items {m m' : MergeLayer} {commit : Option Commit} (h : m.Moved m' commit)
    (hs : m.Sound) (key : BatchKey) :
    committedFor commit key ++ (m'.openItems key ++ m'.waitingItems key) =
      m.openItems key ++ m.waitingItems key := by
  obtain ⟨i, lane, lane', hi, hset, hl⟩ := h.lane
  obtain ⟨_, hitems⟩ := hl (hs.distinct i lane hi)
  rw [items_set hi hset key]
  by_cases hk : m.laneOf key = i
  · rw [if_pos hk, hitems key]
    exact (items_of_lane (hk ▸ hi)).symm
  · have hnone := hs.home i lane key hi hk
    rw [← hitems key] at hnone
    rw [if_neg hk, (List.append_eq_nil_iff.mp hnone).1]
    rfl

/-- The timers once a worker has taken an item: that of a batch which is committed ends, and a new
batch has its own. -/
def timersAfter (m : MergeLayer) (i now : Nat) (lane : MergeLane) (item : MergeItem) :
    List BatchTimer :=
  match (lane.worker.onItem item).2, lane.worker.batches.get? item.key with
  | .committed _, some batch => abortTimer m.timers i item.key batch.number
  | .opened n, _ => m.timers ++ [⟨i, item.key, n, now + m.delay⟩]
  | _, _ => m.timers

theorem takeItem_cases {m m' : MergeLayer} {commit : Option Commit} {i now : Nat}
    (h : m.takeItem i now = some (m', commit)) :
    ∃ lane item rest, m.lanes[i]? = some lane ∧ lane.input = item :: rest ∧
      commit = (lane.worker.onItem item).2.commit? ∧
      m' = { m with
        lanes := m.lanes.set i
          { lane with input := rest, worker := (lane.worker.onItem item).1 }
        timers := m.timersAfter i now lane item
        counters := m.counters.afterItem (lane.worker.onItem item).2 } := by
  unfold timersAfter
  unfold takeItem at h
  split at h
  next => simp at h
  next lane hi =>
    split at h
    next => simp at h
    next item rest hin =>
      refine ⟨lane, item, rest, hi, hin, ?_⟩
      cases hx : lane.worker.onItem item with
      | mk worker outcome =>
        simp only [hx] at h
        cases outcome with
        | committed batch =>
          cases hg : lane.worker.batches.get? item.key <;>
            simp only [hg, Option.map_none, Option.map_some, Option.some.injEq, Prod.mk.injEq] at h <;>
            exact ⟨h.2.symm, h.1.symm⟩
        | opened n =>
          simp only [Option.some.injEq, Prod.mk.injEq] at h
          exact ⟨h.2.symm, h.1.symm⟩
        | gathered =>
          simp only [Option.some.injEq, Prod.mk.injEq] at h
          exact ⟨h.2.symm, h.1.symm⟩

theorem takeItem_moved {m m' : MergeLayer} {commit : Option Commit} {i now : Nat}
    (h : m.takeItem i now = some (m', commit)) : m.Moved m' commit := by
  obtain ⟨lane, item, rest, hi, hin, rfl, rfl⟩ := takeItem_cases h
  refine ⟨⟨rfl, rfl⟩, rfl, i, lane, _, hi, rfl, fun hd => ⟨MergeWorker.onItem_distinct hd item, ?_⟩⟩
  intro key
  simp only [MergeLane.items, MergeLane.waitingItems]
  rw [← List.append_assoc, MergeWorker.onItem_items hd, hin, fragmentsFor_cons item rest,
    List.append_assoc]

theorem fire_cases {m m' : MergeLayer} {commit : Option Commit} {k now : Nat}
    (h : m.fire k now = some (m', commit)) :
    ∃ t lane, m.timers[k]? = some t ∧ t.due ≤ now ∧ m.lanes[t.lane]? = some lane ∧
      lane.expiries.length < expiryCapacity ∧ commit = none ∧ m' = { m with
        lanes := m.lanes.set t.lane { lane with expiries := lane.expiries ++ [t] }
        timers := m.timers.eraseIdx k } := by
  unfold fire at h
  split at h
  next => simp at h
  next t ht =>
    split at h
    next => simp at h
    next hdue =>
      split at h
      next => simp at h
      next lane hl =>
        split at h
        next => simp at h
        next hroom =>
          simp only [Option.some.injEq, Prod.mk.injEq] at h
          exact ⟨t, lane, ht, by omega, hl, by omega, h.2.symm, h.1.symm⟩

theorem fire_moved {m m' : MergeLayer} {commit : Option Commit} {k now : Nat}
    (h : m.fire k now = some (m', commit)) : m.Moved m' commit := by
  obtain ⟨t, lane, _, _, hl, _, rfl, rfl⟩ := fire_cases h
  exact ⟨⟨rfl, rfl⟩, rfl, t.lane, lane, _, hl, rfl, fun hd => ⟨hd, fun key => rfl⟩⟩

theorem expire_moved {m m' : MergeLayer} {commit : Option Commit} {i number : Nat} {key : BatchKey}
    (h : m.expire i key number = some (m', commit)) : m.Moved m' commit := by
  unfold expire at h
  split at h
  next => simp at h
  next lane hi =>
    simp only [Option.some.injEq, Prod.mk.injEq] at h
    obtain ⟨rfl, rfl⟩ := h
    refine ⟨⟨rfl, rfl⟩, rfl, i, lane, _, hi, rfl, fun hd => ?_⟩
    refine ⟨MergeWorker.onExpiry_distinct hd key number, ?_⟩
    intro k
    simp only [MergeLane.items, MergeLane.waitingItems]
    rw [← List.append_assoc, MergeWorker.onExpiry_items hd]

theorem takeExpiry_cases {m m' : MergeLayer} {commit : Option Commit} {i : Nat}
    (h : m.takeExpiry i = some (m', commit)) :
    ∃ lane t rest, m.lanes[i]? = some lane ∧ lane.expiries = t :: rest ∧
      commit = (lane.worker.onExpiry t.key t.number).2 ∧ m' = { m with
        lanes := m.lanes.set i
          { lane with expiries := rest, worker := (lane.worker.onExpiry t.key t.number).1 }
        counters := m.counters.afterExpiry (lane.worker.onExpiry t.key t.number).2 } := by
  unfold takeExpiry at h
  split at h
  next => simp at h
  next lane hi =>
    split at h
    next => simp at h
    next t rest hx =>
      simp only [Option.some.injEq, Prod.mk.injEq] at h
      exact ⟨lane, t, rest, hi, hx, h.2.symm, h.1.symm⟩

theorem takeExpiry_moved {m m' : MergeLayer} {commit : Option Commit} {i : Nat}
    (h : m.takeExpiry i = some (m', commit)) : m.Moved m' commit := by
  obtain ⟨lane, t, rest, hi, _, rfl, rfl⟩ := takeExpiry_cases h
  refine ⟨⟨rfl, rfl⟩, rfl, i, lane, _, hi, rfl, fun hd => ?_⟩
  refine ⟨MergeWorker.onExpiry_distinct hd t.key t.number, ?_⟩
  intro k
  simp only [MergeLane.items, MergeLane.waitingItems]
  rw [← List.append_assoc, MergeWorker.onExpiry_items hd]

theorem push_cases {m : MergeLayer} (hs : m.Sound) (hc : m.cancelled = false)
    (hp : m.stopped = false) (item : MergeItem) :
    ∃ lane, m.lanes[m.laneOf item.key]? = some lane ∧
      ((m.capacity ≤ lane.input.length ∧ m.push item = ({ m with
          counters := { m.counters with drops := m.counters.drops + 1 } }, .error .queueFull)) ∨
        (lane.input.length < m.capacity ∧ m.push item = ({ m with
          lanes := m.lanes.set (m.laneOf item.key) { lane with input := lane.input ++ [item] } },
          .ok ()))) := by
  obtain ⟨lane, hl⟩ := hs.lane_exists item.key
  refine ⟨lane, hl, ?_⟩
  by_cases hb : m.capacity ≤ lane.input.length
  · exact Or.inl ⟨hb, by simp [push, hc, hp, hl, hb]⟩
  · exact Or.inr ⟨by omega, by simp [push, hc, hp, hl, hb]⟩

theorem queued_items (lane : MergeLane) (item : MergeItem) (key : BatchKey) :
    MergeLane.items { lane with input := lane.input ++ [item] } key =
      lane.items key ++ fragmentsFor [item] key := by
  simp [MergeLane.items, MergeLane.waitingItems, fragmentsFor_append]

theorem Sound.queue {m : MergeLayer} (hs : m.Sound) {lane : MergeLane} {item : MergeItem}
    (hl : m.lanes[m.laneOf item.key]? = some lane) :
    Sound { m with
      lanes := m.lanes.set (m.laneOf item.key) { lane with input := lane.input ++ [item] } } := by
  refine hs.set rfl (hs.distinct _ lane hl) ?_
  intro key hk
  have hne : item.key ≠ key := by
    rintro rfl
    exact hk rfl
  rw [queued_items, hs.home _ lane key hl hk, fragmentsFor_ne hne]
  rfl

theorem queue_items {m : MergeLayer} {lane : MergeLane} {item : MergeItem}
    (hl : m.lanes[m.laneOf item.key]? = some lane) (key : BatchKey) :
    let m' : MergeLayer := { m with
      lanes := m.lanes.set (m.laneOf item.key) { lane with input := lane.input ++ [item] } }
    m'.openItems key ++ m'.waitingItems key =
      (m.openItems key ++ m.waitingItems key) ++ fragmentsFor [item] key := by
  intro m'
  rw [items_set hl rfl key, queued_items]
  by_cases hk : m.laneOf key = m.laneOf item.key
  · rw [if_pos hk, items_of_lane (hk ▸ hl)]
  · have hne : item.key ≠ key := by
      rintro rfl
      exact hk rfl
    rw [if_neg hk, fragmentsFor_ne hne, List.append_nil]

end MergeLayer

end RoomCast
